import SupportPilot.Lifecycle.Versions

/-! # The storage quota of a workspace

A call of `upload_document_version` sums up the stored bytes of the workspace
before it locks anything, and adds its own when it commits.  The quota holds as
long as the sum is still the same then (`quota_holds`); two calls that read it
before either commits exceed it together (`concurrent_uploads_exceed_quota`). -/

namespace SupportPilot.Lifecycle

open Lib Documents Worker

section Quota

variable [UnicodeTables] [Sha256] {env : Environment} {s t : System} {event : Event}
  {db' : Database}

/-- An upload commits only while no other one has committed in its workspace
since it read the sum. -/
def sumCurrent (s : System) : Event → Bool
  | .advance i _ =>
    match s.processes[i]? with
    | some (.ofUpload ⟨call, _, .promoted file _⟩) =>
      s.stores.db.usedBytes call.workspaceId = file.usedBytes
    | _ => true
  | _ => true

def WithinQuota (env : Environment) (db : Database) : Prop :=
  ∀ workspaceId, db.usedBytes workspaceId ≤ env.service.settings.maxWorkspaceStorageBytes

omit [UnicodeTables] [Sha256] in
theorem usedBytes_rewritten {db db' : Database} (workspaceId : UUID)
    (rewritten : List.Forall₂ SameVersion db.versions db'.versions) :
    db'.usedBytes workspaceId = db.usedBytes workspaceId := by
  have versions : List.Forall₂ SameVersion
      (db.versions.filter fun version => version.workspaceId = workspaceId)
      (db'.versions.filter fun version => version.workspaceId = workspaceId) := by
    apply rewritten_filter _ rewritten
    intro version version' same
    rw [same.workspaceId]
  rw [Database.usedBytes, Database.usedBytes,
    map_eq_of_forall₂ (fun _ _ same => same.byteSize) versions]

omit [UnicodeTables] [Sha256] in
theorem usedBytes_added {db : Database} {target : Target} {version : DocumentVersion} {job : Job}
    (workspaceId : UUID) : (added db target version job).usedBytes workspaceId =
      db.usedBytes workspaceId +
        if version.workspaceId = workspaceId then version.byteSize else 0 := by
  simp only [Database.usedBytes, added, List.filter_append, List.map_append, List.sum_append]
  split
  next own => simp [own]
  next foreign => simp [foreign]

theorem withinQuota_of_change (change : Change env s event db')
    (current : sumCurrent s event = true) (within : WithinQuota env s.stores.db) :
    WithinQuota env db' := by
  intro workspaceId
  have kept : ∀ db : Database, List.Forall₂ SameVersion s.stores.db.versions db.versions →
      db.usedBytes workspaceId ≤ env.service.settings.maxWorkspaceStorageBytes := by
    intro db rewritten
    rw [usedBytes_rewritten workspaceId rewritten]
    exact within workspaceId
  cases change with
  | uploaded i input call promotedKey file target here found fileOk targetOk fits =>
    subst here
    simp only [sumCurrent, found, decide_eq_true_eq] at current
    rw [usedBytes_added]
    split
    next own =>
      -- the check was made against the sum that is stored now
      have checked := fileOk.within
      have same : call.workspaceId = workspaceId := own
      simp only [newVersion, fileOk.received, Received.of]
      rw [← same, current]
      exact checked
    next foreign => exact within workspaceId
  | marked | activated => exact kept _ (inPlace_setStatus _ _ _).versions
  | renamed | deleted | claimed | saved | retried | swept =>
    exact kept _ (rewritten_refl SameVersion.refl _)

theorem withinQuota_step (wf : Wf env s) (taken : stepOf (guarded sumCurrent (next env)) s event t)
    (within : WithinQuota env s.stores.db) : Wf env t ∧ WithinQuota env t.stores.db := by
  obtain ⟨current, moved⟩ := stepOf_guarded.1 taken
  refine ⟨wf_step wf moved, ?_⟩
  obtain same | change := change_of_next wf (next_of_event moved)
  · rw [same]
    exact within
  · exact withinQuota_of_change change current within

/-- No workspace exceeds its quota where the sums are current at each commit. -/
theorem quota_holds (reached : Reachable (stepOf (guarded sumCurrent (next env))) .empty s)
    (workspaceId : UUID) :
    s.stores.db.usedBytes workspaceId ≤ env.service.settings.maxWorkspaceStorageBytes := by
  have both : Wf env s ∧ WithinQuota env s.stores.db := by
    apply reached.invariant (I := fun s => Wf env s ∧ WithinQuota env s.stores.db)
    · exact ⟨wf_empty, fun _ => Nat.zero_le _⟩
    · exact fun _ _ _ ⟨wf, within⟩ taken => withinQuota_step wf taken within
  exact both.2 workspaceId

end Quota

/-- One upload after the other. -/
theorem quota_holds_letters : ∃ s,
    Reachable (stepOf (guarded sumCurrent (@next asciiTables letterSha256 letterEnvironment)))
      .empty s ∧ s.stores.db.usedBytes 1 = 2 ∧ s.stores.db.usedBytes 1 ≤ 1024 := by
  have executed : (exec (guarded sumCurrent (@next asciiTables letterSha256 letterEnvironment))
      .empty (uploading 0 letterCall ++ uploading 1 secondCall)).any
        (fun s => s.stores.db.usedBytes 1 = 2) = true := by
    rw [letterSha256_eq]
    decide +kernel
  obtain ⟨s, reached, stored⟩ := reachable_of_exec executed
  exact ⟨s, reached, of_decide_eq_true stored,
    @quota_holds asciiTables letterSha256 letterEnvironment s reached 1⟩

/-! ## Two uploads at the same time -/

/-- A file of 600 bytes. -/
def longContent : Bytes := pdfSignature ++ List.replicate 595 0x20

@[reducible] def longSha256 : Sha256 where
  hexdigest content :=
    if content.length = 600 then
      "5c803077a3e67b5c08218fa298f8c1bdb4af82f78d45ee950ac980b966802519".toList
    else List.replicate 64 '0'
  length_hexdigest content := by
    split
    · rw [String.toList_ofList]
      rfl
    · exact List.length_replicate

def longCall : UploadCall :=
  { letterCall with
    filename := some "a.pdf".toList
    contentType := some "application/pdf".toList
    reads := [longContent, []] }

/-- The same content as another document. -/
def otherCall : UploadCall :=
  { secondCall with
    filename := some "a.pdf".toList
    contentType := some "application/pdf".toList
    reads := [longContent, []]
    documentId := none }

/-- Both calls check the quota before either commits. -/
def overlapping : List Event :=
  .upload longCall :: .upload otherCall ::
    (List.replicate 3 (.advance 0 steady) ++ List.replicate 3 (.advance 1 steady) ++
      List.replicate 5 (.advance 0 steady) ++ List.replicate 5 (.advance 1 steady))

theorem concurrent_uploads_exceed_quota :
    ∃ s, Reachable (stepOf (@next asciiTables longSha256 letterEnvironment)) .empty s ∧
      letterEnvironment.service.settings.maxWorkspaceStorageBytes < s.stores.db.usedBytes 1 := by
  have executed : (exec (@next asciiTables longSha256 letterEnvironment) .empty overlapping).any
      (fun s => 1024 < s.stores.db.usedBytes 1) = true := by decide +kernel
  obtain ⟨s, reached, exceeded⟩ := reachable_of_exec executed
  exact ⟨s, reached, of_decide_eq_true exceeded⟩

end SupportPilot.Lifecycle
