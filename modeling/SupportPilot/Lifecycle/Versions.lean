import SupportPilot.Lifecycle.Changes

/-! # Version histories

The versions of a document are numbered 1, 2, … in the order in which they were
committed, and have different contents.  A call may compute its number long
before it commits: by then the number is at most one more than the largest
(`TargetOk`), and the unique constraint rejects every smaller one. -/

namespace SupportPilot.Lifecycle

open Lib Documents Worker

section Histories

variable (db : Database) (documentId : UUID)

def versionNumbers : List Nat :=
  (db.versionsOf documentId).map DocumentVersion.versionNumber

def digests : List Text := (db.versionsOf documentId).map DocumentVersion.sha256

/-- The versions in the order of their commits, with their numbers. -/
def history : List (UUID × Nat) :=
  (db.versionsOf documentId).map fun version => (version.id, version.versionNumber)

structure Numbered : Prop where
  numbers : versionNumbers db documentId = List.range' 1 (versionNumbers db documentId).length
  distinct : (digests db documentId).Nodup

end Histories

section Columns

variable {db db' : Database} {documentId : UUID}
  (rewritten : List.Forall₂ SameVersion db.versions db'.versions)

include rewritten

/-- A column of the versions of a document that no update writes. -/
theorem column_of_rewritten {β : Type*} {f : DocumentVersion → β}
    (keeps : ∀ version version', SameVersion version version' → f version' = f version) :
    (db'.versionsOf documentId).map f = (db.versionsOf documentId).map f := by
  have versions : List.Forall₂ SameVersion (db.versionsOf documentId)
      (db'.versionsOf documentId) := by
    apply rewritten_filter _ rewritten
    intro version version' same
    rw [same.documentId]
  exact map_eq_of_forall₂ keeps versions

theorem Numbered.kept (numbered : Numbered db documentId) : Numbered db' documentId := by
  have numbers : versionNumbers db' documentId = versionNumbers db documentId :=
    column_of_rewritten rewritten fun _ _ same => same.versionNumber
  have same : digests db' documentId = digests db documentId :=
    column_of_rewritten rewritten fun _ _ same => same.sha256
  constructor
  · rw [numbers]
    exact numbered.numbers
  · rw [same]
    exact numbered.distinct

theorem history_rewritten : history db' documentId = history db documentId := by
  apply column_of_rewritten rewritten
  intro version version' same
  rw [same.id, same.versionNumber]

end Columns

/-! ## Numbering -/

theorem foldl_max_range' (n : Nat) : (List.range' 1 n).foldl max 0 = n := by
  induction n with
  | zero => rfl
  | succ n ih =>
    rw [List.range'_concat, List.foldl_append, ih]
    simp [Nat.add_comm]

/-- The only number that is unused, positive and not too large. -/
theorem eq_succ_of_fits {numbers : List Nat} {number : Nat}
    (numbered : numbers = List.range' 1 numbers.length) (positive : number ≠ 0)
    (bounded : number ≤ numbers.foldl max 0 + 1) (unused : number ∉ numbers) :
    number = numbers.length + 1 := by
  rw [numbered, foldl_max_range'] at bounded
  rw [numbered, List.mem_range'_1] at unused
  omega

section Commits

variable [UnicodeTables] [Sha256] {env : Environment} {s t : System} {event : Event}
  {db' : Database}

omit [UnicodeTables] [Sha256] in
theorem versionsOf_added {db : Database} {target : Target} {version : DocumentVersion} {job : Job}
    {documentId : UUID} : (added db target version job).versionsOf documentId =
      db.versionsOf documentId ++ if version.documentId = documentId then [version] else [] := by
  simp only [Database.versionsOf, added, List.filter_append, List.filter_cons, List.filter_nil,
    decide_eq_true_eq]

omit [UnicodeTables] [Sha256] in
theorem mem_versionsOf {db : Database} {documentId : UUID} {version : DocumentVersion} :
    version ∈ db.versionsOf documentId ↔
      version ∈ db.versions ∧ version.documentId = documentId := by
  simp [Database.versionsOf]

omit [UnicodeTables] [Sha256] in
theorem Numbered.concat {db db' : Database} {documentId : UUID} {version : DocumentVersion}
    (numbered : Numbered db documentId)
    (added : db'.versionsOf documentId = db.versionsOf documentId ++ [version])
    (next : version.versionNumber = (versionNumbers db documentId).length + 1)
    (new : version.sha256 ∉ digests db documentId) : Numbered db' documentId := by
  constructor
  · have numbers : versionNumbers db' documentId =
        versionNumbers db documentId ++ [version.versionNumber] := by
      rw [versionNumbers, added, List.map_append]
      rfl
    rw [numbers, List.length_append, List.length_singleton, List.range'_concat,
      ← numbered.numbers, next]
    simp [Nat.add_comm]
  · have more : digests db' documentId =
        (digests db documentId).concat version.sha256 := by
      rw [digests, added, List.map_append, List.concat_eq_append]
      rfl
    rw [more]
    exact numbered.distinct.concat new

omit [Sha256] in
/-- A commit adds the next number and a new content. -/
theorem numbered_added {call : UploadCall} {target : Target} {documentId : UUID} {db : Database}
    {version : DocumentVersion} {job : Job} (linked : Linked db)
    (targetOk : TargetOk call db target) (fits : UploadFits db target version job)
    (document : version.documentId = target.document.id)
    (workspace : version.workspaceId = call.workspaceId)
    (number : version.versionNumber = target.versionNumber) (numbered : Numbered db documentId) :
    Numbered (added db target version job) documentId := by
  by_cases here : version.documentId = documentId
  · subst here
    have appended : (added db target version job).versionsOf version.documentId =
        db.versionsOf version.documentId ++ [version] := by
      rw [versionsOf_added, if_pos rfl]
    apply numbered.concat appended
    · apply eq_succ_of_fits numbered.numbers fits.version.positive
      · rw [number, document]
        exact targetOk.number
      · intro used
        obtain ⟨row, member, same⟩ := List.mem_map.mp used
        obtain ⟨present, sameDocument⟩ := mem_versionsOf.1 member
        exact fits.version.number row present sameDocument same
    · intro used
      obtain ⟨row, member, same⟩ := List.mem_map.mp used
      obtain ⟨present, sameDocument⟩ := mem_versionsOf.1 member
      -- the versions of a document are in one workspace
      obtain ⟨parent, stored, id, sameWorkspace⟩ := linked.document row present
      have parents := targetOk.document.workspace linked fun isNew => (fits.document isNew).1
      have ofCall := parents parent (List.mem_append_left _ stored)
        (id.trans (sameDocument.trans document))
      exact fits.version.content row present
        (sameWorkspace.symm.trans (ofCall.trans workspace.symm)) sameDocument same
  · have same : (added db target version job).versionsOf documentId = db.versionsOf documentId := by
      rw [versionsOf_added, if_neg here, List.append_nil]
    constructor
    · simp only [versionNumbers, same]
      exact numbered.numbers
    · simp only [digests, same]
      exact numbered.distinct

/-- The version rows are rewritten, unless an upload commits. -/
theorem Change.versions (change : Change env s event db') :
    List.Forall₂ SameVersion s.stores.db.versions db'.versions ∨
      ∃ (call : UploadCall) (file : CheckedFile) (target : Target),
        TargetOk call s.stores.db target ∧
        UploadFits s.stores.db target (newVersion call file.received file.mediaType target)
          (newJob env.service call target) ∧
        db' = added s.stores.db target (newVersion call file.received file.mediaType target)
          (newJob env.service call target) := by
  cases change with
  | uploaded i input call promotedKey file target here found fileOk targetOk fits =>
    exact .inr ⟨call, file, target, targetOk, fits, rfl⟩
  | marked | activated => exact .inl (inPlace_setStatus _ _ _).versions
  | renamed | deleted | claimed | saved | retried | swept =>
    exact .inl (rewritten_refl SameVersion.refl _)

theorem numbered_of_change {documentId : UUID} (wf : Wf env s)
    (change : Change env s event db') (numbered : Numbered s.stores.db documentId) :
    Numbered db' documentId := by
  obtain rewritten | ⟨call, file, target, targetOk, fits, rfl⟩ := change.versions
  · exact numbered.kept rewritten
  · exact numbered_added wf.linked targetOk fits rfl rfl rfl numbered

theorem history_of_change (change : Change env s event db') (documentId : UUID) :
    history s.stores.db documentId <+: history db' documentId := by
  obtain rewritten | ⟨call, file, target, -, -, rfl⟩ := change.versions
  · rw [history_rewritten rewritten]
  · simp only [history, versionsOf_added, List.map_append]
    exact List.prefix_append _ _

/-! ## Runs -/

theorem wf_step (wf : Wf env s) (taken : stepOf (next env) s event t) : Wf env t :=
  wf_next wf (next_of_event taken)

theorem wf_of_reachable (reached : Reachable (stepOf (next env)) .empty s) : Wf env s :=
  reached.invariant wf_empty fun _ _ _ => wf_step

theorem numbered_step {documentId : UUID} (wf : Wf env s) (taken : stepOf (next env) s event t)
    (numbered : Numbered s.stores.db documentId) : Numbered t.stores.db documentId := by
  obtain same | change := change_of_next wf (next_of_event taken)
  · rw [same]
    exact numbered
  · exact numbered_of_change wf change numbered

theorem history_step (documentId : UUID) (wf : Wf env s) (taken : stepOf (next env) s event t) :
    history s.stores.db documentId <+: history t.stores.db documentId := by
  obtain same | change := change_of_next wf (next_of_event taken)
  · rw [same]
  · exact history_of_change change documentId

/-- In every reachable system the versions of a document have the numbers 1 to n
in the order of their commits, and different contents; a run only adds to them. -/
theorem version_history (reached : Reachable (stepOf (next env)) .empty s) (documentId : UUID) :
    Numbered s.stores.db documentId ∧ ∀ events t, Run (stepOf (next env)) s events t →
      history s.stores.db documentId <+: history t.stores.db documentId := by
  constructor
  · have both : Wf env s ∧ Numbered s.stores.db documentId := by
      apply reached.invariant (I := fun s => Wf env s ∧ Numbered s.stores.db documentId)
      · exact ⟨wf_empty, rfl, List.nodup_nil⟩
      · exact fun _ _ _ ⟨wf, numbered⟩ taken => ⟨wf_step wf taken, numbered_step wf taken numbered⟩
    exact both.2
  · intro events t run
    apply run.relates (I := Wf env)
      (R := fun s t => history s.stores.db documentId <+: history t.stores.db documentId)
    · exact fun _ => List.prefix_rfl
    · exact fun _ _ _ => List.IsPrefix.trans
    · exact fun _ _ _ => wf_step
    · exact fun _ _ _ => history_step documentId
    · exact wf_of_reachable reached

end Commits

/-- Two versions of one document. -/
theorem version_history_letters :
    ∃ s, Reachable (stepOf (@next asciiTables letterSha256 letterEnvironment)) .empty s ∧
      versionNumbers s.stores.db 4 = [1, 2] ∧ Numbered s.stores.db 4 ∧
      ∀ events t, Run (stepOf (@next asciiTables letterSha256 letterEnvironment)) s events t →
        history s.stores.db 4 <+: history t.stores.db 4 := by
  have executed : (exec (@next asciiTables letterSha256 letterEnvironment) .empty
      (uploading 0 letterCall ++ uploading 1 secondCall)).any
        (fun s => versionNumbers s.stores.db 4 = [1, 2]) = true := by
    rw [letterSha256_eq]
    decide +kernel
  obtain ⟨s, reached, numbers⟩ := reachable_of_exec executed
  exact ⟨s, reached, of_decide_eq_true numbers,
    @version_history asciiTables letterSha256 letterEnvironment s reached 4⟩

end SupportPilot.Lifecycle
