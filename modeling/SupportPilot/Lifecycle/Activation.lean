import SupportPilot.Lifecycle.Index

/-! # The order of activations

`finish_document_job` makes the version of its job active without looking at the
one that is active already.  So the active version of a document moves forward as
long as the jobs of its versions finish in the order of the uploads
(`active_moves_forward`), and a late job of an old version takes it back
(`late_job_takes_back`). -/

namespace SupportPilot.Lifecycle

open Lib Documents Worker

/-- The number of the active version. -/
def activeNumber (db : Database) (documentId : UUID) : Option Nat := do
  let document ← Table.lookup db.documents documentId
  let versionId ← document.activeVersionId
  let version ← Table.lookup db.versions versionId
  return version.versionNumber

/-- A job that is about to finish is not for a version older than one that is
processed already. -/
def inOrder (s : System) : Event → Bool
  | .advance i _ =>
    match s.processes[i]? with
    | some (.ofTask ⟨_, _, .locked located _ _ documentId⟩) =>
      (s.stores.db.versionsOf documentId).all fun other =>
        !completed s.stores.db other.id || s.stores.db.versions.all fun version =>
          version.id ≠ located.versionId || other.versionNumber ≤ version.versionNumber
    | _ => true
  | _ => true

section Rows

variable {db db' : Database}

theorem activeNumber_eq_some {documentId number : Nat} :
    activeNumber db documentId = some number ↔ ∃ document version,
      Table.lookup db.documents documentId = some document ∧
        document.activeVersionId = some version.id ∧
        Table.lookup db.versions version.id = some version ∧ version.versionNumber = number := by
  simp only [activeNumber, bind, pure, Option.bind_eq_some_iff, Option.some.injEq]
  constructor
  · rintro ⟨document, read, versionId, names, version, found, same⟩
    have id : version.id = versionId := Table.key_of_lookup found
    subst id
    exact ⟨document, version, read, names, found, same⟩
  · rintro ⟨document, version, read, names, found, same⟩
    exact ⟨document, read, version.id, names, version, found, same⟩

/-- The rows stay, and no active version of a document that is not deleted is
replaced by an older one. -/
structure MovesForward (db db' : Database) : Prop where
  grows : Grows db db'
  number : ∀ documentId number, activeNumber db documentId = some number →
    LiveRow db' documentId → ∃ number', number ≤ number' ∧
      activeNumber db' documentId = some number'

theorem MovesForward.refl (db : Database) : MovesForward db db :=
  ⟨.refl db, fun _ number active _ => ⟨number, Nat.le_refl number, active⟩⟩

theorem MovesForward.trans {first second third : Database} (before : MovesForward first second)
    (behind : MovesForward second third) : MovesForward first third := by
  refine ⟨before.grows.trans behind.grows, fun documentId number active live => ?_⟩
  -- the document was not deleted in between
  have between : LiveRow second documentId := by
    obtain ⟨document, _, read, -⟩ := activeNumber_eq_some.1 active
    obtain ⟨middle, read', -⟩ := before.grows.document read
    obtain ⟨last, found, same⟩ := behind.grows.document read'
    obtain ⟨other, read'', undeleted⟩ := live
    cases found.symm.trans read''
    exact ⟨middle, read', by_contra fun deleted => same.deleted deleted undeleted⟩
  obtain ⟨number', le, active'⟩ := before.number documentId number active between
  obtain ⟨number'', le', active''⟩ := behind.number documentId number' active' live
  exact ⟨number'', Nat.le_trans le le', active''⟩

/-- Documents keep their active versions, or are deleted. -/
theorem movesForward_of_kept (grows : Grows db db')
    (kept : ∀ documentId document, Table.lookup db.documents documentId = some document →
      LiveRow db' documentId → ∃ document', Table.lookup db'.documents documentId = some document' ∧
        document'.activeVersionId = document.activeVersionId) : MovesForward db db' := by
  refine ⟨grows, fun documentId number active live => ⟨number, Nat.le_refl number, ?_⟩⟩
  obtain ⟨document, version, read, names, found, same⟩ := activeNumber_eq_some.1 active
  obtain ⟨document', read', sameActive⟩ := kept documentId document read live
  obtain ⟨version', found', sameVersion⟩ := grows.version found
  have id : version'.id = version.id := Table.key_of_lookup found'
  exact activeNumber_eq_some.2 ⟨document', version', read', by rw [sameActive, names, id],
    by rw [id, found'], sameVersion.versionNumber.trans same⟩

end Rows

section Runs

variable [UnicodeTables] [Sha256] {env : Environment} {s t : System} {event : Event}
  {db' : Database}

theorem movesForward_activated {i : Nat} {input : Input} {job : Job} {worker : Jobs.WorkerId}
    {located : Located} {content : Bytes} {records : List Rag.EmbeddedChunk} {row : Job}
    {version : DocumentVersion} {chunks : List Rag.DocumentChunk} (wf : Wf env s)
    (indexed : Indexed env s.stores.db) (ordered : inOrder s (.advance i input) = true)
    (found : s.processes[i]? = some
      (.ofTask ⟨job, worker, .locked located content records version.documentId⟩))
    (sameId : located.versionId = version.id) (writes : Writes s.stores.db row row.complete)
    (read : Table.lookup s.stores.db.versions version.id = some version) :
    MovesForward s.stores.db
      (activatedDb s.stores.db chunks version.id version.documentId row) := by
  have inPlace : InPlace s.stores.db
      (activatedDb s.stores.db chunks version.id version.documentId row) :=
    writes.activated wf.linked.jobs
  refine ⟨inPlace.grows, fun documentId number active live => ?_⟩
  obtain ⟨document, old, read', names, found', same⟩ := activeNumber_eq_some.1 active
  have id : document.id = documentId := Table.key_of_lookup read'
  have written : Table.lookup (activatedDb s.stores.db chunks version.id version.documentId
      row).documents documentId = _ :=
    lookup_updateDocument version.documentId documentId fun _ => rfl
  change _ = (Table.lookup s.stores.db.documents documentId).map _ at written
  rw [read', Option.map_some] at written
  by_cases here : documentId = version.documentId
  · -- the old version is processed, so it is not newer
    obtain ⟨-, finished, parent, stored, ofDocument⟩ :=
      indexed.active document (Table.mem_of_lookup read') old.id names
    cases found'.symm.trans stored
    have sibling : old ∈ s.stores.db.versionsOf version.documentId :=
      mem_versionsOf.2 ⟨Table.mem_of_lookup found', by rw [ofDocument, id, here]⟩
    have le : old.versionNumber ≤ version.versionNumber := by
      simp only [inOrder, found] at ordered
      have checked := List.all_eq_true.mp ordered old sibling
      rw [finished, Bool.not_true, Bool.false_or] at checked
      have bound := List.all_eq_true.mp checked version (Table.mem_of_lookup read)
      simpa [sameId] using bound
    obtain ⟨version', read'', sameVersion⟩ := inPlace.version read
    have id' : version'.id = version.id := Table.key_of_lookup read''
    refine ⟨version.versionNumber, same ▸ le, activeNumber_eq_some.2 ⟨_, version', written, ?_,
      by rw [id', read''], sameVersion.versionNumber⟩⟩
    rw [if_pos (id.trans here), id']
  -- another document keeps its active version
  · obtain ⟨version', read'', sameVersion⟩ := inPlace.version found'
    have id' : version'.id = old.id := Table.key_of_lookup read''
    refine ⟨number, Nat.le_refl number, activeNumber_eq_some.2 ⟨_, version', written, ?_,
      by rw [id', read''], sameVersion.versionNumber.trans same⟩⟩
    rw [if_neg (by rw [id]; exact here), names, id']

theorem movesForward_of_change (wf : Wf env s) (indexed : Indexed env s.stores.db)
    (change : Change env s event db') (ordered : inOrder s event = true) :
    MovesForward s.stores.db db' := by
  have grows := change.grows wf
  -- one change moves the active version, the others keep that of a live document
  cases change with
  | activated i input job worker located content records row version chunks here found sameId
      writes read =>
    subst here
    exact movesForward_activated wf indexed ordered found sameId writes read
  | uploaded =>
    apply movesForward_of_kept grows
    exact fun _ document read _ => ⟨document, lookup_append_some read, rfl⟩
  | renamed updated displayName =>
    apply movesForward_of_kept grows
    intro documentId document read _
    have written : Table.lookup (s.stores.db.updateDocument updated fun document =>
        { document with displayName := displayName }).documents documentId = _ :=
      lookup_updateDocument updated documentId fun _ => rfl
    rw [read, Option.map_some] at written
    refine ⟨_, written, ?_⟩
    split <;> rfl
  | deleted deletion updated now stored =>
    apply movesForward_of_kept grows
    intro documentId document read live
    have written : Table.lookup (s.stores.db.updateDocument updated fun document =>
        { document with deletedAt := some now, activeVersionId := none }).documents documentId = _ :=
      lookup_updateDocument updated documentId fun _ => rfl
    rw [read, Option.map_some] at written
    obtain ⟨other, found, undeleted⟩ := live
    -- a deleted document is not live, so it was another one
    cases written.symm.trans found
    split at undeleted
    · cases undeleted
    next spared => exact ⟨_, found, by rw [if_neg spared]⟩
  | claimed | saved | retried | marked | swept =>
    apply movesForward_of_kept grows
    exact fun _ document read _ => ⟨document, read, rfl⟩

theorem movesForward_step (both : Wf env s ∧ Indexed env s.stores.db)
    (taken : stepOf (guarded inOrder (next env)) s event t) :
    (Wf env t ∧ Indexed env t.stores.db) ∧ MovesForward s.stores.db t.stores.db := by
  obtain ⟨ordered, moved⟩ := stepOf_guarded.1 taken
  refine ⟨indexed_step both moved, ?_⟩
  obtain same | change := change_of_next both.1 (next_of_event moved)
  · rw [same]
    exact .refl _
  · exact movesForward_of_change both.1 both.2 change ordered

/-- Where jobs finish in the order of the uploads, the active version of a document
that is not deleted never goes back. -/
theorem active_moves_forward {events : List Event} {documentId number : Nat}
    (reached : Reachable (stepOf (guarded inOrder (next env))) .empty s)
    (run : Run (stepOf (guarded inOrder (next env))) s events t)
    (active : activeNumber s.stores.db documentId = some number)
    (live : LiveRow t.stores.db documentId) :
    ∃ number', number ≤ number' ∧ activeNumber t.stores.db documentId = some number' := by
  have before : Wf env s ∧ Indexed env s.stores.db := by
    apply reached.invariant (I := fun s => Wf env s ∧ Indexed env s.stores.db)
    · exact ⟨wf_empty, indexed_empty⟩
    · exact fun _ _ _ both taken => (movesForward_step both taken).1
  have forward : MovesForward s.stores.db t.stores.db := by
    apply run.relates (I := fun s => Wf env s ∧ Indexed env s.stores.db)
      (R := fun s t => MovesForward s.stores.db t.stores.db)
    · exact fun _ => .refl _
    · exact fun _ _ _ => .trans
    · exact fun _ _ _ both taken => (movesForward_step both taken).1
    · exact fun _ _ _ both taken => (movesForward_step both taken).2
    · exact before
  exact forward.number documentId number active live

end Runs

/-! ## Two versions at the same time -/

/-- Both versions are uploaded and both jobs claimed; the job of the second
version finishes. -/
def secondFinishes : List Event :=
  uploading 0 letterCall ++ uploading 1 secondCall ++
    claiming firstWorker :: claiming secondWorker :: processing 3

/-- The job of the first version finishes behind it. -/
theorem late_job_takes_back :
    ∃ s t, Reachable (stepOf (@next asciiTables letterSha256 letterEnvironment)) .empty s ∧
      Run (stepOf (@next asciiTables letterSha256 letterEnvironment)) s (processing 2) t ∧
      LiveRow t.stores.db 4 ∧ activeNumber s.stores.db 4 = some 2 ∧
      activeNumber t.stores.db 4 = some 1 := by
  have executed : (exec (@next asciiTables letterSha256 letterEnvironment) .empty
      secondFinishes).any (fun s => activeNumber s.stores.db 4 = some 2 &&
        (exec (@next asciiTables letterSha256 letterEnvironment) s (processing 2)).any fun t =>
          activeNumber t.stores.db 4 = some 1 && (Table.lookup t.stores.db.documents 4).any
            fun document => document.deletedAt = none) = true := by
    rw [letterSha256_eq]
    decide +kernel
  obtain ⟨s, reached, found⟩ := reachable_of_exec executed
  simp only [Bool.and_eq_true, decide_eq_true_eq, Option.any_eq_true] at found
  obtain ⟨number, t, ran, number', document, read, undeleted⟩ := found
  exact ⟨s, t, reached, .of_exec ran, ⟨document, read, undeleted⟩, number, number'⟩

/-- The first version and then the second. -/
theorem active_moves_forward_letters :
    ∃ s t : System, activeNumber s.stores.db 4 = some 1 ∧ LiveRow t.stores.db 4 ∧
      ∃ number', 1 ≤ number' ∧ activeNumber t.stores.db 4 = some number' := by
  have executed : (exec (guarded inOrder (@next asciiTables letterSha256 letterEnvironment)) .empty
      (uploading 0 letterCall ++ uploading 1 secondCall ++
        claiming firstWorker :: claiming secondWorker :: processing 2)).any
      (fun s => activeNumber s.stores.db 4 = some 1 &&
        (exec (guarded inOrder (@next asciiTables letterSha256 letterEnvironment)) s
          (processing 3)).any fun t => (Table.lookup t.stores.db.documents 4).any
            fun document => document.deletedAt = none) = true := by
    rw [letterSha256_eq]
    decide +kernel
  obtain ⟨s, reached, found⟩ := reachable_of_exec executed
  simp only [Bool.and_eq_true, decide_eq_true_eq, Option.any_eq_true] at found
  obtain ⟨number, t, ran, document, read, undeleted⟩ := found
  have live : LiveRow t.stores.db 4 := ⟨document, read, undeleted⟩
  exact ⟨s, t, number, live, @active_moves_forward asciiTables letterSha256 letterEnvironment s t _
    4 1 reached (.of_exec ran) number live⟩

end SupportPilot.Lifecycle
