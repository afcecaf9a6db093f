import SupportPilot.Lifecycle.Status

/-! # The active index

The chunks of a version are written in the transaction that completes its job and
makes it active, and a completed job is never touched again.  So the job of a
version says whether the version is indexed, and an active version is. -/

namespace SupportPilot.Lifecycle

open Lib Documents Worker

/-- The job of the version is completed. -/
def completed (db : Database) (versionId : UUID) : Bool :=
  db.jobs.any fun job => job.jobType = .processDocument &&
    job.payload.documentVersionId = some versionId && job.state = .completed

/-- The stored chunks of a version. -/
def chunksOf (db : Database) (versionId : UUID) : List Rag.DocumentChunk :=
  db.chunks.filter fun row => row.versionId = versionId

/-- The stored chunks are the records of one run on the content of the version. -/
def HoldsIndex [Sha256] (indexer : Indexer) (db : Database) (version : DocumentVersion) : Prop :=
  ∃ records, Indexes indexer version records ∧
    chunksOf db version.id = records.map (Rag.documentChunk version.workspaceId)

structure Indexed [Sha256] (env : Environment) (db : Database) : Prop where
  active : ∀ document ∈ db.documents, ∀ versionId, document.activeVersionId = some versionId →
    document.deletedAt = none ∧ completed db versionId = true ∧
      ∃ version, Table.lookup db.versions versionId = some version ∧
        version.documentId = document.id
  status : Paired (fun status state => state = .completed → status = .active) db
  index : ∀ version ∈ db.versions, LiveRow db version.documentId →
    if completed db version.id then HoldsIndex env.indexer db version
    else chunksOf db version.id = []
  scope : ∀ row ∈ db.chunks, ∃ version ∈ db.versions, row.versionId = version.id ∧
    row.documentId = version.documentId ∧ row.workspaceId = version.workspaceId

/-! ## Completed jobs -/

section Completed

variable {db : Database}

theorem completed_iff {versionId : UUID} : completed db versionId = true ↔
    ∃ job ∈ db.jobs, job.jobType = .processDocument ∧
      job.payload.documentVersionId = some versionId ∧ job.state = .completed := by
  simp [completed, and_assoc]

/-- Jobs that are not completed come and go. -/
theorem completed_congr {jobs jobs' : List Job} {documents documents' : List Document}
    {versions versions' : List DocumentVersion} {chunks chunks' : List Rag.DocumentChunk}
    (same : ∀ job, job.jobType = .processDocument → job.state = .completed →
      (job ∈ jobs' ↔ job ∈ jobs)) (versionId : UUID) :
    completed ⟨documents', versions', jobs', chunks'⟩ versionId =
      completed ⟨documents, versions, jobs, chunks⟩ versionId := by
  rw [Bool.eq_iff_iff, completed_iff, completed_iff]
  constructor
  · rintro ⟨job, member, process, payload, finished⟩
    exact ⟨job, (same job process finished).mp member, process, payload, finished⟩
  · rintro ⟨job, member, process, payload, finished⟩
    exact ⟨job, (same job process finished).mpr member, process, payload, finished⟩

theorem Writes.unchanged {row row' job : Job} (writes : Writes db row row')
    (keyed : Table.Keyed db.jobs)
    (waiting : row'.jobType = .processDocument → row'.state ≠ .completed)
    (process : job.jobType = .processDocument) (finished : job.state = .completed) :
    job ∈ Table.save db.jobs row' ↔ job ∈ db.jobs := by
  constructor
  · intro member
    obtain rfl | ⟨before, -⟩ := Table.mem_save member
    · exact absurd finished (waiting process)
    · exact before
  · intro member
    refine List.mem_map.mpr ⟨job, member, if_neg ?_⟩
    intro same
    have read := Table.lookup_of_mem keyed member
    rw [of_decide_eq_true same, Job.row_key, writes.same.id, writes.read] at read
    cases read
    exact writes.unfinished finished

theorem unchanged_of_claim {worker : Text} {batchSize leaseSeconds now : Nat} {locked : List UUID}
    {job : Job} (keyed : Table.Keyed db.jobs) (_ : job.jobType = .processDocument)
    (finished : job.state = .completed) :
    job ∈ (Jobs.claimJobs db.jobs worker batchSize leaseSeconds now locked).2 ↔
      job ∈ db.jobs := by
  constructor
  · intro member
    obtain ⟨old, before, rfl⟩ := List.mem_map.mp member
    split at finished
    · cases finished
    next other =>
      rw [if_neg other]
      exact before
  · intro member
    refine List.mem_map.mpr ⟨job, member, if_neg ?_⟩
    intro selected
    have state := state_of_selected keyed member selected
    simp [finished] at state

theorem unchanged_append {job added : Job} (waiting : added.state ≠ .completed)
    (_ : job.jobType = .processDocument) (finished : job.state = .completed) :
    job ∈ db.jobs ++ [added] ↔ job ∈ db.jobs := by
  rw [List.mem_append, List.mem_singleton, or_iff_left]
  rintro rfl
  exact waiting finished

/-- A completed version is stored. -/
theorem Linked.stored_of_completed (linked : Linked db) {versionId : UUID}
    (finished : completed db versionId = true) : Table.lookup db.versions versionId ≠ none := by
  obtain ⟨job, member, process, payload, -⟩ := completed_iff.1 finished
  obtain ⟨version, present, processes⟩ := linked.version job member process
  rw [processes.payload] at payload
  cases payload
  exact fun absent => Table.lookup_eq_none.1 absent version present rfl

end Completed

/-! ## Steps that do not index -/

/-- The version, the rows and the marks that `Indexed` looks at are kept. -/
structure Frame (db db' : Database) : Prop where
  grows : Grows db db'
  versions : ∀ version' ∈ db'.versions, (∃ version ∈ db.versions, SameVersion version version') ∨
    Table.lookup db.versions version'.id = none
  documents : ∀ document' ∈ db'.documents, document'.activeVersionId = none ∨
    ∃ document ∈ db.documents, document.id = document'.id ∧
      document.activeVersionId = document'.activeVersionId ∧
      document.deletedAt = document'.deletedAt
  completed : ∀ versionId, completed db' versionId = completed db versionId
  chunks : ∀ row ∈ db'.chunks, row ∈ db.chunks
  kept : ∀ version ∈ db.versions, LiveRow db version.documentId →
    chunksOf db' version.id = chunksOf db version.id

section Frames

variable [Sha256] {env : Environment} {db db' : Database}

omit [Sha256] in
/-- A deleted document stays deleted. -/
theorem live_of_grows (linked : Linked db) (grows : Grows db db') {version : DocumentVersion}
    (present : version ∈ db.versions) (live : LiveRow db' version.documentId) :
    LiveRow db version.documentId := by
  obtain ⟨document, stored, id, -⟩ := linked.document version present
  have read := Table.lookup_of_mem linked.documents stored
  rw [Document.row_key, id] at read
  obtain ⟨document', read', same⟩ := grows.document read
  obtain ⟨other, found, undeleted⟩ := live
  cases found.symm.trans read'
  refine ⟨document, read, ?_⟩
  by_contra deleted
  exact same.deleted deleted undeleted

theorem Indexes.same {indexer : Indexer} {version version' : DocumentVersion}
    {records : List Rag.EmbeddedChunk} (indexes : Indexes indexer version records)
    (same : SameVersion version version') : Indexes indexer version' records := by
  obtain ⟨run, request, ran, size, digest, document, id⟩ := indexes
  exact ⟨run, request, ran, size.trans same.byteSize.symm, digest.trans same.sha256.symm,
    document.trans same.documentId.symm, id.trans same.id.symm⟩

theorem HoldsIndex.same {indexer : Indexer} {version version' : DocumentVersion}
    (holds : HoldsIndex indexer db version) (same : SameVersion version version')
    (kept : chunksOf db' version.id = chunksOf db version.id) :
    HoldsIndex indexer db' version' := by
  obtain ⟨records, indexes, stored⟩ := holds
  refine ⟨records, indexes.same same, ?_⟩
  rw [same.id, same.workspaceId, kept, stored]

theorem Indexed.frame (indexed : Indexed env db) (linked : Linked db) (frame : Frame db db')
    (status : Paired (fun status state => state = .completed → status = .active) db') :
    Indexed env db' where
  status := status
  active document' member versionId active := by
    obtain inactive | ⟨document, present, id, same, deleted⟩ := frame.documents document' member
    · cases inactive.symm.trans active
    · obtain ⟨undeleted, finished, version, read, parent⟩ :=
        indexed.active document present versionId (same.trans active)
      obtain ⟨version', read', sameVersion⟩ := frame.grows.version read
      refine ⟨deleted.symm.trans undeleted, (frame.completed versionId).trans finished, version',
        read', ?_⟩
      rw [sameVersion.documentId, parent, id]
  index version' member live := by
    rw [frame.completed]
    obtain ⟨version, present, same⟩ | new := frame.versions version' member
    · rw [same.documentId] at live
      have before := live_of_grows linked frame.grows present live
      have index := indexed.index version present before
      have kept := frame.kept version present before
      rw [same.id]
      split at index
      next finished =>
        rw [if_pos finished]
        exact index.same same kept
      next unfinished =>
        rw [if_neg unfinished, kept]
        exact index
    · rw [if_neg fun finished => linked.stored_of_completed finished new]
      -- no chunk is of a version that was not there
      apply List.filter_eq_nil_iff.mpr
      intro row stored same
      obtain ⟨version, present, id, -⟩ := indexed.scope row (frame.chunks row stored)
      exact Table.lookup_eq_none.1 new version present (id.symm.trans (of_decide_eq_true same))
  scope row member := by
    obtain ⟨version, present, id, document, workspace⟩ := indexed.scope row (frame.chunks row member)
    obtain ⟨version', read', same⟩ :=
      frame.grows.version (Table.lookup_of_mem linked.versions present)
    refine ⟨version', Table.mem_of_lookup read', ?_, ?_, ?_⟩
    · rw [same.id, id]
    · rw [same.documentId, document]
    · rw [same.workspaceId, workspace]

omit [Sha256] in
theorem documents_kept : ∀ document' ∈ db.documents, document'.activeVersionId = none ∨
    ∃ document ∈ db.documents, document.id = document'.id ∧
      document.activeVersionId = document'.activeVersionId ∧
      document.deletedAt = document'.deletedAt :=
  fun document' member => .inr ⟨document', member, rfl, rfl, rfl⟩

omit [Sha256] in
/-- Only jobs and statuses are written. -/
theorem frame_jobs {versions : List DocumentVersion} {jobs : List Job}
    (inPlace : InPlace db { db with versions := versions, jobs := jobs })
    (same : ∀ job, job.jobType = .processDocument → job.state = .completed →
      (job ∈ jobs ↔ job ∈ db.jobs)) :
    Frame db { db with versions := versions, jobs := jobs } where
  grows := inPlace.grows
  versions _ member := .inl (exists_of_mem_forall₂ inPlace.versions member)
  documents := documents_kept
  completed := completed_congr same
  chunks _ member := member
  kept _ _ _ := rfl

omit [Sha256] in
/-- The chunks of a deleted document go. -/
theorem frame_swept {row : Job} {documentId : UUID} (linked : Linked db)
    (scope : ∀ row ∈ db.chunks, ∃ version ∈ db.versions, row.versionId = version.id ∧
      row.documentId = version.documentId ∧ row.workspaceId = version.workspaceId)
    (writes : Writes db row row.complete) (delete : row.jobType = .deleteObject)
    (payload : row.payload.documentId = some documentId) :
    Frame db (saveJob { db with
      chunks := Rag.deleteDocumentChunks db.chunks row.workspaceId documentId } row.complete) where
  grows := by
    have chunked : InPlace db { db with
        chunks := Rag.deleteDocumentChunks db.chunks row.workspaceId documentId } :=
      inPlace_chunks db _
    exact (chunked.trans (writes.inPlace linked.jobs rfl)).grows
  versions version' member := .inl ⟨version', member, .refl version'⟩
  documents := documents_kept
  completed := by
    apply completed_congr fun job => writes.unchanged linked.jobs fun process => ?_
    cases process.symm.trans delete
  chunks _ member := (List.mem_filter.mp member).1
  kept version present live := by
    obtain ⟨document, stored, deletes⟩ :=
      linked.deleted row (Table.mem_of_lookup writes.read) delete
    -- the document of a job that deletes is deleted
    have other : version.documentId ≠ documentId := by
      rintro rfl
      have id : document.id = version.documentId :=
        Option.some.inj (deletes.payload.symm.trans payload)
      obtain ⟨found, read, undeleted⟩ := live
      have read' := Table.lookup_of_mem linked.documents stored
      rw [Document.row_key, id, read] at read'
      cases read'
      exact deletes.deleted undeleted
    rw [chunksOf, chunksOf]
    simp only [saveJob, Rag.deleteDocumentChunks, List.filter_filter]
    apply List.filter_congr
    intro chunk member
    by_cases own : chunk.versionId = version.id
    · obtain ⟨version', present', id, parent, -⟩ := scope chunk member
      have read := Table.lookup_of_mem linked.versions present
      have read' := Table.lookup_of_mem linked.versions present'
      rw [DocumentVersion.row_key, ← own, id, ← DocumentVersion.row_key, read'] at read
      cases read
      simp [own, parent, other]
    · simp [own]

end Frames

/-! ## The step that indexes -/

section Activating

variable [Sha256] {env : Environment} {db : Database} {row : Job} {version : DocumentVersion}
  {records : List Rag.EmbeddedChunk} {chunks : List Rag.DocumentChunk}

omit [Sha256] in
/-- The job of a version is the only one. -/
theorem state_of_completed {job : Job} (linked : Linked db) (present : version ∈ db.versions)
    (finished : completed db version.id = true) (member : job ∈ db.jobs)
    (processes : Processes job version) : job.state = .completed := by
  obtain ⟨other, member', process, payload, state⟩ := completed_iff.1 finished
  obtain ⟨named, present', links⟩ := linked.version other member' process
  have id : named.id = version.id := by
    rw [links.payload] at payload
    exact Option.some.inj payload
  have read := Table.lookup_of_mem linked.versions present'
  rw [DocumentVersion.row_key, id, ← DocumentVersion.row_key,
    Table.lookup_of_mem linked.versions present] at read
  cases read
  have found := Table.lookup_of_mem linked.jobs member'
  rw [Job.row_key, linked.oneJob version other member' job member links processes, ← Job.row_key,
    Table.lookup_of_mem linked.jobs member] at found
  cases found
  exact state

omit [Sha256] in
theorem not_completed_of_writes {row' : Job} (linked : Linked db) (writes : Writes db row row')
    (read : Table.lookup db.versions version.id = some version)
    (processes : Processes row version) : completed db version.id = false := by
  rw [Bool.eq_false_iff]
  intro finished
  exact writes.unfinished (state_of_completed linked (Table.mem_of_lookup read) finished
    (Table.mem_of_lookup writes.read) processes)

omit [Sha256] in
theorem completed_activated (linked : Linked db) (writes : Writes db row row.complete)
    (processes : Processes row version) (versionId : UUID) :
    completed (activatedDb db chunks version.id version.documentId row) versionId = true ↔
      versionId = version.id ∨ completed db versionId = true := by
  have named : row.payload.documentVersionId = some version.id := by rw [processes.payload]
  rw [completed_iff, completed_iff]
  constructor
  · rintro ⟨job, member, process, payload, state⟩
    obtain rfl | ⟨before, -⟩ := Table.mem_save member
    · exact .inl (Option.some.inj (payload.symm.trans named))
    · exact .inr ⟨job, before, process, payload, state⟩
  · rintro (rfl | ⟨job, member, process, payload, state⟩)
    · refine ⟨row.complete, ?_, processes.jobType, named, rfl⟩
      exact List.mem_map.mpr ⟨row, Table.mem_of_lookup writes.read, if_pos (decide_eq_true rfl)⟩
    · refine ⟨job, List.mem_map.mpr ⟨job, member, if_neg fun same => ?_⟩, process, payload, state⟩
      have found := Table.lookup_of_mem linked.jobs member
      have id : job.id = row.id := of_decide_eq_true same
      rw [Job.row_key, id, writes.read] at found
      cases found
      exact writes.unfinished state

/-- The records name the version and its document. -/
theorem Indexes.ids {indexer : Indexer} (indexes : Indexes indexer version records) :
    ∀ record ∈ records, record.chunk.documentId = version.documentId ∧
      record.chunk.versionId = version.id := by
  obtain ⟨run, request, ran, -, -, document, id⟩ := indexes
  intro record member
  obtain ⟨sameDocument, sameVersion⟩ := indexer.ids ran record member
  exact ⟨sameDocument.trans document, sameVersion.trans id⟩

/-- Where the version had no chunks, it has the new ones; the others keep theirs. -/
theorem chunks_replaced {indexer : Indexer} (indexes : Indexes indexer version records)
    (replaced : Rag.replaceVersion db.chunks version.workspaceId records = .ok chunks)
    (empty : chunksOf db version.id = []) :
    chunks = db.chunks ++ records.map (Rag.documentChunk version.workspaceId) := by
  obtain ⟨versionId, documentId, some, same, -, rfl⟩ := Rag.replaceVersion_ok replaced
  obtain ⟨record, member⟩ := List.exists_mem_of_ne_nil _ some
  have id : versionId = version.id :=
    (same record member).1.symm.trans (indexes.ids record member).2
  subst id
  congr 1
  apply List.filter_eq_self.mpr
  intro old stored
  have other : old.versionId ≠ version.id := by
    intro same
    have none := List.filter_eq_nil_iff.mp empty old stored
    exact none (decide_eq_true same)
  simp [other]

theorem chunksOf_activated {indexer : Indexer} (indexes : Indexes indexer version records)
    (empty : chunksOf db version.id = []) (versionId : UUID) :
    (db.chunks ++ records.map (Rag.documentChunk version.workspaceId)).filter
        (fun row => row.versionId = versionId) =
      if versionId = version.id then records.map (Rag.documentChunk version.workspaceId)
      else chunksOf db versionId := by
  have new : ∀ row ∈ records.map (Rag.documentChunk version.workspaceId),
      row.versionId = version.id := by
    intro row member
    obtain ⟨record, present, rfl⟩ := List.mem_map.mp member
    exact (indexes.ids record present).2
  rw [List.filter_append, ← chunksOf]
  split
  next same =>
    subst same
    rw [empty, List.nil_append]
    exact List.filter_eq_self.mpr fun row member => decide_eq_true (new row member)
  next other =>
    have none : (records.map (Rag.documentChunk version.workspaceId)).filter
        (fun row => row.versionId = versionId) = [] := by
      apply List.filter_eq_nil_iff.mpr
      intro row member same
      exact other ((of_decide_eq_true same).symm.trans (new row member))
    rw [none, List.append_nil]

omit [Sha256] in
theorem active_activated (linked : Linked db) (writes : Writes db row row.complete)
    (read : Table.lookup db.versions version.id = some version) (processes : Processes row version)
    (live : LiveRow db version.documentId)
    (active : ∀ document ∈ db.documents, ∀ versionId, document.activeVersionId = some versionId →
      document.deletedAt = none ∧ completed db versionId = true ∧
        ∃ version, Table.lookup db.versions versionId = some version ∧
          version.documentId = document.id) :
    ∀ document ∈ (activatedDb db chunks version.id version.documentId row).documents,
      ∀ versionId, document.activeVersionId = some versionId → document.deletedAt = none ∧
        completed (activatedDb db chunks version.id version.documentId row) versionId = true ∧
        ∃ version', Table.lookup (activatedDb db chunks version.id version.documentId row).versions
          versionId = some version' ∧ version'.documentId = document.id := by
  have inPlace : InPlace db (activatedDb db chunks version.id version.documentId row) :=
    writes.activated linked.jobs
  intro document' member versionId names
  obtain ⟨document, present, rfl⟩ := List.mem_map.mp member
  rw [completed_activated linked writes processes]
  split at names
  next here =>
    -- the document of the version, whose new active version this is
    cases names
    have id : document.id = version.documentId := of_decide_eq_true here
    obtain ⟨found, read', undeleted⟩ := live
    have stored := Table.lookup_of_mem linked.documents present
    rw [Document.row_key, id, read'] at stored
    cases stored
    obtain ⟨version', found', same⟩ := inPlace.version read
    rw [if_pos here]
    exact ⟨undeleted, .inl rfl, version', found', same.documentId.trans id.symm⟩
  next other =>
    obtain ⟨undeleted, finished, version', found, parent⟩ := active document present versionId names
    obtain ⟨version'', found', same⟩ := inPlace.version found
    rw [if_neg other]
    exact ⟨undeleted, .inr finished, version'', found', same.documentId.trans parent⟩

theorem indexed_activated (indexed : Indexed env db) (linked : Linked db)
    (writes : Writes db row row.complete)
    (read : Table.lookup db.versions version.id = some version) (processes : Processes row version)
    (live : LiveRow db version.documentId) (indexes : Indexes env.indexer version records)
    (replaced : Rag.replaceVersion db.chunks version.workspaceId records = .ok chunks) :
    Indexed env (activatedDb db chunks version.id version.documentId row) := by
  have unfinished := not_completed_of_writes linked writes read processes
  -- the job was not completed, so there are no chunks of the version yet
  have empty : chunksOf db version.id = [] := by
    have index := indexed.index version (Table.mem_of_lookup read) live
    rwa [if_neg (by rw [unfinished]; exact Bool.false_ne_true)] at index
  have written := chunks_replaced indexes replaced empty
  have inPlace : InPlace db (activatedDb db chunks version.id version.documentId row) :=
    writes.activated linked.jobs
  refine ⟨active_activated linked writes read processes live indexed.active,
    indexed.status.mark linked writes read processes fun _ => rfl, ?_, ?_⟩
  · intro version' member live'
    obtain ⟨old, present, same⟩ := exists_of_mem_forall₂ inPlace.versions member
    have stored : chunksOf (activatedDb db chunks version.id version.documentId row) version'.id =
        if version'.id = version.id then records.map (Rag.documentChunk version.workspaceId)
        else chunksOf db version'.id := by
      rw [← chunksOf_activated indexes empty, ← written]
      rfl
    have finished : completed (activatedDb db chunks version.id version.documentId row)
        version'.id = true ↔ version'.id = version.id ∨ completed db version'.id = true :=
      completed_activated linked writes processes version'.id
    by_cases here : version'.id = version.id
    · have read' := Table.lookup_of_mem linked.versions present
      rw [DocumentVersion.row_key, ← same.id, here, read] at read'
      cases read'
      rw [if_pos (finished.mpr (.inl here))]
      rw [if_pos here] at stored
      exact ⟨records, indexes.same same, by rw [stored, same.workspaceId]⟩
    · have before := live_of_grows linked inPlace.grows present (same.documentId ▸ live')
      have index := indexed.index old present before
      -- another version keeps its job and its chunks
      have kept : completed (activatedDb db chunks version.id version.documentId row) version'.id =
          completed db old.id := by
        rw [Bool.eq_iff_iff, finished, or_iff_right here, same.id]
      rw [if_neg here, same.id] at stored
      rw [kept]
      split at index
      next done =>
        rw [if_pos done]
        exact index.same same stored
      next waiting =>
        rw [if_neg waiting, same.id, stored]
        exact index
  · intro row' member
    have member : row' ∈ db.chunks ++ records.map (Rag.documentChunk version.workspaceId) :=
      written ▸ member
    obtain old | new := List.mem_append.mp member
    · obtain ⟨version', present, id, document, workspace⟩ := indexed.scope row' old
      obtain ⟨after, read', same⟩ := inPlace.version (Table.lookup_of_mem linked.versions present)
      exact ⟨after, Table.mem_of_lookup read', id.trans same.id.symm,
        document.trans same.documentId.symm, workspace.trans same.workspaceId.symm⟩
    · obtain ⟨record, made, rfl⟩ := List.mem_map.mp new
      obtain ⟨document, id⟩ := indexes.ids record made
      obtain ⟨after, read', same⟩ := inPlace.version read
      exact ⟨after, Table.mem_of_lookup read', id.trans same.id.symm,
        document.trans same.documentId.symm, same.workspaceId.symm⟩

end Activating

/-! ## Every step -/

section Steps

variable [UnicodeTables] [Sha256] {env : Environment} {s t : System} {event : Event}
  {db' : Database}

omit [Sha256] in
theorem DocumentOk.inactive {call : UploadCall} {db : Database} {document : Document} {isNew : Bool}
    (ok : DocumentOk call db document isNew) (new : isNew = true) :
    document.activeVersionId = none := by
  cases ok with
  | created _ made => rw [made, UploadCall.newDocument]
  | selected => cases new

theorem indexed_of_change (wf : Wf env s) (change : Change env s event db')
    (indexed : Indexed env s.stores.db) : Indexed env db' := by
  have linked := wf.linked
  cases change with
  | uploaded i input call promotedKey file target here found fileOk targetOk fits =>
    have waiting : (newJob env.service call target).state ≠ .completed := nofun
    refine indexed.frame linked ⟨grows_added .., ?_, ?_, ?_, fun _ member => member,
      fun _ _ _ => rfl⟩ ?_
    · intro version' member
      obtain before | rfl := List.mem_append.mp member |>.imp_right List.mem_singleton.mp
      · exact .inl ⟨version', before, .refl version'⟩
      · exact .inr fits.version.id
    · intro document' member
      obtain before | new := List.mem_append.mp member
      · exact documents_kept document' before
      · -- a new document has no active version
        split at new
        next isNew =>
          cases List.mem_singleton.mp new
          exact .inl (targetOk.document.inactive isNew)
        · cases new
    · exact completed_congr fun job => unchanged_append waiting
    · exact indexed.status.add linked fits ⟨rfl, rfl, rfl⟩ nofun
  | renamed documentId displayName =>
    refine indexed.frame linked ⟨(inPlace_updateDocument _ _ ?_).grows, ?_, ?_, fun _ => rfl,
      fun _ member => member, fun _ _ _ => rfl⟩ indexed.status
    · exact fun _ => ⟨rfl, rfl, fun deleted => deleted⟩
    · exact fun version' member => .inl ⟨version', member, .refl version'⟩
    · intro document' member
      obtain ⟨document, present, rfl⟩ := List.mem_map.mp member
      refine .inr ⟨document, present, ?_⟩
      split <;> exact ⟨rfl, rfl, rfl⟩
  | deleted deletion documentId now stored live fits =>
    have waiting : (deletionJob deletion documentId now).state ≠ .completed := nofun
    refine indexed.frame linked ⟨grows_deletedDb .., ?_, ?_, ?_, fun _ member => member,
      fun _ _ _ => rfl⟩ ?_
    · exact fun version' member => .inl ⟨version', member, .refl version'⟩
    · intro document' member
      obtain ⟨document, present, rfl⟩ := List.mem_map.mp member
      split
      · exact .inl rfl
      · exact .inr ⟨document, present, rfl, rfl, rfl⟩
    · exact completed_congr fun job => unchanged_append waiting
    · intro job member version present processes
      obtain before | rfl := List.mem_append.mp member |>.imp_right List.mem_singleton.mp
      · exact indexed.status job before version present processes
      · cases processes.jobType
  | claimed worker batchSize leaseSeconds now locked =>
    apply indexed.frame linked (frame_jobs (inPlace_claimJobs ..) fun job =>
      unchanged_of_claim linked.jobs)
    exact indexed.status.claim linked.jobs fun _ _ _ _ => nofun
  | saved row row' writes unfinished keeps =>
    apply indexed.frame linked (frame_jobs (writes.inPlace linked.jobs rfl) fun job =>
      writes.unchanged linked.jobs fun _ => unfinished)
    exact indexed.status.saveJob writes fun _ _ _ finished => absurd finished unfinished
  | retried row now here writes stopped =>
    apply indexed.frame linked (frame_jobs (writes.inPlace linked.jobs rfl) fun job =>
      writes.unchanged linked.jobs fun _ => nofun)
    exact indexed.status.saveJob writes fun _ _ _ => nofun
  | marked row row' version status writes read processes unfinished agrees =>
    apply indexed.frame linked (frame_jobs ((writes.inPlace linked.jobs rfl).trans
      (inPlace_setStatus _ version.id status)) fun job =>
        writes.unchanged linked.jobs fun _ => unfinished)
    exact indexed.status.mark linked writes read processes fun finished =>
      absurd finished unfinished
  | activated i input job worker located content records row version chunks here found sameId
      writes read processes live indexes replaced =>
    exact indexed_activated indexed linked writes read processes live indexes replaced
  | swept i job worker row documentId found same writes delete payload =>
    apply indexed.frame linked (frame_swept linked indexed.scope writes delete payload)
    have kept : Paired (fun status state => state = .completed → status = .active)
        { s.stores.db with
          chunks := Rag.deleteDocumentChunks s.stores.db.chunks row.workspaceId documentId } :=
      indexed.status
    apply kept.saveJob ⟨writes.read, writes.same, writes.unfinished⟩
    -- the job that completes here is a deletion job
    intro process
    cases process.symm.trans delete

theorem indexed_step (both : Wf env s ∧ Indexed env s.stores.db)
    (taken : stepOf (next env) s event t) : Wf env t ∧ Indexed env t.stores.db := by
  obtain ⟨wf, indexed⟩ := both
  refine ⟨wf_step wf taken, ?_⟩
  obtain same | change := change_of_next wf (next_of_event taken)
  · rw [same]
    exact indexed
  · exact indexed_of_change wf change indexed

omit [UnicodeTables] in
theorem indexed_empty : Indexed env .empty := by
  refine ⟨?_, ?_, ?_, ?_⟩
  · exact fun _ member => nomatch member
  · exact fun _ member => nomatch member
  · exact fun _ member => nomatch member
  · exact fun _ member => nomatch member

theorem indexed_of_run {events : List Event} (run : Run (stepOf (next env)) .empty events s) :
    Wf env s ∧ Indexed env s.stores.db :=
  run.invariant (I := fun s => Wf env s ∧ Indexed env s.stores.db) (fun _ _ _ => indexed_step)
    ⟨wf_empty, indexed_empty⟩

/-- The document says that the version is active. -/
def IsActive (db : Database) (versionId : UUID) : Prop :=
  ∃ document ∈ db.documents, document.activeVersionId = some versionId

/-- Only its activation writes chunks of a version. -/
theorem active_of_chunk {versionId : UUID} (change : Change env s event db')
    (stored : ∃ row ∈ db'.chunks, row.versionId = versionId) :
    (∃ row ∈ s.stores.db.chunks, row.versionId = versionId) ∨ IsActive db' versionId := by
  obtain ⟨row', member, names⟩ := stored
  cases change with
  | activated i input job worker located content records row version chunks here found sameId
      writes read processes live indexes replaced =>
    obtain ⟨_, _, -, -, -, rfl⟩ := Rag.replaceVersion_ok replaced
    obtain old | new := List.mem_append.mp member
    · exact .inl ⟨row', (List.mem_filter.mp old).1, names⟩
    · obtain ⟨record, made, rfl⟩ := List.mem_map.mp new
      have id : version.id = versionId := (indexes.ids record made).2.symm.trans names
      obtain ⟨document, read', -⟩ := live
      have here : document.id = version.documentId := Table.key_of_lookup read'
      refine .inr ⟨_, List.mem_map.mpr ⟨document, Table.mem_of_lookup read', rfl⟩, ?_⟩
      rw [if_pos (decide_eq_true here), id]
  | swept => exact .inl ⟨row', (List.mem_filter.mp member).1, names⟩
  | uploaded | renamed | deleted | claimed | saved | retried | marked =>
    exact .inl ⟨row', member, names⟩

/-- The active index is complete and belongs to its version, and only versions
that have been active have chunks. -/
theorem active_index {events : List Event} (run : Run (stepOf (next env)) .empty events s) :
    (∀ document ∈ s.stores.db.documents, ∀ versionId, document.activeVersionId = some versionId →
      document.deletedAt = none ∧ ∃ version ∈ s.stores.db.versions, version.id = versionId ∧
        version.documentId = document.id ∧ version.status = .active ∧
        (∃ job ∈ s.stores.db.jobs, Processes job version) ∧
        (∀ job ∈ s.stores.db.jobs, Processes job version → job.state = .completed) ∧
        HoldsIndex env.indexer s.stores.db version) ∧
    ∀ row ∈ s.stores.db.chunks, ∃ first rest u, events = first ++ rest ∧
      Run (stepOf (next env)) .empty first u ∧ Run (stepOf (next env)) u rest s ∧
      IsActive u.stores.db row.versionId := by
  obtain ⟨wf, indexed⟩ := indexed_of_run run
  constructor
  · intro document member versionId names
    obtain ⟨undeleted, finished, version, read, parent⟩ :=
      indexed.active document member versionId names
    have present := Table.mem_of_lookup read
    have id : version.id = versionId := Table.key_of_lookup read
    have done : ∀ job ∈ s.stores.db.jobs, Processes job version → job.state = .completed := by
      intro job stored processes
      exact state_of_completed wf.linked present (id ▸ finished) stored processes
    obtain ⟨job, stored, processes⟩ := wf.linked.job version present
    have live : LiveRow s.stores.db version.documentId := by
      have found := Table.lookup_of_mem wf.linked.documents member
      rw [Document.row_key, ← parent] at found
      exact ⟨document, found, undeleted⟩
    have index := indexed.index version present live
    rw [if_pos (id ▸ finished)] at index
    exact ⟨undeleted, version, present, id, parent,
      indexed.status job stored version present processes (done job stored processes),
      ⟨job, stored, processes⟩, done, index⟩
  · intro row member
    -- a chunk of the version appears in the step that activates the version
    apply run.passes (I := Wf env)
      (Q := fun s => ∃ other ∈ s.stores.db.chunks, other.versionId = row.versionId)
      (fun _ _ _ => wf_step) _ wf_empty (fun ⟨_, stored, _⟩ => nomatch stored) ⟨row, member, rfl⟩
    intro before event after wf taken stored
    obtain same | change := change_of_next wf (next_of_event taken)
    · rw [same] at stored
      exact .inl stored
    · exact active_of_chunk change stored

end Steps

/-- A processed upload. -/
theorem active_index_letter : ∃ events s,
    Run (stepOf (@next asciiTables letterSha256 letterEnvironment)) .empty events s ∧
    IsActive s.stores.db 5 ∧
    (∀ document ∈ s.stores.db.documents, ∀ versionId, document.activeVersionId = some versionId →
      document.deletedAt = none ∧ ∃ version ∈ s.stores.db.versions, version.id = versionId ∧
        version.documentId = document.id ∧ version.status = .active ∧
        (∃ job ∈ s.stores.db.jobs, Processes job version) ∧
        (∀ job ∈ s.stores.db.jobs, Processes job version → job.state = .completed) ∧
        @HoldsIndex letterSha256 letterIndexer s.stores.db version) ∧
    ∀ row ∈ s.stores.db.chunks, ∃ first rest u, events = first ++ rest ∧
      Run (stepOf (@next asciiTables letterSha256 letterEnvironment)) .empty first u ∧
      Run (stepOf (@next asciiTables letterSha256 letterEnvironment)) u rest s ∧
      IsActive u.stores.db row.versionId := by
  have executed : (exec (@next asciiTables letterSha256 letterEnvironment) .empty
      (uploading 0 letterCall ++ claiming firstWorker :: processing 1)).any
        (fun s => s.stores.db.documents.any fun document =>
          document.activeVersionId = some 5) = true := by
    rw [letterSha256_eq]
    decide +kernel
  obtain ⟨s, ⟨events, run⟩, found⟩ := reachable_of_exec executed
  obtain ⟨document, member, active⟩ := List.any_eq_true.mp found
  exact ⟨events, s, run, ⟨document, member, of_decide_eq_true active⟩,
    @active_index asciiTables letterSha256 letterEnvironment s events run⟩

end SupportPilot.Lifecycle
