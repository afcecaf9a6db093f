import SupportPilot.Lifecycle.Identifiers

/-! # Deletion is final

A deleted document gets no version and no chunk, since an upload and an activation
hold the lock of a document that is not deleted when they commit.  The worker that
deletes the objects has listed the keys of all its versions (`Sweeps`), and nothing
puts an object back under the key of a version that is stored. -/

namespace SupportPilot.Lifecycle

open Lib Documents Worker

def IsDeleted (db : Database) (documentId : UUID) : Prop :=
  ∃ document, Table.lookup db.documents documentId = some document ∧ document.deletedAt ≠ none

/-- The key of a version was built with its identifier. -/
def Shelved (db : Database) : Prop :=
  ∀ version ∈ db.versions, keyId version.objectKey = version.id

/-- Nothing of the document is left but its rows. -/
structure Gone (s : System) (documentId : UUID) : Prop where
  deleted : IsDeleted s.stores.db documentId
  chunks : ∀ row ∈ s.stores.db.chunks, row.documentId ≠ documentId
  objects : ∀ version ∈ s.stores.db.versions, version.documentId = documentId →
    s.stores.objects version.objectKey = none

/-- The objects of the versions are gone, up to the keys that the task still has to
delete. -/
def Sweeps (stores : Stores) (process : Process) : Prop :=
  ∀ job worker keys, process = .ofTask ⟨job, worker, .deleting keys⟩ →
    ∀ documentId, job.payload.documentId = some documentId →
      ∀ version ∈ stores.db.versions, version.documentId = documentId →
        version.objectKey ∈ keys ∨ stores.objects version.objectKey = none

section Deleted

variable {db db' : Database} {documentId : UUID}

theorem IsDeleted.mono (deleted : IsDeleted db documentId) (grows : Grows db db') :
    IsDeleted db' documentId := by
  obtain ⟨document, read, mark⟩ := deleted
  obtain ⟨document', read', same⟩ := grows.document read
  exact ⟨document', read', same.deleted mark⟩

theorem IsDeleted.not_live (deleted : IsDeleted db documentId) : ¬ LiveRow db documentId := by
  rintro ⟨document, read, undeleted⟩
  obtain ⟨document', read', mark⟩ := deleted
  cases read.symm.trans read'
  exact mark undeleted

theorem Deletes.isDeleted {job : Job} {document : Document} (linked : Linked db)
    (present : document ∈ db.documents) (deletes : Deletes job document)
    (payload : job.payload.documentId = some documentId) : IsDeleted db documentId := by
  have id : document.id = documentId := Option.some.inj (deletes.payload.symm.trans payload)
  have read := Table.lookup_of_mem linked.documents present
  rw [Document.row_key, id] at read
  exact ⟨document, read, deletes.deleted⟩

end Deleted

section Changes

variable [UnicodeTables] [Sha256] {env : Environment} {s t : System} {event : Event}
  {db' : Database} {documentId : UUID}

/-- A version is only added to a document that is not deleted. -/
theorem live_of_upload {i : Nat} {call : UploadCall} {promotedKey : Option ObjectKey}
    {file : CheckedFile} {target : Target} {version : DocumentVersion} {job : Job} (wf : Wf env s)
    (found : s.processes[i]? = some (.ofUpload ⟨call, promotedKey, .promoted file target⟩))
    (fits : UploadFits s.stores.db target version job) :
    ¬ IsDeleted s.stores.db target.document.id := by
  intro deleted
  cases isNew : target.isNew with
  | true =>
    obtain ⟨document, read, -⟩ := deleted
    cases read.symm.trans (fits.document isNew).1
  | false =>
    have locks : Locks (.ofUpload ⟨call, promotedKey, .promoted file target⟩)
        target.document.id := by
      simp [Locks, Process.holds, UploadPhase.holds, isNew]
    exact deleted.not_live (wf.live _ (List.mem_of_getElem? found) _ locks)

theorem version_of_deleted (wf : Wf env s) (change : Change env s event db')
    (deleted : IsDeleted s.stores.db documentId) {version' : DocumentVersion}
    (member : version' ∈ db'.versions) (document : version'.documentId = documentId) :
    ∃ version ∈ s.stores.db.versions, SameVersion version version' := by
  cases change with
  | uploaded i input call promotedKey file target here found fileOk targetOk fits =>
    obtain before | rfl := List.mem_append.mp member |>.imp_right List.mem_singleton.mp
    · exact ⟨version', before, .refl version'⟩
    · have new : target.document.id = documentId := document
      rw [← new] at deleted
      exact absurd deleted (live_of_upload wf found fits)
  | marked row row' version status =>
    exact exists_of_mem_forall₂ (inPlace_setStatus _ version.id status).versions member
  | activated i input job worker located content records row version chunks =>
    exact exists_of_mem_forall₂ (inPlace_setStatus s.stores.db version.id .active).versions member
  | renamed | deleted | claimed | saved | retried | swept =>
    exact ⟨version', member, .refl version'⟩

theorem chunk_of_deleted (change : Change env s event db')
    (deleted : IsDeleted s.stores.db documentId) {row : Rag.DocumentChunk}
    (member : row ∈ db'.chunks) (document : row.documentId = documentId) :
    row ∈ s.stores.db.chunks := by
  cases change with
  | activated i input job worker located content records _ version chunks here found sameId
      writes read processes live indexes replaced =>
    obtain ⟨_, _, -, -, -, rfl⟩ := Rag.replaceVersion_ok replaced
    obtain old | new := List.mem_append.mp member
    · exact (List.mem_filter.mp old).1
    · obtain ⟨record, made, rfl⟩ := List.mem_map.mp new
      have own : version.documentId = documentId :=
        (indexes.ids record made).1.symm.trans document
      rw [← own] at deleted
      exact absurd live deleted.not_live
  | swept => exact (List.mem_filter.mp member).1
  | uploaded | renamed | deleted | claimed | saved | retried | marked => exact member

theorem Shelved.change (shelved : Shelved s.stores.db) (change : Change env s event db') :
    Shelved db' := by
  intro version' member
  obtain rewritten | ⟨call, file, target, -, -, rfl⟩ := change.versions
  · obtain ⟨version, before, same⟩ := exists_of_mem_forall₂ rewritten member
    rw [same.objectKey, same.id, shelved version before]
  · obtain before | rfl := List.mem_append.mp member |>.imp_right List.mem_singleton.mp
    · exact shelved version' before
    · rfl

/-- A task with no key left to delete finishes its job. -/
structure Finishes (s : System) (job : Job) (chunks : List Rag.DocumentChunk) : Prop where
  task : ∃ task worker, Process.ofTask ⟨task, worker, .deleting []⟩ ∈ s.processes ∧
    SameJob task job
  chunks : ∀ chunk ∈ chunks, chunk ∈ s.stores.db.chunks ∧
    ¬ (chunk.workspaceId = job.workspaceId ∧ job.payload.documentId = some chunk.documentId)

/-- Only the sweep of a document completes a job that deletes its objects. -/
theorem finishes_of_change (change : Change env s event db') {job : Job}
    (member : job ∈ db'.jobs) (delete : job.jobType = .deleteObject)
    (finished : job.state = .completed) :
    job ∈ s.stores.db.jobs ∨ Finishes s job db'.chunks := by
  cases change with
  | uploaded | deleted =>
    obtain before | rfl := List.mem_append.mp member |>.imp_right List.mem_singleton.mp
    · exact .inl before
    · cases finished
  | renamed => exact .inl member
  | claimed worker batchSize leaseSeconds now locked =>
    obtain ⟨old, before, rfl⟩ := List.mem_map.mp member
    split at finished
    · cases finished
    next unselected =>
      rw [if_neg unselected]
      exact .inl before
  | saved row row' writes unfinished =>
    obtain rfl | ⟨before, -⟩ := Table.mem_save member
    · exact absurd finished unfinished
    · exact .inl before
  | marked row row' version status writes read processes unfinished =>
    obtain rfl | ⟨before, -⟩ := Table.mem_save member
    · exact absurd finished unfinished
    · exact .inl before
  | retried row now =>
    obtain rfl | ⟨before, -⟩ := Table.mem_save member
    · cases finished
    · exact .inl before
  | activated i input task worker located content records row version chunks here found sameId
      writes read processes =>
    obtain rfl | ⟨before, -⟩ := Table.mem_save member
    · cases delete.symm.trans processes.jobType
    · exact .inl before
  | swept i task worker row documentId found same writes isDelete payload =>
    obtain rfl | ⟨before, -⟩ := Table.mem_save member
    -- the job that completes has deleted the chunks of its document
    · have completes := sameJob_complete row
      refine .inr ⟨⟨task, worker, List.mem_of_getElem? found, same.trans completes⟩,
        fun chunk stored => ?_⟩
      obtain ⟨old, kept⟩ := List.mem_filter.mp stored
      refine ⟨old, fun ⟨workspace, names⟩ => ?_⟩
      cases names.symm.trans payload
      simp [show chunk.workspaceId = row.workspaceId from workspace] at kept
    · exact .inl before

end Changes

/-! ## Steps -/

section Steps

variable [UnicodeTables] [Sha256] {env : Environment} {s t : System} {event : Event}
  {documentId : UUID}

/-- The tables of a step, as `change_of_next` gives them. -/
theorem IsDeleted.next (deleted : IsDeleted s.stores.db documentId) (wf : Wf env s)
    (step : Next env s event t) : IsDeleted t.stores.db documentId := by
  obtain same | change := change_of_next wf step
  · rw [same]
    exact deleted
  · exact deleted.mono (change.grows wf)

theorem version_of_next (wf : Wf env s) (step : Next env s event t)
    (deleted : IsDeleted s.stores.db documentId) {version' : DocumentVersion}
    (member : version' ∈ t.stores.db.versions) (document : version'.documentId = documentId) :
    ∃ version ∈ s.stores.db.versions, SameVersion version version' := by
  obtain same | change := change_of_next wf step
  · rw [same] at member
    exact ⟨version', member, .refl version'⟩
  · exact version_of_deleted wf change deleted member document

/-- No object comes back under the key of a stored version. -/
theorem object_of_next (wf : Wf env s) (fresh : Fresh s) (shelved : Shelved s.stores.db)
    (step : Next env s event t) {version : DocumentVersion}
    (present : version ∈ s.stores.db.versions)
    (absent : s.stores.objects version.objectKey = none) :
    t.stores.objects version.objectKey = none := by
  by_contra stored
  obtain before | ⟨process, member, own, upload, rfl, isOpen⟩ := stored_of_next wf step stored
  · exact before absent
  · -- a call that can still put objects has no rows
    apply (fresh.clean upload member isOpen).rows _ own
    rw [shelved version present]
    exact mem_ids_version present

/-- An object of a version of a deleted document was there before. -/
theorem swept_of_next {keys : List ObjectKey} (wf : Wf env s) (fresh : Fresh s)
    (shelved : Shelved s.stores.db) (step : Next env s event t)
    (deleted : IsDeleted s.stores.db documentId)
    (swept : ∀ version ∈ s.stores.db.versions, version.documentId = documentId →
      version.objectKey ∈ keys ∨ s.stores.objects version.objectKey = none) :
    ∀ version ∈ t.stores.db.versions, version.documentId = documentId →
      version.objectKey ∈ keys ∨ t.stores.objects version.objectKey = none := by
  intro version' member document
  obtain ⟨version, before, same⟩ := version_of_next wf step deleted member document
  rw [same.objectKey]
  exact (swept version before (same.documentId.symm.trans document)).imp_right
    (object_of_next wf fresh shelved step before)

theorem Gone.next (gone : Gone s documentId) (wf : Wf env s) (fresh : Fresh s)
    (shelved : Shelved s.stores.db) (step : Next env s event t) : Gone t documentId where
  deleted := gone.deleted.next wf step
  chunks row member document := by
    obtain same | change := change_of_next wf step
    · rw [same] at member
      exact gone.chunks row member document
    · exact gone.chunks row (chunk_of_deleted change gone.deleted member document) document
  objects version member document := by
    have swept : ∀ version ∈ s.stores.db.versions, version.documentId = documentId →
        version.objectKey ∈ [] ∨ s.stores.objects version.objectKey = none :=
      fun version present own => .inr (gone.objects version present own)
    obtain listed | absent := swept_of_next wf fresh shelved step gone.deleted swept version member
      document
    · cases listed
    · exact absent

/-- The document of a task that deletes objects is deleted. -/
theorem deleted_of_deleting {job : Job} {worker : Jobs.WorkerId} {keys : List ObjectKey}
    (wf : Wf env s) (member : Process.ofTask ⟨job, worker, .deleting keys⟩ ∈ s.processes)
    (payload : job.payload.documentId = some documentId) : IsDeleted s.stores.db documentId := by
  obtain ⟨⟨row, read, same⟩, delete⟩ := wf.ok _ member
  obtain ⟨document, present, deletes⟩ :=
    wf.linked.deleted row (Table.mem_of_lookup read) (same.jobType.trans delete)
  exact deletes.isDeleted wf.linked present (same.payload ▸ payload)

omit [UnicodeTables] [Sha256] in
/-- The versions of the document are in the workspace of the job. -/
theorem workspace_of_deletes {job : Job} (linked : Linked s.stores.db)
    (stored : StoredJob s.stores.db job) (delete : job.jobType = .deleteObject)
    (payload : job.payload.documentId = some documentId) {version : DocumentVersion}
    (member : version ∈ s.stores.db.versions) (own : version.documentId = documentId) :
    version.workspaceId = job.workspaceId := by
  obtain ⟨row, read, same⟩ := stored
  obtain ⟨document, present, deletes⟩ :=
    linked.deleted row (Table.mem_of_lookup read) (same.jobType.trans delete)
  obtain ⟨parent, present', id, workspace⟩ := linked.document version member
  have payload' : job.payload.documentId = some document.id := same.payload ▸ deletes.payload
  have one : parent = document := by
    have found := Table.lookup_of_mem linked.documents present
    have found' := Table.lookup_of_mem linked.documents present'
    rw [Document.row_key, id, own, ← Option.some.inj (payload'.symm.trans payload),
      ← Document.row_key, found] at found'
    exact (Option.some.inj found').symm
  rw [← workspace, one, deletes.workspace, same.workspaceId]

omit [UnicodeTables] [Sha256] in
/-- The keys that are listed are those of all versions. -/
theorem sweeps_listed {job : Job} (linked : Linked s.stores.db) (stored : StoredJob s.stores.db job)
    (delete : job.jobType = .deleteObject) (payload : job.payload.documentId = some documentId) :
    ∀ version ∈ s.stores.db.versions, version.documentId = documentId →
      version.objectKey ∈ (s.stores.db.versions.filter fun version =>
        version.workspaceId = job.workspaceId && version.documentId = documentId).map
          DocumentVersion.objectKey := by
  intro version member own
  have workspace := workspace_of_deletes linked stored delete payload member own
  exact List.mem_map.mpr ⟨version, List.mem_filter.mpr ⟨member, by simp [workspace, own]⟩, rfl⟩

end Steps

/-! ## Runs -/

section Runs

variable [UnicodeTables] [Sha256] (env : Environment)

/-- What the deletion of a document rests on. -/
structure Settled (s : System) : Prop where
  wf : Wf env s
  indexed : Indexed env s.stores.db
  fresh : Fresh s
  shelved : Shelved s.stores.db
  sweeps : ∀ process ∈ s.processes, Sweeps s.stores process
  finished : ∀ job ∈ s.stores.db.jobs, job.jobType = .deleteObject → job.state = .completed →
    ∀ documentId, job.payload.documentId = some documentId → Gone s documentId

variable {env} {s t : System} {event : Event} {documentId : UUID}

theorem settled_empty : Settled env .empty := by
  refine ⟨wf_empty, indexed_empty, fresh_empty, ?_, ?_, ?_⟩
  · exact fun _ member => nomatch member
  · exact fun _ member => nomatch member
  · exact fun _ member => nomatch member

theorem sweeps_next (settled : Settled env s) (step : Next env s event t) {process' : Process}
    (member : process' ∈ t.processes) : Sweeps t.stores process' := by
  have wf := settled.wf
  rintro job worker keys rfl documentId payload
  -- the keys of a task that was listing or deleting before
  have kept : ∀ keys, (∀ version ∈ s.stores.db.versions, version.documentId = documentId →
        version.objectKey ∈ keys ∨ s.stores.objects version.objectKey = none) →
      IsDeleted s.stores.db documentId → ∀ version ∈ t.stores.db.versions,
        version.documentId = documentId →
          version.objectKey ∈ keys ∨ t.stores.objects version.objectKey = none :=
    fun keys swept deleted => swept_of_next wf settled.fresh settled.shelved step deleted swept
  obtain before | isNew | ⟨_, _, claimed⟩ | ⟨process, before, move⟩ := process_of_next step member
  · apply kept keys (settled.sweeps _ before job worker keys rfl documentId payload)
    exact deleted_of_deleting wf before payload
  · cases isNew
  · cases claimed
  · generalize start : s.stores = stores, finish : t.stores = stores' at move
    cases move with
    | task move =>
      cases move with
      | listed documentId' delete names =>
        subst start
        cases names.symm.trans payload
        obtain ⟨stored, -⟩ := wf.ok _ before
        intro version present own
        exact .inl (sweeps_listed wf.linked stored delete payload version present own)
      | erased key keys =>
        have swept := settled.sweeps _ before job worker (key :: keys) rfl documentId payload
        have deleted := deleted_of_deleting wf before payload
        intro version present own
        obtain listed | absent := kept _ swept deleted version (by rw [finish]; exact present) own
        · obtain here | listed := List.mem_cons.mp listed
          · rw [here]
            exact .inr (Function.update_self ..)
          · exact .inl listed
        · rw [finish] at absent
          exact .inr absent

theorem finished_next (settled : Settled env s) (step : Next env s event t) {job : Job}
    (member : job ∈ t.stores.db.jobs) (delete : job.jobType = .deleteObject)
    (finished : job.state = .completed) (payload : job.payload.documentId = some documentId) :
    Gone t documentId := by
  have wf := settled.wf
  -- a job that was there before keeps what it has achieved
  have kept : job ∈ s.stores.db.jobs → Gone t documentId := fun before =>
    (settled.finished job before delete finished documentId payload).next wf settled.fresh
      settled.shelved step
  obtain same | change := change_of_next wf step
  · rw [same] at member
    exact kept member
  · obtain before | ⟨⟨task, worker, sweeping, same⟩, chunks⟩ :=
      finishes_of_change change member delete finished
    · exact kept before
    · have payload' : task.payload.documentId = some documentId := same.payload ▸ payload
      have deleted := deleted_of_deleting wf sweeping payload'
      obtain ⟨stored, isDelete⟩ := wf.ok _ sweeping
      refine ⟨deleted.next wf step, fun row present own => ?_, fun version present own => ?_⟩
      · -- the chunk is in the workspace of the job
        obtain ⟨old, kept⟩ := chunks row present
        obtain ⟨version, parent, -, document, workspace⟩ := settled.indexed.scope row old
        apply kept
        rw [workspace, same.workspaceId, payload, own]
        exact ⟨workspace_of_deletes wf.linked stored isDelete payload' parent
          (document.symm.trans own), rfl⟩
      · -- the task has listed every version, and swept what it listed
        have swept := settled.sweeps _ sweeping task worker [] rfl documentId payload'
        obtain listed | absent := swept_of_next wf settled.fresh settled.shelved step deleted swept
          version present own
        · cases listed
        · exact absent

theorem settled_step (settled : Settled env s) (taken : stepOf (next env) s event t) :
    Settled env t := by
  have step := next_of_event taken
  obtain ⟨wf, indexed⟩ := indexed_step ⟨settled.wf, settled.indexed⟩ taken
  refine ⟨wf, indexed, fresh_next settled.wf settled.fresh step, ?_,
    fun _ => sweeps_next settled step, fun _ member delete finished _ =>
      finished_next settled step member delete finished⟩
  obtain same | change := change_of_next settled.wf step
  · rw [same]
    exact settled.shelved
  · exact settled.shelved.change change

theorem settled_of_reachable (reached : Reachable (stepOf (next env)) .empty s) : Settled env s :=
  reached.invariant settled_empty fun _ _ _ => settled_step

/-- Once the job that deletes the objects of a document is completed, no chunk and no
object of its versions is left, and none comes back; a deleted document stays deleted
and never has an active version again. -/
theorem deletion_is_final {events : List Event}
    (reached : Reachable (stepOf (next env)) .empty s) (run : Run (stepOf (next env)) s events t) :
    (∀ job ∈ s.stores.db.jobs, job.jobType = .deleteObject → job.state = .completed →
      ∃ document ∈ s.stores.db.documents, Deletes job document ∧
        (∀ row ∈ t.stores.db.chunks, row.documentId ≠ document.id) ∧
        ∀ version ∈ t.stores.db.versions, version.documentId = document.id →
          t.stores.objects version.objectKey = none) ∧
    ∀ document ∈ s.stores.db.documents, document.deletedAt ≠ none →
      ∃ document' ∈ t.stores.db.documents, document'.id = document.id ∧
        document'.deletedAt ≠ none ∧ document'.activeVersionId = none := by
  have settled := settled_of_reachable reached
  have final : ∀ documentId, Gone s documentId → Gone t documentId := by
    intro documentId gone
    have both : Settled env t ∧ Gone t documentId := by
      -- `Gone` is kept by the steps from settled states
      apply run.invariant (I := fun s => Settled env s ∧ Gone s documentId) _ ⟨settled, gone⟩
      rintro s event t ⟨settled, gone⟩ taken
      exact ⟨settled_step settled taken,
        gone.next settled.wf settled.fresh settled.shelved (next_of_event taken)⟩
    exact both.2
  constructor
  · intro job member delete finished
    obtain ⟨document, present, deletes⟩ := settled.wf.linked.deleted job member delete
    have gone := final document.id
      (settled.finished job member delete finished document.id deletes.payload)
    exact ⟨document, present, deletes, gone.chunks, gone.objects⟩
  · intro document member mark
    have deleted : IsDeleted s.stores.db document.id :=
      ⟨document, Table.lookup_of_mem settled.wf.linked.documents member, mark⟩
    have both : Settled env t ∧ IsDeleted t.stores.db document.id := by
      apply run.invariant (I := fun s => Settled env s ∧ IsDeleted s.stores.db document.id) _
        ⟨settled, deleted⟩
      rintro s event t ⟨settled, deleted⟩ taken
      exact ⟨settled_step settled taken, deleted.next settled.wf (next_of_event taken)⟩
    obtain ⟨settled', document', read, mark'⟩ := both
    have present := Table.mem_of_lookup read
    refine ⟨document', present, Table.key_of_lookup read, mark', ?_⟩
    by_contra active
    obtain ⟨versionId, names⟩ := Option.ne_none_iff_exists'.mp active
    exact mark' (settled'.indexed.active document' present versionId names).1

end Runs

/-- A document is deleted while a worker indexes it, and the objects by another worker. -/
def deletedWhileIndexed : List Event :=
  uploading 0 letterCall ++ claiming firstWorker :: List.replicate 5 (.advance 1 steady) ++
    .deleteDocument 1 4 20 :: List.replicate 2 (.advance 2 steady) ++
    List.replicate 2 (.advance 1 steady) ++
    claiming secondWorker :: List.replicate 4 (.advance 3 steady)

/-- An upload to the document is refused. -/
def refusedUpload : List Event := .upload secondCall :: List.replicate 5 (.advance 4 steady)

theorem deletion_is_final_letter : ∃ s t,
    (s.stores.db.jobs.any fun job => job.jobType = .deleteObject && job.state = .completed) = true ∧
    Run (stepOf (@next asciiTables letterSha256 letterEnvironment)) s refusedUpload t ∧
    (∀ job ∈ s.stores.db.jobs, job.jobType = .deleteObject → job.state = .completed →
      ∃ document ∈ s.stores.db.documents, Deletes job document ∧
        (∀ row ∈ t.stores.db.chunks, row.documentId ≠ document.id) ∧
        ∀ version ∈ t.stores.db.versions, version.documentId = document.id →
          t.stores.objects version.objectKey = none) ∧
    ∀ document ∈ s.stores.db.documents, document.deletedAt ≠ none →
      ∃ document' ∈ t.stores.db.documents, document'.id = document.id ∧
        document'.deletedAt ≠ none ∧ document'.activeVersionId = none := by
  have executed : ((exec (@next asciiTables letterSha256 letterEnvironment) .empty
      deletedWhileIndexed).any fun s =>
        (exec (@next asciiTables letterSha256 letterEnvironment) s refusedUpload).any fun _ =>
          s.stores.db.jobs.any fun job =>
            job.jobType = .deleteObject && job.state = .completed) = true := by
    rw [letterSha256_eq]
    decide +kernel
  obtain ⟨s, t, reached, run, finished⟩ := run_of_exec executed
  exact ⟨s, t, finished, run,
    @deletion_is_final asciiTables letterSha256 letterEnvironment s t refusedUpload reached run⟩

end SupportPilot.Lifecycle
