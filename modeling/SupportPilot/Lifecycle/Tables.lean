import SupportPilot.Lib.Rewrite
import SupportPilot.Lifecycle.Steps

/-! # What the tables keep

The columns that no transaction changes (`SameDocument`, `SameVersion`, `SameJob`),
and the links between the rows (`Linked`).  A transaction either rewrites rows in
place (`InPlace`) or adds some behind the others; both keep the links. -/

namespace SupportPilot.Lifecycle

open Lib Documents Worker

/-! ## Rows rewritten in place -/

structure SameDocument (before after : Document) : Prop where
  id : after.id = before.id
  workspaceId : after.workspaceId = before.workspaceId
  deleted : before.deletedAt ≠ none → after.deletedAt ≠ none

/-- Only the status may differ. -/
structure SameVersion (before after : DocumentVersion) : Prop where
  same : after = { before with status := after.status }

structure SameJob (before after : Job) : Prop where
  id : after.id = before.id
  workspaceId : after.workspaceId = before.workspaceId
  jobType : after.jobType = before.jobType
  payload : after.payload = before.payload
  idempotencyKey : after.idempotencyKey = before.idempotencyKey

theorem SameDocument.refl (document : Document) : SameDocument document document :=
  ⟨rfl, rfl, fun deleted => deleted⟩

theorem SameVersion.refl (version : DocumentVersion) : SameVersion version version := ⟨rfl⟩

theorem SameJob.refl (job : Job) : SameJob job job := ⟨rfl, rfl, rfl, rfl, rfl⟩

theorem SameDocument.trans {first second third : Document} (before : SameDocument first second)
    (behind : SameDocument second third) : SameDocument first third :=
  ⟨behind.id.trans before.id, behind.workspaceId.trans before.workspaceId,
    fun deleted => behind.deleted (before.deleted deleted)⟩

theorem SameVersion.trans {first second third : DocumentVersion}
    (before : SameVersion first second) (behind : SameVersion second third) :
    SameVersion first third := by
  refine ⟨?_⟩
  rw [behind.same, before.same]

theorem SameJob.trans {first second third : Job} (before : SameJob first second)
    (behind : SameJob second third) : SameJob first third :=
  ⟨behind.id.trans before.id, behind.workspaceId.trans before.workspaceId,
    behind.jobType.trans before.jobType, behind.payload.trans before.payload,
    behind.idempotencyKey.trans before.idempotencyKey⟩

namespace SameVersion

variable {before after : DocumentVersion} (same : SameVersion before after)

include same

theorem id : after.id = before.id := by rw [same.same]
theorem workspaceId : after.workspaceId = before.workspaceId := by rw [same.same]
theorem documentId : after.documentId = before.documentId := by rw [same.same]
theorem versionNumber : after.versionNumber = before.versionNumber := by rw [same.same]
theorem objectKey : after.objectKey = before.objectKey := by rw [same.same]
theorem byteSize : after.byteSize = before.byteSize := by rw [same.same]
theorem sha256 : after.sha256 = before.sha256 := by rw [same.same]

end SameVersion

/-- Every row of the three tables is rewritten in place. -/
structure InPlace (db db' : Database) : Prop where
  documents : List.Forall₂ SameDocument db.documents db'.documents
  versions : List.Forall₂ SameVersion db.versions db'.versions
  jobs : List.Forall₂ SameJob db.jobs db'.jobs

theorem InPlace.refl (db : Database) : InPlace db db :=
  ⟨rewritten_refl SameDocument.refl _, rewritten_refl SameVersion.refl _,
    rewritten_refl SameJob.refl _⟩

theorem InPlace.trans {first second third : Database} (before : InPlace first second)
    (behind : InPlace second third) : InPlace first third :=
  ⟨rewritten_trans (fun _ _ _ => SameDocument.trans) before.documents behind.documents,
    rewritten_trans (fun _ _ _ => SameVersion.trans) before.versions behind.versions,
    rewritten_trans (fun _ _ _ => SameJob.trans) before.jobs behind.jobs⟩

namespace InPlace

variable {db db' : Database} (inPlace : InPlace db db')

include inPlace

theorem document {id : UUID} {document : Document}
    (found : Table.lookup db.documents id = some document) :
    ∃ document', Table.lookup db'.documents id = some document' ∧ SameDocument document document' :=
  Table.lookup_of_rewritten (fun _ _ same => same.id) inPlace.documents found

theorem version {id : UUID} {version : DocumentVersion}
    (found : Table.lookup db.versions id = some version) :
    ∃ version', Table.lookup db'.versions id = some version' ∧ SameVersion version version' :=
  Table.lookup_of_rewritten (fun _ _ same => same.id) inPlace.versions found

theorem job {id : UUID} {job : Job} (found : Table.lookup db.jobs id = some job) :
    ∃ job', Table.lookup db'.jobs id = some job' ∧ SameJob job job' :=
  Table.lookup_of_rewritten (fun _ _ same => same.id) inPlace.jobs found

end InPlace

/-! ### The updates of the transactions -/

theorem inPlace_setStatus (db : Database) (versionId : UUID) (status : DocumentVersionStatus) :
    InPlace db (db.setStatus versionId status) := by
  refine ⟨rewritten_refl SameDocument.refl _, rewritten_map fun version _ => ?_,
    rewritten_refl SameJob.refl _⟩
  split
  · exact ⟨rfl⟩
  · exact .refl version

theorem inPlace_updateDocument (db : Database) (documentId : UUID) {write : Document → Document}
    (keeps : ∀ document, SameDocument document (write document)) :
    InPlace db (db.updateDocument documentId write) := by
  refine ⟨rewritten_map fun document _ => ?_, rewritten_refl SameVersion.refl _,
    rewritten_refl SameJob.refl _⟩
  split
  · exact keeps document
  · exact .refl document

theorem inPlace_chunks (db : Database) (chunks : List Rag.DocumentChunk) :
    InPlace db { db with chunks := chunks } :=
  ⟨rewritten_refl SameDocument.refl _, rewritten_refl SameVersion.refl _,
    rewritten_refl SameJob.refl _⟩

/-- Saving a job over the row it was read from. -/
theorem inPlace_saveJob {db : Database} {row row' : Job} (keyed : Table.Keyed db.jobs)
    (read : Table.lookup db.jobs row.id = some row) (same : SameJob row row') :
    InPlace db (saveJob db row') := by
  refine ⟨rewritten_refl SameDocument.refl _, rewritten_refl SameVersion.refl _,
    rewritten_map fun old member => ?_⟩
  split
  next here =>
    have found := Table.lookup_of_mem keyed member
    rw [of_decide_eq_true here, Job.row_key, same.id, read] at found
    cases found
    exact same
  · exact .refl old

theorem inPlace_claimJobs (db : Database) (worker : Text) (batchSize leaseSeconds now : Nat)
    (locked : List UUID) :
    InPlace db { db with
      jobs := (Jobs.claimJobs db.jobs worker batchSize leaseSeconds now locked).2 } := by
  refine ⟨rewritten_refl SameDocument.refl _, rewritten_refl SameVersion.refl _,
    rewritten_map fun job _ => ?_⟩
  split
  · exact ⟨rfl, rfl, rfl, rfl, rfl⟩
  · exact .refl job

theorem sameJob_fail (job : Job) (errorCode errorMessage : Text) (retryable : Bool)
    (randbelow : Nat → Nat) (now : Nat) :
    SameJob job (job.fail errorCode errorMessage retryable randbelow now) := by
  rw [Job.fail]
  dsimp only
  split <;> exact ⟨rfl, rfl, rfl, rfl, rfl⟩

/-! ## Links between the rows -/

/-- The job is there to process the version. -/
structure Processes (job : Job) (version : DocumentVersion) : Prop where
  jobType : job.jobType = .processDocument
  payload : job.payload = ⟨some version.documentId, some version.id⟩
  workspace : version.workspaceId = job.workspaceId

/-- The job is there to delete the objects of the document, which is deleted. -/
structure Deletes (job : Job) (document : Document) : Prop where
  payload : job.payload.documentId = some document.id
  workspace : document.workspaceId = job.workspaceId
  deleted : document.deletedAt ≠ none

structure Linked (db : Database) : Prop where
  documents : Table.Keyed db.documents
  versions : Table.Keyed db.versions
  jobs : Table.Keyed db.jobs
  document : ∀ version ∈ db.versions, ∃ document ∈ db.documents,
    document.id = version.documentId ∧ document.workspaceId = version.workspaceId
  version : ∀ job ∈ db.jobs, job.jobType = .processDocument →
    ∃ version ∈ db.versions, Processes job version
  job : ∀ version ∈ db.versions, ∃ job ∈ db.jobs, Processes job version
  oneJob : ∀ version, ∀ job ∈ db.jobs, ∀ job' ∈ db.jobs, Processes job version →
    Processes job' version → job.id = job'.id
  deleted : ∀ job ∈ db.jobs, job.jobType = .deleteObject →
    ∃ document ∈ db.documents, Deletes job document

theorem linked_empty : Linked .empty := by
  refine ⟨List.nodup_nil, List.nodup_nil, List.nodup_nil, ?_, ?_, ?_, ?_, ?_⟩
  · exact fun _ member => nomatch member
  · exact fun _ member => nomatch member
  · exact fun _ member => nomatch member
  · exact fun _ _ member => nomatch member
  · exact fun _ member => nomatch member

theorem Processes.same {job job' : Job} {version version' : DocumentVersion}
    (processes : Processes job version) (sameJob : SameJob job job')
    (sameVersion : SameVersion version version') : Processes job' version' := by
  refine ⟨sameJob.jobType.trans processes.jobType, ?_, ?_⟩
  · rw [sameJob.payload, processes.payload, sameVersion.documentId, sameVersion.id]
  · rw [sameVersion.workspaceId, sameJob.workspaceId, processes.workspace]

theorem Processes.of_same {job job' : Job} {version : DocumentVersion}
    (processes : Processes job' version) (sameJob : SameJob job job') : Processes job version :=
  ⟨sameJob.jobType ▸ processes.jobType, sameJob.payload ▸ processes.payload,
    sameJob.workspaceId ▸ processes.workspace⟩

theorem Linked.inPlace {db db' : Database} (linked : Linked db) (inPlace : InPlace db db') :
    Linked db' := by
  refine ⟨Table.keyed_of_rewritten (fun _ _ same => same.id) inPlace.documents linked.documents,
    Table.keyed_of_rewritten (fun _ _ same => same.id) inPlace.versions linked.versions,
    Table.keyed_of_rewritten (fun _ _ same => same.id) inPlace.jobs linked.jobs, ?_, ?_, ?_, ?_, ?_⟩
  · intro version' member
    obtain ⟨version, before, same⟩ := exists_of_mem_forall₂ inPlace.versions member
    obtain ⟨document, present, id, workspace⟩ := linked.document version before
    obtain ⟨document', present', sameDocument⟩ := mem_of_rewritten inPlace.documents present
    refine ⟨document', present', ?_, ?_⟩
    · rw [sameDocument.id, id, same.documentId]
    · rw [sameDocument.workspaceId, workspace, same.workspaceId]
  · intro job' member process
    obtain ⟨job, before, same⟩ := exists_of_mem_forall₂ inPlace.jobs member
    obtain ⟨version, present, processes⟩ := linked.version job before (same.jobType ▸ process)
    obtain ⟨version', present', sameVersion⟩ := mem_of_rewritten inPlace.versions present
    exact ⟨version', present', processes.same same sameVersion⟩
  · intro version' member
    obtain ⟨version, before, same⟩ := exists_of_mem_forall₂ inPlace.versions member
    obtain ⟨job, present, processes⟩ := linked.job version before
    obtain ⟨job', present', sameJob⟩ := mem_of_rewritten inPlace.jobs present
    exact ⟨job', present', processes.same sameJob same⟩
  · -- two jobs of one version were two before
    intro version first member second member' processes processes'
    obtain ⟨job, before, same⟩ := exists_of_mem_forall₂ inPlace.jobs member
    obtain ⟨job', before', same'⟩ := exists_of_mem_forall₂ inPlace.jobs member'
    have one := linked.oneJob version job before job' before' (processes.of_same same)
      (processes'.of_same same')
    rw [same.id, same'.id, one]
  · intro job' member delete
    obtain ⟨job, before, same⟩ := exists_of_mem_forall₂ inPlace.jobs member
    obtain ⟨document, present, deletes⟩ := linked.deleted job before (same.jobType ▸ delete)
    obtain ⟨document', present', sameDocument⟩ := mem_of_rewritten inPlace.documents present
    refine ⟨document', present', ?_, ?_, sameDocument.deleted deletes.deleted⟩
    · rw [same.payload, deletes.payload, sameDocument.id]
    · rw [sameDocument.workspaceId, same.workspaceId, deletes.workspace]

/-- A job processes one version. -/
theorem Processes.id_eq {job : Job} {version version' : DocumentVersion}
    (processes : Processes job version) (processes' : Processes job version') :
    version.id = version'.id := by
  have payloads := processes.payload.symm.trans processes'.payload
  simp only [Payload.mk.injEq, Option.some.injEq] at payloads
  exact payloads.2

/-- No stored job is for a version that is not stored. -/
theorem Linked.unnamed {db : Database} (linked : Linked db) {job : Job} {version : DocumentVersion}
    (member : job ∈ db.jobs) (fresh : Table.lookup db.versions version.id = none) :
    ¬ Processes job version := by
  intro processes
  obtain ⟨old, present, links⟩ := linked.version job member processes.jobType
  exact Table.lookup_eq_none.1 fresh old present (links.id_eq processes)

/-- The rows of an upload are linked to each other and to the document. -/
theorem Linked.added {db : Database} (linked : Linked db) {target : Target}
    {version : DocumentVersion} {job : Job} (fits : UploadFits db target version job)
    (documentId : version.documentId = target.document.id)
    (workspace : ∀ document ∈ db.documents ++ (if target.isNew then [target.document] else []),
      document.id = target.document.id → document.workspaceId = version.workspaceId)
    (processes : Processes job version) : Linked (added db target version job) := by
  have documents : Table.Keyed (Documents.added db target version job).documents := by
    cases isNew : target.isNew with
    | true =>
      simpa [Documents.added, isNew] using
        Table.keyed_append linked.documents (fits.document isNew).1
    | false => simpa [Documents.added, isNew] using linked.documents
  -- no job of an old version is for the new one
  have unnamed : ∀ job' ∈ db.jobs, ∀ row, Processes job' row → Processes job row → False := by
    intro job' member row processes' processesRow
    have fresh : Table.lookup db.versions row.id = none := by
      rw [processesRow.id_eq processes]
      exact fits.version.id
    exact linked.unnamed member fresh processes'
  refine ⟨documents, Table.keyed_append linked.versions fits.version.id,
    Table.keyed_append linked.jobs fits.job.id, ?_, ?_, ?_, ?_, ?_⟩
  · intro row member
    obtain before | rfl := List.mem_append.mp member |>.imp_right List.mem_singleton.mp
    · obtain ⟨document, present, links⟩ := linked.document row before
      exact ⟨document, List.mem_append_left _ present, links⟩
    · obtain ⟨document, read⟩ := Option.ne_none_iff_exists'.mp fits.version.document
      have present := Table.mem_of_lookup read
      have id : document.id = target.document.id := (Table.key_of_lookup read).trans documentId
      exact ⟨document, present, Table.key_of_lookup read, workspace document present id⟩
  · intro row member process
    obtain before | rfl := List.mem_append.mp member |>.imp_right List.mem_singleton.mp
    · obtain ⟨old, present, links⟩ := linked.version row before process
      exact ⟨old, List.mem_append_left _ present, links⟩
    · exact ⟨version, List.mem_append_right _ (List.mem_singleton_self _), processes⟩
  · intro row member
    obtain before | rfl := List.mem_append.mp member |>.imp_right List.mem_singleton.mp
    · obtain ⟨old, present, links⟩ := linked.job row before
      exact ⟨old, List.mem_append_left _ present, links⟩
    · exact ⟨job, List.mem_append_right _ (List.mem_singleton_self _), processes⟩
  · intro row first member second member' processesRow processesRow'
    obtain before | rfl := List.mem_append.mp member |>.imp_right List.mem_singleton.mp
    · obtain before' | rfl := List.mem_append.mp member' |>.imp_right List.mem_singleton.mp
      · exact linked.oneJob row first before second before' processesRow processesRow'
      · exact (unnamed first before row processesRow processesRow').elim
    · obtain before' | rfl := List.mem_append.mp member' |>.imp_right List.mem_singleton.mp
      · exact (unnamed second before' row processesRow' processesRow).elim
      · rfl
  · intro row member delete
    obtain before | rfl := List.mem_append.mp member |>.imp_right List.mem_singleton.mp
    · obtain ⟨document, present, deletes⟩ := linked.deleted row before delete
      exact ⟨document, List.mem_append_left _ present, deletes⟩
    · cases processes.jobType.symm.trans delete

theorem Linked.insertDelete {db : Database} (linked : Linked db) {job : Job} {document : Document}
    (fits : Database.JobFits db.jobs job) (delete : job.jobType = .deleteObject)
    (present : document ∈ db.documents) (deletes : Deletes job document) :
    Linked { db with jobs := db.jobs ++ [job] } := by
  have notDelete : ∀ {row version}, row = job → Processes row version → False := by
    rintro row version rfl processes
    cases processes.jobType.symm.trans delete
  refine ⟨linked.documents, linked.versions, Table.keyed_append linked.jobs fits.id,
    linked.document, ?_, ?_, ?_, ?_⟩
  · intro row member process
    obtain before | rfl := List.mem_append.mp member |>.imp_right List.mem_singleton.mp
    · exact linked.version row before process
    · cases process.symm.trans delete
  · intro version member
    obtain ⟨row, before, processes⟩ := linked.job version member
    exact ⟨row, List.mem_append_left _ before, processes⟩
  · intro version first member second member' processes processes'
    obtain before | new := List.mem_append.mp member |>.imp_right List.mem_singleton.mp
    · obtain before' | new := List.mem_append.mp member' |>.imp_right List.mem_singleton.mp
      · exact linked.oneJob version first before second before' processes processes'
      · exact (notDelete new processes').elim
    · exact (notDelete new processes).elim
  · intro row member isDelete
    obtain before | rfl := List.mem_append.mp member |>.imp_right List.mem_singleton.mp
    · exact linked.deleted row before isDelete
    · exact ⟨document, present, deletes⟩

end SupportPilot.Lifecycle
