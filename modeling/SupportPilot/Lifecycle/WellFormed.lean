import SupportPilot.Lifecycle.Events
import SupportPilot.Lifecycle.Knowledge

/-! # Well-formed systems

The rows are linked, no two processes have locked one document, a locked document
is not deleted, and what the processes know is true.  Every reachable system is
well formed (`wf_of_reachable`).  `Moves` says what a step of one process has to
do with the tables for this; there is one lemma for each kind of process. -/

namespace SupportPilot.Lifecycle

open Lib Documents Worker

/-- The document is there and is not deleted. -/
def LiveRow (db : Database) (documentId : UUID) : Prop :=
  ∃ document, Table.lookup db.documents documentId = some document ∧ document.deletedAt = none

section Rows

variable {db db' : Database}

theorem LiveRow.of_documents {documentId : UUID} (live : LiveRow db documentId)
    (same : db'.documents = db.documents) : LiveRow db' documentId := by
  rw [LiveRow, same]
  exact live

theorem Live.row {workspaceId documentId : UUID} {document : Document}
    (live : Live db workspaceId documentId document) : LiveRow db documentId :=
  ⟨document, live.read, live.undeleted⟩

theorem lookup_updateDocument (updated documentId : UUID) {write : Document → Document}
    (keys : ∀ document, (write document).id = document.id) :
    Table.lookup (db.updateDocument updated write).documents documentId =
      (Table.lookup db.documents documentId).map fun document =>
        if document.id = updated then write document else document := by
  rw [Database.updateDocument, Table.lookup_updateWhere fun document _ => keys document]
  simp only [decide_eq_true_eq]

/-- A document that is not deleted stays when others are updated. -/
theorem LiveRow.updateDocument {documentId updated : UUID} {write : Document → Document}
    (live : LiveRow db documentId) (keys : ∀ document, (write document).id = document.id)
    (keeps : documentId = updated → ∀ document, document.deletedAt = none →
      (write document).deletedAt = none) :
    LiveRow (db.updateDocument updated write) documentId := by
  obtain ⟨document, read, undeleted⟩ := live
  have id : document.id = documentId := Table.key_of_lookup read
  have written : Table.lookup (db.updateDocument updated write).documents documentId = _ :=
    lookup_updateDocument updated documentId keys
  rw [read, Option.map_some] at written
  refine ⟨_, written, ?_⟩
  split
  next here => exact keeps (id.symm.trans here) document undeleted
  · exact undeleted

/-- Saving the job after other tables were written. -/
theorem Holds.inPlace {job row row' : Job} {worker : Text} {now : Nat}
    (holds : Holds db job worker now row) (keyed : Table.Keyed db.jobs) (same : SameJob row row')
    (jobs : db'.jobs = db.jobs) : InPlace db' (saveJob db' row') := by
  have id : row.id = job.id := Table.key_of_lookup holds.read
  apply inPlace_saveJob _ _ same
  · rw [jobs]
    exact keyed
  · rw [jobs, id]
    exact holds.read

theorem sameJob_process (job : Job) : SameJob job job.process := ⟨rfl, rfl, rfl, rfl, rfl⟩

theorem sameJob_complete (job : Job) : SameJob job job.complete := ⟨rfl, rfl, rfl, rfl, rfl⟩

theorem sameJob_lease (job : Job) (worker : Text) (leaseSeconds now : Nat) :
    SameJob job (job.lease worker leaseSeconds now) := ⟨rfl, rfl, rfl, rfl, rfl⟩

theorem Begun.inPlace {job : Job} {worker : Text} (begun : Begun job worker db db')
    (keyed : Table.Keyed db.jobs) : InPlace db db' := by
  cases begun with
  | process holds =>
    exact (holds.inPlace keyed (sameJob_process _) rfl).trans (inPlace_setStatus _ _ _)
  | delete holds => exact holds.inPlace keyed (sameJob_process _) rfl

theorem Failed.inPlace {job : Job} {worker : Text} (failed : Failed job worker db db')
    (keyed : Table.Keyed db.jobs) : InPlace db db' := by
  cases failed with
  | process holds =>
    exact (holds.inPlace keyed (sameJob_fail ..) rfl).trans (inPlace_setStatus _ _ _)
  | other holds => exact holds.inPlace keyed (sameJob_fail ..) rfl

theorem Activated.inPlace {job : Job} {worker : Text} {versionId documentId : UUID}
    {records : List Rag.EmbeddedChunk}
    (activated : Activated job worker versionId documentId records db db')
    (keyed : Table.Keyed db.jobs) : InPlace db db' := by
  cases activated with
  | @mk _ row chunks holds replaced =>
    have chunked : InPlace db { db with chunks := chunks } := inPlace_chunks db chunks
    have updated : InPlace db ((({ db with chunks := chunks } : Database).setStatus versionId
        .active).updateDocument documentId
          fun document => { document with activeVersionId := some versionId }) :=
      (chunked.trans (inPlace_setStatus _ _ _)).trans
        (inPlace_updateDocument _ _ fun _ => ⟨rfl, rfl, fun deleted => deleted⟩)
    exact updated.trans (holds.inPlace keyed (sameJob_complete row) rfl)

theorem Swept.inPlace {job : Job} {worker : Text} (swept : Swept job worker db db')
    (keyed : Table.Keyed db.jobs) : InPlace db db' := by
  cases swept with
  | @mk _ row documentId holds payload =>
    apply (inPlace_chunks db (Rag.deleteDocumentChunks db.chunks job.workspaceId documentId)).trans
    exact holds.inPlace keyed (sameJob_complete row) rfl

end Rows

/-! ## One process moves -/

section Moves

variable [UnicodeTables] [Sha256] (env : Environment)

structure Moves (db : Database) (process : Process) (db' : Database) (process' : Process) :
    Prop where
  linked : Linked db'
  grows : Grows db db'
  ok : process'.Ok env db'
  /-- Only a document that the process has locked can be deleted. -/
  live : ∀ documentId, LiveRow db documentId →
    LiveRow db' documentId ∨ process.holds = some documentId ∧ process'.holds = none
  holds : ∀ documentId, process'.holds = some documentId →
    process.holds = some documentId ∨ process.wants db = some documentId ∧ LiveRow db' documentId

variable {env} {db : Database} {process process' : Process}

theorem Moves.still (linked : Linked db) (ok : process'.Ok env db)
    (holds : ∀ documentId, process'.holds = some documentId →
      process.holds = some documentId ∨ process.wants db = some documentId ∧ LiveRow db documentId) :
    Moves env db process db process' :=
  ⟨linked, .refl db, ok, fun _ live => .inl live, holds⟩

theorem Moves.inPlace {db' : Database} (linked : Linked db) (inPlace : InPlace db db')
    (ok : process'.Ok env db') (live : ∀ documentId, LiveRow db documentId → LiveRow db' documentId)
    (idle : process'.holds = none) : Moves env db process db' process' := by
  refine ⟨linked.inPlace inPlace, inPlace.grows, ok, fun _ row => .inl (live _ row), ?_⟩
  intro documentId holds
  rw [idle] at holds
  cases holds

end Moves

section Uploads

variable [UnicodeTables] [Sha256] {env : Environment} {db : Database} {call : UploadCall}

omit [UnicodeTables] [Sha256] in
theorem payload_of_version {job : Job} {documentId versionId : UUID} {version : DocumentVersion}
    (payload : job.payload.documentId = some documentId)
    (payload' : job.payload.documentVersionId = some versionId)
    (processes : Processes job version) : version.documentId = documentId ∧ version.id = versionId := by
  rw [processes.payload] at payload payload'
  exact ⟨Option.some.inj payload, Option.some.inj payload'⟩

omit [UnicodeTables] [Sha256] in
theorem jobOfKey_some {workspaceId : UUID} {jobType : JobType} {key : Text} {job : Job}
    (found : db.jobOfKey workspaceId jobType key = some job) :
    job ∈ db.jobs ∧ job.workspaceId = workspaceId ∧ job.jobType = jobType ∧
      job.idempotencyKey = key := by
  have selected := List.find?_some found
  simp only [Bool.and_eq_true, decide_eq_true_eq] at selected
  exact ⟨List.mem_of_find?_eq_some found, selected.1.1, selected.1.2, selected.2⟩

omit [UnicodeTables] [Sha256] in
theorem answers_of_replays {result : UploadResult} (linked : Linked db)
    (replays : call.Replays db result) : Answers call db result := by
  obtain ⟨found, ⟨documentId, payload, document⟩, versionId, payload', version⟩ := replays
  obtain ⟨member, workspace, process, key⟩ := jobOfKey_some found
  rw [version?_eq_some] at version
  rw [document?_eq_some] at document
  -- the version of the job is the one that the payload names
  obtain ⟨row, present, processes⟩ := linked.version _ member process
  obtain ⟨sameDocument, sameVersion⟩ := payload_of_version payload payload' processes
  have read := Table.lookup_of_mem linked.versions present
  rw [DocumentVersion.row_key, sameVersion, version.1] at read
  cases read
  have documentId : result.document.id = documentId := Table.key_of_lookup document.1
  exact ⟨storedJob_of_lookup (Table.lookup_of_mem linked.jobs member),
    storedVersion_of_lookup version.1, processes, workspace, key,
    sameDocument.trans documentId.symm⟩

omit [Sha256] in
/-- The document that an upload has found or made. -/
theorem documentOk_of_resolved {document : Document} {isNew : Bool}
    (resolved : call.resolved db = some (document, isNew)) :
    DocumentOk call db document isNew ∧ (isNew = false → LiveRow db document.id) := by
  rw [UploadCall.resolved] at resolved
  split at resolved
  next asked =>
    cases resolved
    refine ⟨.created asked rfl, fun isOld => ?_⟩
    cases isOld
  next documentId asked =>
    obtain ⟨found, live, same⟩ := Option.map_eq_some_iff.mp resolved
    cases same
    have row := live_iff.1 live
    have id : document.id = documentId := Table.key_of_lookup row.read
    subst id
    exact ⟨.selected asked row.stored, fun _ => row.row⟩

omit [Sha256] in
theorem DocumentOk.workspace {document : Document} {isNew : Bool} (linked : Linked db)
    (ok : DocumentOk call db document isNew)
    (fresh : isNew = true → Table.lookup db.documents document.id = none) :
    ∀ row ∈ db.documents ++ (if isNew then [document] else []), row.id = document.id →
      row.workspaceId = call.workspaceId := by
  intro row member same
  cases ok with
  | created _ new =>
    obtain before | last := List.mem_append.mp member
    · exact absurd same (Table.lookup_eq_none.1 (fresh rfl) row before)
    · rw [if_pos rfl, List.mem_singleton, new] at last
      rw [last]
      rfl
  | selected _ stored =>
    obtain ⟨found, read, workspace⟩ := stored
    simp only [Bool.false_eq_true, if_false, List.append_nil] at member
    have read' := Table.lookup_of_mem linked.documents member
    rw [Document.row_key, same, read] at read'
    cases read'
    exact workspace

omit [Sha256] in
theorem DocumentOk.asked {document : Document} {isNew : Bool}
    (ok : DocumentOk call db document isNew) :
    call.documentId = none ∧ document = call.newDocument ∨ call.documentId = some document.id := by
  cases ok with
  | created asked new => exact .inl ⟨asked, new⟩
  | selected asked _ => exact .inr asked

/-- The commit of an upload. -/
theorem moves_persisted {promotedKey promotedKey' : Option ObjectKey} {file : CheckedFile}
    {target : Target} (linked : Linked db) (ok : FileOk env call file)
    (targetOk : TargetOk call db target)
    (fits : UploadFits db target (newVersion call file.received file.mediaType target)
      (newJob env.service call target)) :
    Moves env db (.ofUpload ⟨call, promotedKey, .promoted file target⟩)
      (added db target (newVersion call file.received file.mediaType target)
        (newJob env.service call target))
      (.ofUpload ⟨call, promotedKey', .persisted ⟨target.document,
        newVersion call file.received file.mediaType target, newJob env.service call target⟩⟩) := by
  have workspace := targetOk.document.workspace linked fun isNew => (fits.document isNew).1
  refine ⟨linked.added fits rfl workspace ⟨rfl, rfl, rfl⟩, grows_added .., ⟨⟨?_, ?_, ⟨rfl, rfl, rfl⟩,
    rfl, rfl, rfl⟩, ⟨rfl, rfl, ?_, ?_, ?_⟩⟩, ?_, nofun⟩
  · have read := Table.lookup_append_of_none (k := Row.key (newJob env.service call target))
      fits.job.id
    rw [if_pos rfl] at read
    exact storedJob_of_lookup read
  · have read := Table.lookup_append_of_none
      (k := Row.key (newVersion call file.received file.mediaType target)) fits.version.id
    rw [if_pos rfl] at read
    exact storedVersion_of_lookup read
  · simp only [newVersion, ok.received, Received.of]
  · simp only [newVersion, ok.received, Received.of]
  · exact targetOk.document.asked
  · rintro documentId ⟨document, read, undeleted⟩
    exact .inl ⟨document, lookup_append_some read, undeleted⟩

theorem moves_upload {promotedKey promotedKey' : Option ObjectKey} {phase phase' : UploadPhase}
    {stores stores' : Stores} (linked : Linked stores.db) (ok : phase.Ok env call stores.db)
    (step : UploadStep env call promotedKey phase stores promotedKey' phase' stores') :
    Moves env stores.db (.ofUpload ⟨call, promotedKey, phase⟩) stores'.db
      (.ofUpload ⟨call, promotedKey', phase'⟩) := by
  cases step with
  | replayed replays => exact .still linked (answers_of_replays linked replays) nofun
  | refused | opened | dropped | undone | raised | stopped =>
    exact .still linked trivial nofun
  | received mediaType accepted => exact .still linked ⟨rfl, accepted⟩ nofun
  | admitted received mediaType within =>
    obtain ⟨rfl, accepted⟩ := ok
    exact .still linked ⟨rfl, accepted, within⟩ nofun
  | resolved file document isNew resolved =>
    obtain ⟨documentOk, live⟩ := documentOk_of_resolved resolved
    refine .still linked ⟨ok, documentOk⟩ fun documentId holds => .inr ?_
    -- the upload holds a document that exists, and it wants it before
    cases isNew with
    | true => cases holds
    | false =>
      cases holds
      exact ⟨by simp [Process.wants, resolved], live rfl⟩
  | numbered file document isNew =>
    refine .still linked ⟨ok.1, ok.2, ?_⟩ fun _ holds => .inl holds
    simp only [UploadCall.target]
    split
    · exact Nat.succ_le_succ (Nat.zero_le _)
    · exact Nat.le_refl _
  | distinct file target => exact .still linked ok fun _ holds => .inl holds
  | promoted file target content staged => exact .still linked ok fun _ holds => .inl holds
  | persisted file target fits => exact moves_persisted linked ok.1 ok.2 fits
  | returned result => exact .still linked ok.1 nofun

end Uploads

/-! ## Tasks -/

section Tasks

variable [UnicodeTables] [Sha256] {env : Environment} {db db' : Database} {job : Job}
  {worker : Jobs.WorkerId}

omit [UnicodeTables] [Sha256] in
/-- The version that the payload of a stored job names is the one it processes. -/
theorem processes_of_names {version : DocumentVersion} (linked : Linked db)
    (stored : StoredJob db job) (process : job.jobType = .processDocument)
    (names : Names db job.workspaceId job.payload version) : Processes job version := by
  obtain ⟨row, found, same⟩ := stored
  obtain ⟨other, present, processes⟩ := linked.version row (Table.mem_of_lookup found)
    (same.jobType.trans process)
  have links := processes.of_same same
  obtain ⟨read, workspace⟩ := version?_eq_some.1 names.read
  have id : other.id = version.id := by
    have payload := names.payload
    rw [links.payload] at payload
    exact Option.some.inj payload
  have read' := Table.lookup_of_mem linked.versions present
  rw [DocumentVersion.row_key, id, read] at read'
  cases read'
  exact links

omit [UnicodeTables] [Sha256] in
/-- The row of a located version. -/
theorem LocatedOk.documentId {located : Located} {version : DocumentVersion}
    (ok : LocatedOk db job located)
    (read : Table.lookup db.versions located.versionId = some version) :
    version.documentId = located.documentId := by
  obtain ⟨found, title, rfl, ⟨row, read', same⟩, -⟩ := ok.version
  have agree : row = version := Option.some.inj (read'.symm.trans read)
  rw [← agree, same.documentId]
  rfl

theorem moves_task {phase phase' : TaskPhase} {stores stores' : Stores}
    (linked : Linked stores.db) (stored : StoredJob stores.db job)
    (ok : phase.Ok env job stores.db)
    (step : TaskStep env job worker.name phase stores phase' stores') :
    Moves env stores.db (.ofTask ⟨job, worker, phase⟩) stores'.db
      (.ofTask ⟨job, worker, phase'⟩) := by
  cases step with
  | begun db begun =>
    have inPlace := begun.inPlace linked.jobs
    refine .inPlace linked inPlace ⟨stored.mono inPlace.grows, trivial⟩ (fun _ live => ?_) rfl
    cases begun <;> exact live.of_documents rfl
  | located version document process names live =>
    have processes := processes_of_names linked stored process names
    obtain ⟨read, -⟩ := version?_eq_some.1 names.read
    exact .still linked ⟨stored, version, document.displayName, rfl, storedVersion_of_lookup read,
      processes⟩ nofun
  | listed documentId delete payload => exact .still linked ⟨stored, delete⟩ nofun
  | statted located => exact .still linked ⟨stored, ok⟩ nofun
  | loaded located content size digest =>
    exact .still linked ⟨stored, ok, size, digest⟩ nofun
  | indexed located content run records ran =>
    exact .still linked ⟨stored, ok.1, ok.2, run, ran⟩ nofun
  | locked located content records version document found live =>
    have same := ok.1.documentId (version?_eq_some.1 found).1
    -- the document that the task now locks was live when it read it
    refine .still linked ⟨stored, ok.1, ok.2.1, ok.2.2, same⟩ fun documentId holds => .inr ?_
    cases holds
    exact ⟨by simp [Process.wants, found], live.row⟩
  | activated located content records documentId db activated =>
    have inPlace := activated.inPlace linked.jobs
    refine .inPlace linked inPlace ⟨stored.mono inPlace.grows, trivial⟩ (fun _ live => ?_) rfl
    cases activated with
    | @mk _ row chunks =>
      have chunked : LiveRow ({ stores.db with chunks := chunks }.setStatus located.versionId
          .active) _ := live.of_documents rfl
      have updated : LiveRow (Database.updateDocument _ documentId fun document =>
          { document with activeVersionId := some located.versionId }) _ :=
        chunked.updateDocument (fun _ => rfl) fun _ _ undeleted => undeleted
      exact updated.of_documents rfl
  | erased key keys => exact .still linked ⟨stored, ok⟩ nofun
  | swept db swept =>
    have inPlace := swept.inPlace linked.jobs
    refine .inPlace linked inPlace ⟨stored.mono inPlace.grows, trivial⟩ (fun _ live => ?_) rfl
    cases swept
    exact live.of_documents rfl
  | stopped => exact .still linked ⟨stored, trivial⟩ nofun
  | failed db failed =>
    have inPlace := failed.inPlace linked.jobs
    refine .inPlace linked inPlace ⟨stored.mono inPlace.grows, trivial⟩ (fun _ live => ?_) rfl
    cases failed <;> exact live.of_documents rfl
  | ended => exact .still linked ⟨stored, trivial⟩ nofun

end Tasks

/-! ## The other requests -/

section Requests

variable [UnicodeTables] [Sha256] {env : Environment} {stores stores' : Stores}

omit [UnicodeTables] [Sha256] in
theorem inPlace_deleted (db : Database) (documentId : UUID) (now : Nat) :
    InPlace db (db.updateDocument documentId fun document =>
      { document with deletedAt := some now, activeVersionId := none }) :=
  inPlace_updateDocument _ _ fun _ => ⟨rfl, rfl, fun _ => Option.some_ne_none now⟩

omit [UnicodeTables] [Sha256] in
theorem grows_deletedDb (db : Database) (documentId : UUID) (now : Nat) (job : Job) :
    Grows db (deletedDb db documentId now job) := by
  apply (inPlace_deleted db documentId now).grows.trans
  exact grows_insertJob _ _

omit [UnicodeTables] [Sha256] in
theorem linked_deletedDb {db : Database} {deletion : Deletion} {documentId : UUID} {now : Nat}
    (linked : Linked db) (stored : StoredDocument db deletion.workspaceId documentId)
    (fits : Database.JobFits db.jobs (deletionJob deletion documentId now)) :
    Linked (deletedDb db documentId now (deletionJob deletion documentId now)) := by
  obtain ⟨document, read, workspace⟩ := stored
  have id : document.id = documentId := Table.key_of_lookup read
  have updated := linked.inPlace (inPlace_deleted db documentId now)
  have present : { document with deletedAt := some now, activeVersionId := none } ∈
      (db.updateDocument documentId fun document =>
        { document with deletedAt := some now, activeVersionId := none }).documents := by
    apply List.mem_map.mpr
    exact ⟨document, Table.mem_of_lookup read, by simp [id]⟩
  apply updated.insertDelete fits rfl present
  exact ⟨by rw [← id]; rfl, workspace, Option.some_ne_none now⟩

theorem moves_deletion {deletion : Deletion} {phase : RequestPhase} (linked : Linked stores.db)
    (ok : (Process.ofDeletion deletion).Ok env stores.db)
    (step : DeletionStep deletion deletion.phase stores phase stores') :
    Moves env stores.db (.ofDeletion deletion) stores'.db
      (.ofDeletion { deletion with phase := phase }) := by
  generalize before : deletion.phase = phase₀ at step
  cases step with
  | selected document live =>
    refine .still linked ?_ fun documentId holds => .inr ?_
    · intro documentId selected
      cases selected
      exact ⟨rfl, live.stored⟩
    · cases holds
      have id : document.id = deletion.documentId := Table.key_of_lookup live.read
      have wants : Process.wants (.ofDeletion deletion) stores.db = some deletion.documentId := by
        simp [Process.wants, before, selectLive_ok.2 live, Except.toOption, id]
      exact ⟨wants, live.row⟩
  | deleted documentId now fits =>
    obtain ⟨-, stored⟩ := ok documentId before
    refine ⟨linked_deletedDb linked stored fits, grows_deletedDb .., nofun, fun other live => ?_,
      nofun⟩
    -- the deleted document is no longer live, and the deletion holds it
    by_cases here : other = documentId
    · subst here
      exact .inr ⟨by simp [Process.holds, RequestPhase.holds, before], rfl⟩
    · have spared : LiveRow (stores.db.updateDocument documentId fun document =>
          { document with deletedAt := some now, activeVersionId := none }) other :=
        live.updateDocument (fun _ => rfl) fun same => absurd same here
      exact .inl (spared.of_documents rfl)
  | raised => exact .still linked nofun nofun

theorem moves_update {update : Update} {phase : RequestPhase} (linked : Linked stores.db)
    (step : UpdateStep update update.phase stores phase stores') :
    Moves env stores.db (.ofUpdate update) stores'.db (.ofUpdate { update with phase := phase }) := by
  generalize before : update.phase = phase₀ at step
  cases step with
  | selected document live => exact .still linked trivial nofun
  | renamed documentId named =>
    refine .inPlace linked ?_ trivial (fun _ live => ?_) rfl
    · exact inPlace_updateDocument _ _ fun _ => ⟨rfl, rfl, fun deleted => deleted⟩
    · exact live.updateDocument (fun _ => rfl) fun _ _ undeleted => undeleted
  | raised => exact .still linked trivial nofun

theorem moves_process {process process' : Process} (linked : Linked stores.db)
    (ok : process.Ok env stores.db) (step : ProcessStep env process stores process' stores') :
    Moves env stores.db process stores'.db process' := by
  cases step with
  | upload step => exact moves_upload linked ok step
  | task step => exact moves_task linked ok.1 ok.2 step
  | deletion step => exact moves_deletion linked ok step
  | update step => exact moves_update linked step
  | crashed => exact .still linked trivial nofun

end Requests

/-! ## The whole system -/

section Systems

variable [UnicodeTables] [Sha256] (env : Environment)

omit [UnicodeTables] [Sha256] in
/-- A claimed job is the row that the claim wrote. -/
theorem lookup_of_claimed {jobs : List Job} {worker : Text} {batchSize leaseSeconds now : Nat}
    {locked : List UUID} {job : Job} (keyed : Table.Keyed jobs)
    (claimed : job ∈ (Jobs.claimJobs jobs worker batchSize leaseSeconds now locked).1) :
    Table.lookup (Jobs.claimJobs jobs worker batchSize leaseSeconds now locked).2 job.id =
      some job := by
  obtain ⟨row, selected, rfl⟩ := List.mem_map.mp claimed
  have read := Table.lookup_of_mem keyed (Jobs.mem_selectClaimable selected).1
  rw [Job.row_key] at read
  rw [Jobs.lookup_claimJobs, Jobs.lease_id, read, Option.map_some, if_pos]
  exact List.any_eq_true.mpr ⟨row, selected, decide_eq_true rfl⟩

/-- The process has locked the document. -/
def Locks (process : Process) (documentId : UUID) : Prop := process.holds = some documentId

structure Wf (s : System) : Prop where
  linked : Linked s.stores.db
  exclusive : Exclusive Locks s.processes
  live : ∀ process ∈ s.processes, ∀ documentId, Locks process documentId →
    LiveRow s.stores.db documentId
  ok : ∀ process ∈ s.processes, process.Ok env s.stores.db

variable {env} {s t : System}

theorem wf_empty : Wf env .empty := by
  refine ⟨linked_empty, .nil, ?_, ?_⟩
  · exact fun _ member => nomatch member
  · exact fun _ member => nomatch member

theorem isNew_ok {process : Process} (isNew : process.isNew = true) (db : Database) :
    process.Ok env db ∧ process.holds = none := by
  unfold Process.isNew at isNew
  split at isNew
  · exact ⟨trivial, rfl⟩
  · exact ⟨nofun, rfl⟩
  · exact ⟨trivial, rfl⟩
  · cases isNew

/-- Rows are rewritten, and idle processes start. -/
theorem Wf.started {db : Database} {started : List Process} {drawn : List UUID} (wf : Wf env s)
    (inPlace : InPlace s.stores.db db)
    (live : ∀ documentId, LiveRow s.stores.db documentId → LiveRow db documentId)
    (ok : ∀ process ∈ started, process.Ok env db)
    (idle : ∀ process ∈ started, process.holds = none) :
    Wf env ⟨⟨db, s.stores.objects⟩, s.processes ++ started, drawn⟩ := by
  have idle' : ∀ process ∈ started, ∀ documentId, ¬ Locks process documentId := by
    intro process member documentId locks
    rw [Locks, idle process member] at locks
    cases locks
  refine ⟨wf.linked.inPlace inPlace, wf.exclusive.append_idle idle', ?_, ?_⟩
  · intro process member documentId locks
    obtain before | new := List.mem_append.mp member
    · exact live documentId (wf.live process before documentId locks)
    · exact absurd locks (idle' process new documentId)
  · intro process member
    obtain before | new := List.mem_append.mp member
    · exact (wf.ok process before).mono inPlace.grows
    · exact ok process new

theorem Wf.written {db : Database} (wf : Wf env s) (inPlace : InPlace s.stores.db db)
    (live : ∀ documentId, LiveRow s.stores.db documentId → LiveRow db documentId) :
    Wf env { s with stores := ⟨db, s.stores.objects⟩ } where
  linked := wf.linked.inPlace inPlace
  exclusive := wf.exclusive
  live process member documentId locks := live documentId (wf.live process member documentId locks)
  ok process member := (wf.ok process member).mono inPlace.grows

/-- A process moves, and acquires only what is free. -/
theorem Wf.moved {i : Nat} {process process' : Process} {stores : Stores} (wf : Wf env s)
    (found : s.processes[i]? = some process)
    (moves : Moves env s.stores.db process stores.db process')
    (free : ∀ documentId, process'.holds = some documentId → process.holds = some documentId ∨
      ∀ j other, j ≠ i → s.processes[j]? = some other → ¬ Locks other documentId) :
    Wf env ⟨stores, s.processes.set i process', s.drawn⟩ := by
  have exclusive : Exclusive Locks (s.processes.set i process') := wf.exclusive.set found free
  refine ⟨moves.linked, exclusive, ?_, ?_⟩
  · intro other member documentId locks
    obtain ⟨j, read⟩ := List.getElem?_of_mem member
    obtain ⟨rfl, rfl⟩ | ⟨differs, before⟩ := getElem?_of_set read
    · -- the lock of the process that moved
      obtain held | ⟨-, live⟩ := moves.holds documentId locks
      · obtain live | ⟨-, idle⟩ :=
          moves.live documentId (wf.live _ (List.mem_of_getElem? found) documentId held)
        · exact live
        · rw [Locks, idle] at locks
          cases locks
      · exact live
    · obtain live | ⟨held, -⟩ :=
        moves.live documentId (wf.live other (List.mem_of_getElem? before) documentId locks)
      · exact live
      · exact absurd (wf.exclusive j i other process documentId before found locks held) differs
  · intro other member
    obtain rfl | before := mem_of_set member
    · exact moves.ok
    · exact (wf.ok other before).mono moves.grows

theorem wf_next {event : Event} (wf : Wf env s) (step : Next env s event t) : Wf env t := by
  cases step with
  | spawned process isNew distinct fresh =>
    have started : process.Ok env s.stores.db ∧ process.holds = none := isNew_ok isNew s.stores.db
    apply wf.started (.refl _) (fun _ live => live)
    · intro other member
      cases List.mem_singleton.mp member
      exact started.1
    · intro other member
      cases List.mem_singleton.mp member
      exact started.2
  | claimed worker batchSize leaseSeconds now locked =>
    have inPlace := inPlace_claimJobs s.stores.db worker.name batchSize leaseSeconds now locked
    apply wf.started inPlace (fun _ live => live.of_documents rfl)
    · intro process member
      obtain ⟨job, claimed, rfl⟩ := List.mem_map.mp member
      exact ⟨storedJob_of_lookup (lookup_of_claimed wf.linked.jobs claimed), trivial⟩
    · intro process member
      obtain ⟨job, -, rfl⟩ := List.mem_map.mp member
      rfl
  | moved i input process process' stores found unblocked step =>
    have moves := moves_process wf.linked (wf.ok process (List.mem_of_getElem? found)) step
    apply wf.moved found moves
    -- what the process holds now was held before, or it was wanted and nothing blocked it
    intro documentId holds
    obtain held | ⟨wants, -⟩ := moves.holds documentId holds
    · exact .inl held
    · exact .inr (unblocked documentId wants)
  | halted i process process' found idle step =>
    have moves := moves_process wf.linked (wf.ok process (List.mem_of_getElem? found)) step
    apply wf.moved found moves
    intro documentId holds
    rw [idle] at holds
    cases holds
  | renewed job worker row now leaseSeconds later holds =>
    have inPlace : InPlace s.stores.db (saveJob s.stores.db (row.renew leaseSeconds later)) :=
      holds.inPlace wf.linked.jobs ⟨rfl, rfl, rfl, rfl, rfl⟩ rfl
    exact wf.written inPlace fun _ live => live.of_documents rfl
  | retried row now read stopped =>
    have inPlace : InPlace s.stores.db (saveJob s.stores.db (row.retry now)) :=
      inPlace_saveJob wf.linked.jobs read ⟨rfl, rfl, rfl, rfl, rfl⟩
    exact wf.written inPlace fun _ live => live.of_documents rfl
  | purged keys => exact ⟨wf.linked, wf.exclusive, wf.live, wf.ok⟩
  | stuttered => exact wf

end Systems

end SupportPilot.Lifecycle
