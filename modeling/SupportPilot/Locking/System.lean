import SupportPilot.Lib.ReadCommitted
import SupportPilot.Lib.Transition
import SupportPilot.Worker.Main

/-! # The row locks of the lifecycle transactions

The transactions of the worker, of `delete_document` and of `upload_document_version`, one
statement at a time, over the rows of `jobs`, `document_versions` and `documents`.
`FOR UPDATE`, an `UPDATE` and an `INSERT` lock the row until the transaction ends; a
statement whose row another transaction has locked is not enabled, and `Waits` says so.
`SKIP LOCKED` passes over such rows.

An attribute that is set to the value it has is not flushed: `begin_processing` and `fail_job`
update the version only where its status differs.  Rows of `document_chunks` are written by
the holder of the version's lock only, and are left out.  A transaction may fail, and be rolled
back, at any point, and clock readings are arguments, so leases run out between any two
steps. -/

namespace SupportPilot.Locking

open Lib Table Worker

abbrev TxId := Nat

inductive RowKey where
  | job (id : UUID) | version (id : UUID) | document (id : UUID)
  deriving DecidableEq

inductive TableRow where
  | job (row : Job) | version (row : DocumentVersion) | document (row : Document)
  deriving DecidableEq

def TableRow.key : TableRow → RowKey
  | .job row => .job row.id
  | .version row => .version row.id
  | .document row => .document row.id

instance : Row TableRow RowKey := ⟨TableRow.key⟩

/-- What the owner of a lease does with its job in a transaction of its own. -/
inductive Update where
  /-- `begin_processing` -/
  | begin
  /-- `renew_document_lease` -/
  | renew (leaseSeconds : Nat)
  /-- `fail_job` -/
  | fail (errorMessage : Text) (jitter : Nat)

namespace Update

def write (later : Nat) : Update → Job → Job
  | begin => Job.process
  | renew leaseSeconds => Job.renew leaseSeconds later
  | fail errorMessage jitter =>
    Job.fail "processing_failed".toList errorMessage true (fun _ => jitter) later

/-- The status that the transaction gives the version of the job, as it has written it. -/
def status (job : Job) : Update → Option DocumentVersionStatus
  | begin => some .processing
  | renew _ => none
  | fail _ _ => some (if job.state ∈ [JobState.failed, .deadLetter] then .failed else .queued)

end Update

inductive Program where
  | update (job : Job) (worker : Text) (update : Update)
  /-- The final transaction of `finish_document_job`. -/
  | finish (job : Job) (worker : Text) (versionId : UUID)
  | claimJobs (worker : Text) (batchSize leaseSeconds : Nat)
  | deleteDocument (workspaceId documentId : UUID)
  | upload (workspaceId : UUID) (documentId : Option UUID)

/-- Where a transaction stands: the statement it comes to next. -/
inductive Phase where
  | idle
  /-- `require_owned_job` of `begin_processing`, `fail_job` or a renewal. -/
  | owning (job : Job) (worker : Text) (update : Update)
  /-- The `session.get` of the version, with the status to set. -/
  | readingVersion (job : Job) (update : Update) (versionId : UUID) (status : DocumentVersionStatus)
  | updatingVersion (version : DocumentVersion) (status : DocumentVersionStatus)
  /-- The three locks of `finish_document_job`. -/
  | lockingVersion (job : Job) (worker : Text) (versionId : UUID)
  | lockingDocument (job : Job) (worker : Text) (version : DocumentVersion)
  | replacing (job : Job) (worker : Text) (version : DocumentVersion) (document : Document)
  | completing (job : Job) (worker : Text) (version : DocumentVersion) (document : Document)
  | claiming (worker : Text) (batchSize leaseSeconds : Nat)
  /-- The `SELECT … FOR UPDATE` of `delete_document`, or of an upload to a document. -/
  | selecting (workspaceId documentId : UUID) (deletes : Bool)
  | deleting (document : Document)
  | uploading (workspaceId : UUID) (document : Option Document)
  /-- Nothing is left but the commit. -/
  | ready
  | raised (error : PyError)

structure State where
  store : Store TxId RowKey TableRow
  phases : TxId → Phase

inductive Statement where
  | start (program : Program)
  | lockJob (now later : Nat)
  | readVersion
  | updateVersion
  | lockVersion
  | lockDocument
  /-- `replace_version`, which may raise, and the flush of the version. -/
  | replaceVersion (stored : Bool)
  | claimJobs (now : Nat)
  | deleteDocument (jobId : UUID) (now : Nat)
  | insert (document : Document) (version : DocumentVersion) (jobId : UUID) (key : Text)
      (maxAttempts now : Nat)
  | commit
  | rollback

structure Event where
  tx : TxId
  statement : Statement

/-! ## The rows a transaction sees -/

section Rows

variable (rows : List TableRow)

def jobs : List Job :=
  rows.filterMap fun
    | .job row => some row
    | _ => none

def version? (workspaceId id : UUID) : Option DocumentVersion :=
  match lookup rows (RowKey.version id) with
  | some (.version row) => if row.workspaceId = workspaceId then some row else none
  | _ => none

def document? (workspaceId id : UUID) : Option Document :=
  match lookup rows (RowKey.document id) with
  | some (.document row) => if row.workspaceId = workspaceId then some row else none
  | _ => none

end Rows

theorem id_of_version? {rows : List TableRow} {workspaceId id : UUID} {version : DocumentVersion}
    (found : version? rows workspaceId id = some version) : version.id = id := by
  unfold version? at found
  split at found
  next known =>
    split at found
    · cases found
      have key : RowKey.version version.id = RowKey.version id := key_of_lookup known
      exact RowKey.version.inj key
    · cases found
  next => cases found

namespace State

/-- No transaction is open. -/
def start (rows : List TableRow) : State := ⟨⟨rows, fun _ => none, fun _ => []⟩, fun _ => .idle⟩

def enter (s : State) (tx : TxId) (store : Store TxId RowKey TableRow) (phase : Phase) : State :=
  ⟨store, Function.update s.phases tx phase⟩

section Enter

variable {s : State} {tx other : TxId} {store : Store TxId RowKey TableRow} {phase : Phase}

@[simp] theorem phases_enter : (s.enter tx store phase).phases tx = phase :=
  Function.update_self ..

theorem phases_enter_of_ne (differ : other ≠ tx) :
    (s.enter tx store phase).phases other = s.phases other :=
  Function.update_of_ne differ ..

end Enter

/-- No row has this key. -/
def unused (s : State) (k : RowKey) : Bool :=
  s.store.locks k = none && lookup s.store.committed k = none

/-- `require_owned_job`, and for the owner the flush of the job and of the rows that were
changed before; sessions do not flush on their own. -/
def lockJob (s : State) (tx : TxId) (jobId : UUID) (worker : Text) (now : Nat) (write : Job → Job)
    (changed : List TableRow) (phase : Job → Phase) : Option State :=
  match lookup (jobs s.store.committed) jobId with
  | none => some (s.enter tx s.store (.raised (.notFound "job not found")))
  | some _ =>
    if s.store.free tx (.job jobId) then
      let store := s.store.lock tx (.job jobId)
      match Jobs.requireOwnedJob (jobs s.store.committed) jobId worker now with
      | .error error => some (s.enter tx store (.raised error))
      | .ok owned =>
        let rows := changed ++ [.job (write owned)]
        some (s.enter tx (rows.foldl (Store.write · tx) store) (phase (write owned)))
    else none

/-- Where a transaction of the owner goes once the job is written. -/
def afterUpdate (update : Update) (job : Job) : Phase :=
  match update.status job with
  | none => .ready
  | some status =>
    if job.jobType = .processDocument then
      match payloadVersion job.payload with
      | .error error => .raised error
      | .ok versionId => .readingVersion job update versionId status
    else .ready

/-- `version is None`: `begin_processing` raises, and `fail_job` goes on. -/
def withoutVersion : Update → Phase
  | .begin => .raised (.runtimeError "document version does not exist")
  | _ => .ready

def readVersion (s : State) (tx : TxId) (job : Job) (update : Update) (versionId : UUID)
    (status : DocumentVersionStatus) : State :=
  match version? s.store.committed job.workspaceId versionId with
  | none => s.enter tx s.store (withoutVersion update)
  | some version =>
    s.enter tx s.store (if version.status = status then .ready else .updatingVersion version status)

def updateVersion (s : State) (tx : TxId) (version : DocumentVersion)
    (status : DocumentVersionStatus) : Option State :=
  if s.store.free tx (.version version.id) then
    some (s.enter tx (s.store.write tx (.version { version with status })) .ready)
  else none

def lockVersion (s : State) (tx : TxId) (job : Job) (worker : Text) (versionId : UUID) :
    Option State :=
  match version? s.store.committed job.workspaceId versionId with
  | none =>
    some (s.enter tx s.store (.raised (.runtimeError "document version does not exist")))
  | some version =>
    if s.store.free tx (.version versionId) then
      some (s.enter tx (s.store.lock tx (.version versionId)) (.lockingDocument job worker version))
    else none

def lockDocument (s : State) (tx : TxId) (job : Job) (worker : Text) (version : DocumentVersion) :
    Option State :=
  let missing : Phase := .raised (.runtimeError "document is missing or deleted")
  match document? s.store.committed job.workspaceId version.documentId with
  | none => some (s.enter tx s.store missing)
  | some document =>
    if s.store.free tx (.document version.documentId) then
      some (s.enter tx (s.store.lock tx (.document version.documentId))
        (if document.deletedAt = none then .replacing job worker version document else missing))
    else none

def replaceVersion (s : State) (tx : TxId) (job : Job) (worker : Text) (version : DocumentVersion)
    (document : Document) (stored : Bool) : State :=
  if stored then
    s.enter tx (s.store.write tx (.version { version with status := .active }))
      (.completing job worker version document)
  else s.enter tx s.store (.raised raiseException)

/-- The selected rows are locked and written; those that others have locked are skipped. -/
def claimJobs (s : State) (tx : TxId) (worker : Text) (batchSize leaseSeconds now : Nat) : State :=
  let table := jobs s.store.committed
  let locked := (table.map Job.id).filter fun id => !s.store.free tx (.job id)
  let claimed := (Jobs.claimJobs table worker batchSize leaseSeconds now locked).1
  s.enter tx ((claimed.map TableRow.job).foldl (Store.write · tx) s.store) .ready

/-- `delete_document` and `upload_document_version` select a live document. -/
def selectDocument (s : State) (tx : TxId) (workspaceId documentId : UUID) (deletes : Bool) :
    Option State :=
  match (document? s.store.committed workspaceId documentId).filter fun document =>
      document.deletedAt = none with
  | none => some (s.enter tx s.store (.raised (.notFound "document not found")))
  | some document =>
    if s.store.free tx (.document documentId) then
      some (s.enter tx (s.store.lock tx (.document documentId))
        (if deletes then .deleting document else .uploading workspaceId (some document)))
    else none

def deleteDocument (s : State) (tx : TxId) (document : Document) (jobId : UUID) (now : Nat) :
    Option State :=
  if s.unused (.job jobId) then
    let deleted := { document with deletedAt := some now, activeVersionId := none }
    let job := Job.new jobId document.workspaceId .deleteObject ⟨some document.id, none⟩
      (Documents.deleteKey document.id) 5 now
    some (s.enter tx ((s.store.write tx (.document deleted)).write tx (.job job)) .ready)
  else none

/-- The rows of an upload; a document that was not selected is new. -/
def insert (s : State) (tx : TxId) (workspaceId : UUID) (selected : Option Document)
    (document : Document) (version : DocumentVersion) (jobId : UUID) (key : Text)
    (maxAttempts now : Nat) : Option State :=
  if s.unused (.version version.id) && s.unused (.job jobId) && version.documentId = document.id &&
      version.status = .queued && version.workspaceId = workspaceId then
    let job := Job.new jobId workspaceId .processDocument ⟨some document.id, some version.id⟩ key
      maxAttempts now
    let store := (s.store.write tx (.version version)).write tx (.job job)
    match selected with
    | some existing => if existing = document then some (s.enter tx store .ready) else none
    | none =>
      if s.unused (.document document.id) then
        some (s.enter tx (store.write tx (.document document)) .ready)
      else none
  else none

end State

def Program.first : Program → Phase
  | .update job worker operation => .owning job worker operation
  | .finish job worker versionId => .lockingVersion job worker versionId
  | .claimJobs worker batchSize leaseSeconds => .claiming worker batchSize leaseSeconds
  | .deleteDocument workspaceId documentId => .selecting workspaceId documentId true
  | .upload workspaceId (some documentId) => .selecting workspaceId documentId false
  | .upload workspaceId none => .uploading workspaceId none

def next (s : State) (event : Event) : Option State :=
  let tx := event.tx
  match s.phases tx, event.statement with
  | .idle, .start program => some (s.enter tx s.store program.first)
  | .owning job worker update, .lockJob now later =>
    s.lockJob tx job.id worker now (update.write later) [] (State.afterUpdate update)
  | .readingVersion job update versionId status, .readVersion =>
    some (s.readVersion tx job update versionId status)
  | .updatingVersion version status, .updateVersion => s.updateVersion tx version status
  | .lockingVersion job worker versionId, .lockVersion => s.lockVersion tx job worker versionId
  | .lockingDocument job worker version, .lockDocument => s.lockDocument tx job worker version
  | .replacing job worker version document, .replaceVersion stored =>
    some (s.replaceVersion tx job worker version document stored)
  | .completing job worker version document, .lockJob now _ =>
    let changed := { document with activeVersionId := some version.id }
    s.lockJob tx job.id worker now Job.complete [.document changed] fun _ => .ready
  | .claiming worker batchSize leaseSeconds, .claimJobs now =>
    some (s.claimJobs tx worker batchSize leaseSeconds now)
  | .selecting workspaceId documentId deletes, .lockDocument =>
    s.selectDocument tx workspaceId documentId deletes
  | .deleting document, .deleteDocument jobId now => s.deleteDocument tx document jobId now
  | .uploading workspaceId selected, .insert document version jobId key maxAttempts now =>
    s.insert tx workspaceId selected document version jobId key maxAttempts now
  | .ready, .commit => some (s.enter tx (s.store.commit tx) .idle)
  | _, .rollback => some (s.enter tx (s.store.rollback tx) .idle)
  | _, _ => none

/-! ## Waiting -/

/-- The row whose lock the next statement needs. -/
def Phase.wants : Phase → Option RowKey
  | owning job _ _ | completing job _ _ _ => some (.job job.id)
  | updatingVersion version _ => some (.version version.id)
  | lockingVersion _ _ versionId => some (.version versionId)
  | lockingDocument _ _ version => some (.document version.documentId)
  | selecting _ documentId _ => some (.document documentId)
  | _ => none

def Waits (s : State) (tx : TxId) (k : RowKey) : Prop :=
  (s.phases tx).wants = some k

def Holds (s : State) (tx : TxId) (k : RowKey) : Prop :=
  s.store.locks k = some tx

end SupportPilot.Locking
