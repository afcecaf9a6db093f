import SupportPilot.Tenancy.Updates

/-! # The transactions of the worker

`packages/jobs/service.py` and the transactions of `apps/worker/main.py`, statement by statement.
Apart from the claim they run for the workspace of the job, and find versions, documents and jobs by
their key alone: that they stay in this workspace is up to the policies.

`clock` is what `datetime.now(UTC)` returns, and `now` the time of the transaction. -/

namespace SupportPilot.Tenancy

open Lib Workspaces

/-- `SERVICE_USER_ID`. -/
def serviceUserId : UUID := 0

/-- `UUID(payload[…])`; a missing key is a `KeyError`. -/
def ofExcept {α : Type} : Except PyError α → Handler α
  | .ok a => pure a
  | .error error => throw (.raised error)

/-! ## Changed rows -/

/-- The flush of a job, if the assignments change it. -/
def flushJob (now : Nat) (job : JobRow) (write : Job → Job)
    (keeps : ∀ row : JobRow, SameKey .jobs row ⟨write row.toJob, now⟩) : Handler Job :=
  if write job.toJob = job.toJob then pure job.toJob
  else do
    flushRow .jobs (fun row => row.id = job.id)
      (fun row => ⟨write row.toJob, now⟩) keeps
    return write job.toJob

/-- `version.status = status`, flushed. -/
def flushStatus (now : Nat) (version : VersionRow) (status : DocumentVersionStatus) :
    Handler Unit :=
  if version.status = status then pure ()
  else flushRow .documentVersions (fun row => row.id = version.id)
    (fun row => { row with status, updatedAt := now }) fun _ => rfl

/-- `document.active_version_id = version.id`, flushed. -/
def flushActive (now : Nat) (document : DocumentRow) (versionId : UUID) : Handler Unit :=
  if document.activeVersionId = some versionId then pure ()
  else flushRow .documents (fun row => row.id = document.id)
    (fun row => { row with activeVersionId := some versionId, updatedAt := now }) fun _ => rfl

/-! ## Jobs -/

section Jobs

variable (now clock : Nat) (jobId : UUID) (workerId : Text)

/-- `require_owned_job`. -/
def requireOwnedJob : Handler JobRow := do
  let found ← scalar .jobs fun row => row.id = jobId
  let job ← raiseUnless found (.raised (.notFound "job not found"))
  if job.leaseOwner ≠ some workerId ∨ job.state ∉ [JobState.leased, .processing] then
    throw (.raised (.conflict "job lease is no longer owned by this worker"))
  else if job.leaseExpiresAt.all (· ≤ clock) then
    throw (.raised (.conflict "job lease has expired"))
  else return job

/-- Check ownership, and flush what the holder of the lease writes. -/
def updateOwnedJob (write : Job → Job)
    (keeps : ∀ row : JobRow, SameKey .jobs row ⟨write row.toJob, now⟩) : Handler Job := do
  let job ← requireOwnedJob clock jobId workerId
  flushJob now job write keeps

def markProcessing : Handler Job :=
  updateOwnedJob now clock jobId workerId Job.process fun _ => rfl

def renewLease (leaseSeconds later : Nat) : Handler Job :=
  updateOwnedJob now clock jobId workerId (Job.renew leaseSeconds later) fun _ => rfl

/-- `mark_completed`, with its `session.refresh`. -/
def markCompleted : Handler Job := do
  let _ ← updateOwnedJob now clock jobId workerId Job.complete fun _ => rfl
  let refreshed ← refresh .jobs fun row => row.id = jobId
  return refreshed.toJob

theorem sameKey_fail {errorCode errorMessage : Text} {retryable : Bool} {randbelow : Nat → Nat}
    {now later : Nat} (row : JobRow) : SameKey .jobs row
      ⟨row.toJob.fail errorCode errorMessage retryable randbelow later, now⟩ := by
  show (Job.fail errorCode errorMessage retryable randbelow later row.toJob).id = row.id
  simp only [Job.fail]
  split <;> rfl

def markFailed (errorCode errorMessage : Text) (retryable : Bool) (randbelow : Nat → Nat)
    (later : Nat) : Handler Job :=
  updateOwnedJob now clock jobId workerId
    (Job.fail errorCode errorMessage retryable randbelow later) sameKey_fail

end Jobs

/-- What the claim writes to a row. -/
def lease (now clock leaseSeconds : Nat) (workerId : Text) (row : JobRow) : JobRow :=
  ⟨row.toJob.lease workerId leaseSeconds clock, now⟩

theorem sameKey_lease (now clock leaseSeconds : Nat) (workerId : Text) (row : JobRow) :
    SameKey .jobs row (lease now clock leaseSeconds workerId row) := rfl

/-- The flush of a claimed row. -/
def flushLease (now clock leaseSeconds : Nat) (workerId : Text) (job : JobRow) : Handler Job := do
  flushRow .jobs (fun row => row.id = job.id) (lease now clock leaseSeconds workerId)
    (sameKey_lease now clock leaseSeconds workerId)
  return job.toJob.lease workerId leaseSeconds clock

/-- `claim_jobs`; `locked` are the rows that `SKIP LOCKED` passes over.  The flush updates the
claimed rows one by one. -/
def claimJobs (now clock : Nat) (workerId : Text) (batchSize leaseSeconds : Nat)
    (locked : List UUID) : Handler (List Job) := do
  perform (.setWorkerContext workerId)
  let rows ← perform (.select .jobs fun row =>
    Jobs.claimable clock row.toJob && !locked.contains row.id)
  let jobs := (rows.insertionSort fun left right =>
    Jobs.claimedBefore left.toJob right.toJob).take batchSize
  jobs.mapM (flushLease now clock leaseSeconds workerId)

/-! ## Versions and documents -/

/-- `session.get(DocumentVersion, …)`, and its check. -/
def getVersion (versionId : UUID) : Handler VersionRow := do
  let found ← scalar .documentVersions fun row => row.id = versionId
  raiseUnless found (.raised (.runtimeError "document version does not exist"))

/-- `session.get(Document, …)`, and its check. -/
def getLiveDocument (documentId : UUID) : Handler DocumentRow := do
  let found ← scalar .documents fun row => row.id = documentId
  raiseUnless (found.filter fun document => document.deletedAt = none)
    (.raised (.runtimeError "document is missing or deleted"))

/-! ## Chunks -/

/-- `ChunkRepository.replace_version`. -/
def replaceVersion (workspaceId : UUID) (records : List Rag.EmbeddedChunk) : Handler Unit :=
  match records with
  | [] => throw (.raised (.valueError "cannot activate an empty production index"))
  | first :: _ =>
    if records.any (Rag.breaksContract first.chunk) then
      throw (.raised (.valueError
        "embedded chunks do not share the production storage contract"))
    else do
      let _ ← perform (.deleteFrom .documentChunks fun row => row.workspaceId = workspaceId &&
        row.versionId = first.chunk.versionId && row.pipelineVersion = Rag.PIPELINE.version)
      let _ ← perform (.write (.insert (Function.update emptyTables .documentChunks
        (records.map (Rag.documentChunk workspaceId)))) trivial)

/-- `ChunkRepository.delete_document`. -/
def deleteDocumentChunks (workspaceId documentId : UUID) : Handler Unit := do
  let _ ← perform (.deleteFrom .documentChunks fun row =>
    row.workspaceId = workspaceId && row.documentId = documentId)

/-! ## Transactions -/

section Transactions

variable (now clock : Nat) (job : Job) (workerId : Text)

/-- `begin_processing`. -/
def beginProcessing : Handler Unit := do
  perform (.setTenantContext serviceUserId (some job.workspaceId))
  let owned ← markProcessing now clock job.id workerId
  if owned.jobType = .processDocument then
    let versionId ← ofExcept (Worker.payloadVersion owned.payload)
    let version ← getVersion versionId
    flushStatus now version .processing

/-- The first transaction of `finish_document_job`. -/
def locate : Handler Worker.Located := do
  let versionId ← ofExcept (Worker.payloadVersion job.payload)
  perform (.setTenantContext serviceUserId (some job.workspaceId))
  let version ← getVersion versionId
  let document ← getLiveDocument version.documentId
  return { versionId := version.id, documentId := version.documentId, objectKey := version.objectKey,
           expectedSize := version.byteSize, expectedSha256 := version.sha256,
           mediaType := version.mediaType, documentTitle := document.displayName }

/-- Its last transaction. -/
def activate (located : Worker.Located) (records : List Rag.EmbeddedChunk) : Handler Unit := do
  perform (.setTenantContext serviceUserId (some job.workspaceId))
  let version ← getVersion located.versionId
  let document ← getLiveDocument version.documentId
  replaceVersion job.workspaceId records
  flushStatus now version .active
  flushActive now document version.id
  let _ ← markCompleted now clock job.id workerId

/-- The transaction of `renew_document_lease`. -/
def renewDocumentLease (leaseSeconds later : Nat) : Handler Unit := do
  perform (.setTenantContext serviceUserId (some job.workspaceId))
  let _ ← renewLease now clock job.id workerId leaseSeconds later

/-- The first transaction of `finish_delete_job`. -/
def deleteKeys : Handler (List ObjectKey) := do
  let documentId ← ofExcept (Worker.payloadDocument job.payload)
  perform (.setTenantContext serviceUserId (some job.workspaceId))
  let versions ← perform (.select .documentVersions fun row => row.documentId = documentId)
  return versions.map fun version => version.objectKey

/-- Its last transaction. -/
def finishDelete : Handler Unit := do
  let documentId ← ofExcept (Worker.payloadDocument job.payload)
  perform (.setTenantContext serviceUserId (some job.workspaceId))
  deleteDocumentChunks job.workspaceId documentId
  let _ ← markCompleted now clock job.id workerId

/-- `fail_job`. -/
def failJob (errorMessage : Text) (randbelow : Nat → Nat) (later : Nat) : Handler Unit := do
  perform (.setTenantContext serviceUserId (some job.workspaceId))
  let failed ← markFailed now clock job.id workerId "processing_failed".toList errorMessage true
    randbelow later
  if failed.jobType = .processDocument then
    let versionId ← ofExcept (Worker.payloadVersion failed.payload)
    let found ← scalar .documentVersions fun row => row.id = versionId
    match found with
    | none => pure ()
    | some version =>
      flushStatus now version
        (if failed.state ∈ [JobState.failed, .deadLetter] then .failed else .queued)

end Transactions

end SupportPilot.Tenancy
