import SupportPilot.Domain
import Mathlib.Data.List.Sort

/-! # Durable jobs: the lease operations

`packages/jobs/service.py` over the `jobs` table.  A database transaction is a
function of the table and of the clock readings it takes; an exception rolls it
back, so an operation that raises leaves the table as it was.

The four operations of a lease holder differ only in what they write, and are
all `updateOwnedJob`. -/

namespace SupportPilot

open Lib

/-- The `payload` column; a missing key is `none`. -/
structure Payload where
  documentId : Option UUID
  documentVersionId : Option UUID
  deriving DecidableEq, Repr

/-- A row of `jobs`. -/
structure Job where
  id : UUID
  workspaceId : UUID
  jobType : JobType
  payload : Payload
  state : JobState
  idempotencyKey : Text
  availableAt : Nat
  leaseOwner : Option Text
  leaseExpiresAt : Option Nat
  attemptCount : Nat
  maxAttempts : Nat
  errorCode : Option Text
  errorMessage : Option Text
  createdAt : Nat
  deriving DecidableEq, Repr

instance : Row Job UUID := ⟨Job.id⟩

@[simp] theorem Job.row_key (job : Job) : Row.key job = job.id := rfl

/-- `Job(...)` as `upload_document_version` and `delete_document` build it: the
other columns take their defaults. -/
def Job.new (id workspaceId : UUID) (jobType : JobType) (payload : Payload)
    (idempotencyKey : Text) (maxAttempts : Nat) (now : Nat) : Job where
  id := id
  workspaceId := workspaceId
  jobType := jobType
  payload := payload
  state := .queued
  idempotencyKey := idempotencyKey
  availableAt := now
  leaseOwner := none
  leaseExpiresAt := none
  attemptCount := 0
  maxAttempts := maxAttempts
  errorCode := none
  errorMessage := none
  createdAt := now

namespace Jobs

/-! ## Claiming -/

def due (now : Nat) (job : Job) : Bool :=
  (job.state = .queued || job.state = .retrying) && job.availableAt ≤ now

def expired (now : Nat) (job : Job) : Bool :=
  (job.state = .leased || job.state = .processing) &&
    job.leaseExpiresAt.any fun expiry => expiry < now

/-- The `WHERE` clause of the claim. -/
def claimable (now : Nat) (job : Job) : Bool :=
  due now job || expired now job

/-- `ORDER BY available_at, created_at`. -/
def claimedBefore (left right : Job) : Prop :=
  left.availableAt < right.availableAt ∨
    left.availableAt = right.availableAt ∧ left.createdAt ≤ right.createdAt

instance : DecidableRel claimedBefore := fun left right => by
  unfold claimedBefore; infer_instance

/-- The rows `claim_jobs` selects; `locked` are the rows other transactions
hold, which `SKIP LOCKED` passes over. -/
def selectClaimable (jobs : List Job) (batchSize : Nat) (now : Nat) (locked : List UUID) :
    List Job :=
  ((jobs.filter fun job => claimable now job && !locked.contains job.id).insertionSort
    claimedBefore).take batchSize

end Jobs

/-- What a claim writes to one row. -/
def Job.lease (workerId : Text) (leaseSeconds : Nat) (now : Nat) (job : Job) : Job :=
  { job with
    state := .leased
    leaseOwner := some (workerId.take 128)
    leaseExpiresAt := some (now + seconds leaseSeconds)
    attemptCount := job.attemptCount + 1
    errorCode := none
    errorMessage := none }

namespace Jobs

/-- `claim_jobs`: the claimed rows and the table. -/
def claimJobs (jobs : List Job) (workerId : Text) (batchSize leaseSeconds : Nat)
    (now : Nat) (locked : List UUID) : List Job × List Job :=
  let selected := selectClaimable jobs batchSize now locked
  (selected.map (Job.lease workerId leaseSeconds now),
    Table.updateWhere (fun job => selected.any fun row => row.id = job.id)
      (Job.lease workerId leaseSeconds now) jobs)

/-! ## Operations of the lease holder -/

def requireOwnedJob (jobs : List Job) (jobId : UUID) (workerId : Text) (now : Nat) :
    Except PyError Job :=
  match Table.lookup jobs jobId with
  | none => .error (.notFound "job not found")
  | some job =>
    if job.leaseOwner ≠ some workerId ∨ job.state ∉ [JobState.leased, .processing] then
      .error (.conflict "job lease is no longer owned by this worker")
    else if job.leaseExpiresAt.all (· ≤ now) then
      .error (.conflict "job lease has expired")
    else
      .ok job

/-- Check ownership, write the row, return it. -/
def updateOwnedJob (jobs : List Job) (jobId : UUID) (workerId : Text) (now : Nat)
    (write : Job → Job) : Except PyError (Job × List Job) := do
  let job ← requireOwnedJob jobs jobId workerId now
  return (write job, Table.save jobs (write job))

end Jobs

def Job.process (job : Job) : Job :=
  { job with state := .processing }

def Job.renew (leaseSeconds : Nat) (now : Nat) (job : Job) : Job :=
  { job with leaseExpiresAt := some (now + seconds leaseSeconds) }

def Job.complete (job : Job) : Job :=
  { job with
    state := .completed
    leaseOwner := none
    leaseExpiresAt := none
    errorCode := none
    errorMessage := none }

/-- `randbelow` is `secrets.randbelow`. -/
def Job.fail (errorCode errorMessage : Text) (retryable : Bool) (randbelow : Nat → Nat)
    (now : Nat) (job : Job) : Job :=
  let job := { job with
    errorCode := some (errorCode.take 64)
    errorMessage := some (errorMessage.take 1000)
    leaseOwner := none
    leaseExpiresAt := none }
  if retryable && job.attemptCount < job.maxAttempts then
    let baseDelay := min 300 (2 ^ (job.attemptCount - 1))
    let jitter := randbelow (max 1 (baseDelay / 2 + 1))
    { job with
      state := .retrying
      availableAt := now + seconds (baseDelay + jitter) }
  else
    { job with
      state := if job.attemptCount ≥ job.maxAttempts then .deadLetter else .failed }

def Job.retry (now : Nat) (job : Job) : Job :=
  { job with
    state := .retrying
    availableAt := now
    attemptCount := 0
    leaseOwner := none
    leaseExpiresAt := none
    errorCode := none
    errorMessage := none }

namespace Jobs

def markProcessing (jobs : List Job) (jobId : UUID) (workerId : Text) (now : Nat) :
    Except PyError (Job × List Job) :=
  updateOwnedJob jobs jobId workerId now Job.process

/-- The clock is read twice: `now` by the ownership check, `later` for the new
expiry. -/
def renewLease (jobs : List Job) (jobId : UUID) (workerId : Text) (leaseSeconds : Nat)
    (now later : Nat) : Except PyError (Job × List Job) :=
  updateOwnedJob jobs jobId workerId now (Job.renew leaseSeconds later)

def markCompleted (jobs : List Job) (jobId : UUID) (workerId : Text) (now : Nat) :
    Except PyError (Job × List Job) :=
  updateOwnedJob jobs jobId workerId now Job.complete

def markFailed (jobs : List Job) (jobId : UUID) (workerId : Text)
    (errorCode errorMessage : Text) (retryable : Bool) (randbelow : Nat → Nat)
    (now later : Nat) : Except PyError (Job × List Job) :=
  updateOwnedJob jobs jobId workerId now (Job.fail errorCode errorMessage retryable randbelow later)

/-! ## Manual retry -/

def retryJob (jobs : List Job) (jobId workspaceId : UUID) (now : Nat) :
    Except PyError (Job × List Job) :=
  match Table.lookup jobs jobId with
  | none => .error (.notFound "job not found")
  | some job =>
    if job.workspaceId ≠ workspaceId then
      .error (.notFound "job not found")
    else if job.state ∉ [JobState.failed, .deadLetter] then
      .error (.conflict "only failed or dead-letter jobs can be retried")
    else
      .ok (job.retry now, Table.save jobs (job.retry now))

/-! ## Specifications -/

theorem requireOwnedJob_ok {jobs : List Job} {jobId : UUID} {workerId : Text} {now : Nat}
    {job : Job} :
    requireOwnedJob jobs jobId workerId now = .ok job ↔
      Table.lookup jobs jobId = some job ∧ job.leaseOwner = some workerId ∧
        (job.state = .leased ∨ job.state = .processing) ∧
        ∃ expiry, job.leaseExpiresAt = some expiry ∧ now < expiry := by
  unfold requireOwnedJob
  cases Table.lookup jobs jobId with
  | none => simp
  | some row =>
    dsimp only
    -- the two checks, first of the owner and the state, then of the time
    split
    next foreign =>
      simp only [reduceCtorEq, Option.some.injEq, false_iff]
      rintro ⟨rfl, owner, leased, -⟩
      simp [owner, leased] at foreign
    next owned =>
      rw [not_or, not_not, not_not, List.mem_pair] at owned
      split
      next lapsed =>
        simp only [reduceCtorEq, Option.some.injEq, false_iff]
        rintro ⟨rfl, -, -, expiry, reads, later⟩
        simp only [reads, Option.all_some, decide_eq_true_eq] at lapsed
        omega
      next live =>
        simp only [Except.ok.injEq, Option.some.injEq]
        constructor
        · rintro rfl
          cases reads : row.leaseExpiresAt with
          | none => simp [reads] at live
          | some expiry =>
            simp only [reads, Option.all_some, decide_eq_true_eq, not_le] at live
            exact ⟨rfl, owned.1, owned.2, expiry, rfl, live⟩
        · rintro ⟨same, -⟩
          exact same

theorem updateOwnedJob_ok {jobs jobs' : List Job} {jobId : UUID} {workerId : Text}
    {now : Nat} {write : Job → Job} {job' : Job} :
    updateOwnedJob jobs jobId workerId now write = .ok (job', jobs') ↔
      ∃ job, requireOwnedJob jobs jobId workerId now = .ok job ∧ job' = write job ∧
        jobs' = Table.save jobs (write job) := by
  simp only [updateOwnedJob, bind, Except.bind, pure, Except.pure]
  cases requireOwnedJob jobs jobId workerId now with
  | error => simp
  | ok job => simp [eq_comm]

theorem retryJob_ok {jobs jobs' : List Job} {jobId workspaceId : UUID} {now : Nat}
    {job' : Job} :
    retryJob jobs jobId workspaceId now = .ok (job', jobs') ↔
      ∃ job, Table.lookup jobs jobId = some job ∧ job.workspaceId = workspaceId ∧
        (job.state = .failed ∨ job.state = .deadLetter) ∧ job' = job.retry now ∧
        jobs' = Table.save jobs (job.retry now) := by
  unfold retryJob
  cases Table.lookup jobs jobId with
  | none => simp
  | some job =>
    dsimp only
    -- a job of another workspace, one that still runs, or one that has stopped
    split
    next foreign => simp [foreign]
    next own =>
      rw [not_not] at own
      split
      next running =>
        simp only [reduceCtorEq, false_iff]
        rintro ⟨_, same, -, stopped, -⟩
        cases same
        simp [stopped] at running
      next stopped =>
        rw [not_not, List.mem_pair] at stopped
        constructor
        · intro same
          cases same
          exact ⟨job, rfl, own, stopped, rfl, rfl⟩
        · rintro ⟨_, same, -, -, rfl, rfl⟩
          cases same
          rfl

end Jobs

end SupportPilot
