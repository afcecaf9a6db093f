import SupportPilot.Lib.Transition
import SupportPilot.Jobs.Service

/-! # The job queue as a transition system

Any number of workers run the operations of `SupportPilot.Jobs.Service` in any
order, over one clock that never goes back.  Each operation is one transaction:
it takes effect as a whole, or raises and changes nothing.

`applyOp_row` is the inversion lemma: it lists everything one operation can do
to one row.  The invariants of the later modules are derived from it. -/

namespace SupportPilot.Jobs

open Lib

/-- A worker id as `run` builds it: at most 128 characters. -/
@[ext] structure WorkerId where
  name : Text
  short : name.length ≤ 128
  deriving DecidableEq

@[simp] theorem WorkerId.take_name (worker : WorkerId) : worker.name.take 128 = worker.name :=
  List.take_of_length_le worker.short

inductive Op where
  | tick
  | enqueue (id workspaceId : UUID) (jobType : JobType) (payload : Payload)
      (idempotencyKey : Text) (maxAttempts : Nat)
  | claimJobs (worker : WorkerId) (batchSize leaseSeconds : Nat) (locked : List UUID)
  | markProcessing (jobId : UUID) (worker : WorkerId)
  | renewLease (jobId : UUID) (worker : WorkerId) (leaseSeconds elapsed : Nat)
  | markCompleted (jobId : UUID) (worker : WorkerId)
  | markFailed (jobId : UUID) (worker : WorkerId) (errorCode errorMessage : Text)
      (retryable : Bool) (randbelow : Nat → Nat) (elapsed : Nat)
  | retryJob (jobId workspaceId : UUID)

/-- An operation and the clock reading it starts with. -/
structure Event where
  time : Nat
  op : Op

structure Queue where
  now : Nat
  jobs : List Job

def Queue.empty : Queue := ⟨0, []⟩

/-- Insert a new job; the primary key, the unique constraint on workspace, type
and key, and the check on `max_attempts` are enforced. -/
def insertJob (jobs : List Job) (job : Job) : Except PyError (Job × List Job) :=
  if (Table.lookup jobs job.id).isSome ∨ job.maxAttempts = 0 ∨
      (jobs.any fun row => row.workspaceId = job.workspaceId && row.jobType = job.jobType &&
        row.idempotencyKey = job.idempotencyKey) then
    .error .integrityError
  else
    .ok (job, jobs ++ [job])

/-- The table after a transaction: unchanged when it raised. -/
def commit (jobs : List Job) : Except PyError (Job × List Job) → List Job
  | .ok (_, written) => written
  | .error _ => jobs

/-- Time between the two clock readings of an operation. -/
def Op.elapsed : Op → Nat
  | .renewLease _ _ _ elapsed => elapsed
  | .markFailed _ _ _ _ _ _ elapsed => elapsed
  | _ => 0

def applyOp (jobs : List Job) (now : Nat) : Op → List Job
  | .tick => jobs
  | .enqueue id workspaceId jobType payload key maxAttempts =>
    commit jobs (insertJob jobs (.new id workspaceId jobType payload key maxAttempts now))
  | .claimJobs worker batchSize leaseSeconds locked =>
    (claimJobs jobs worker.name batchSize leaseSeconds now locked).2
  | .markProcessing jobId worker => commit jobs (markProcessing jobs jobId worker.name now)
  | .renewLease jobId worker leaseSeconds elapsed =>
    commit jobs (renewLease jobs jobId worker.name leaseSeconds now (now + elapsed))
  | .markCompleted jobId worker => commit jobs (markCompleted jobs jobId worker.name now)
  | .markFailed jobId worker errorCode errorMessage retryable randbelow elapsed =>
    commit jobs (markFailed jobs jobId worker.name errorCode errorMessage retryable randbelow
      now (now + elapsed))
  | .retryJob jobId workspaceId => commit jobs (retryJob jobs jobId workspaceId now)

/-- An event is enabled when its clock reading is not in the past. -/
def next (queue : Queue) (event : Event) : Option Queue :=
  if queue.now ≤ event.time then
    some ⟨event.time + event.op.elapsed, applyOp queue.jobs event.time event.op⟩
  else
    none

theorem next_eq_some {queue queue' : Queue} {event : Event} :
    next queue event = some queue' ↔ queue.now ≤ event.time ∧
      queue' = ⟨event.time + event.op.elapsed, applyOp queue.jobs event.time event.op⟩ := by
  simp only [next]
  split <;> simp_all [eq_comm]

/-! ## What one operation does to one row -/

/-- The ids of the rows an operation claims. -/
def claimedIds (jobs : List Job) (now : Nat) : Op → List UUID
  | .claimJobs worker batchSize leaseSeconds locked =>
    (claimJobs jobs worker.name batchSize leaseSeconds now locked).1.map Job.id
  | _ => []

/-- The operation puts the job back in the queue by hand. -/
def retries (jobs : List Job) (now : Nat) (jobId : UUID) : Op → Bool
  | .retryJob id workspaceId => id = jobId && (retryJob jobs id workspaceId now).isOk
  | _ => false

/-- The operation completes the job. -/
def completes (jobs : List Job) (now : Nat) (jobId : UUID) : Op → Bool
  | .markCompleted id worker => id = jobId && (markCompleted jobs id worker.name now).isOk
  | _ => false

/-- The operation records a failure of the job. -/
def fails (jobs : List Job) (now : Nat) (jobId : UUID) : Op → Bool
  | .markFailed id worker errorCode errorMessage retryable randbelow elapsed =>
    id = jobId && (markFailed jobs id worker.name errorCode errorMessage retryable randbelow
      now (now + elapsed)).isOk
  | _ => false

/-- The worker holds an unexpired lease on the row. -/
def Owned (worker : Text) (now : Nat) (job : Job) : Prop :=
  job.leaseOwner = some worker ∧ (job.state = .leased ∨ job.state = .processing) ∧
    ∃ expiry, job.leaseExpiresAt = some expiry ∧ now < expiry

theorem Owned.earlier {worker : Text} {now time : Nat} {job : Job}
    (owned : Owned worker time job) (before : now ≤ time) : Owned worker now job := by
  obtain ⟨owner, active, expiry, reads, later⟩ := owned
  exact ⟨owner, active, expiry, reads, by omega⟩

/-- The boundary instant belongs to neither side: a lease that expires exactly
now is neither owned nor claimable. -/
theorem Owned.not_claimable {worker : Text} {now : Nat} {job : Job}
    (owned : Owned worker now job) : claimable now job = false := by
  obtain ⟨-, active, expiry, reads, later⟩ := owned
  rcases active with leased | processing <;>
    simp [claimable, due, expired, *] <;> omega

/-- The changes one operation can make to a row. -/
inductive RowChange (jobs : List Job) (now : Nat) : Op → Job → Job → Prop
  | kept {op job} : job.id ∉ claimedIds jobs now op → retries jobs now job.id op = false →
      RowChange jobs now op job job
  | claimed {worker batchSize leaseSeconds locked job} : claimable now job = true →
      job.id ∈ claimedIds jobs now (.claimJobs worker batchSize leaseSeconds locked) →
      RowChange jobs now (.claimJobs worker batchSize leaseSeconds locked) job
        (job.lease worker.name leaseSeconds now)
  | processed {worker job} : Owned worker.name now job →
      RowChange jobs now (.markProcessing job.id worker) job job.process
  | renewed {worker leaseSeconds elapsed job} : Owned worker.name now job →
      RowChange jobs now (.renewLease job.id worker leaseSeconds elapsed) job
        (job.renew leaseSeconds (now + elapsed))
  | completed {worker job} : Owned worker.name now job →
      RowChange jobs now (.markCompleted job.id worker) job job.complete
  | failed {worker errorCode errorMessage retryable randbelow elapsed job} :
      Owned worker.name now job →
      RowChange jobs now
        (.markFailed job.id worker errorCode errorMessage retryable randbelow elapsed) job
        (job.fail errorCode errorMessage retryable randbelow (now + elapsed))
  | retried {workspaceId job} : (job.state = .failed ∨ job.state = .deadLetter) →
      retries jobs now job.id (.retryJob job.id workspaceId) = true →
      RowChange jobs now (.retryJob job.id workspaceId) job (job.retry now)

@[simp] theorem lease_id {worker : Text} {leaseSeconds now : Nat} {job : Job} :
    (job.lease worker leaseSeconds now).id = job.id := rfl

@[simp] theorem fail_id {errorCode errorMessage : Text} {retryable : Bool}
    {randbelow : Nat → Nat} {now : Nat} {job : Job} :
    (job.fail errorCode errorMessage retryable randbelow now).id = job.id := by
  unfold Job.fail
  dsimp only
  split <;> rfl

theorem mem_selectClaimable {jobs : List Job} {batchSize now : Nat} {locked : List UUID}
    {job : Job} (selected : job ∈ selectClaimable jobs batchSize now locked) :
    job ∈ jobs ∧ claimable now job = true := by
  have sorted := List.mem_of_mem_take selected
  rw [List.mem_insertionSort, List.mem_filter, Bool.and_eq_true] at sorted
  exact ⟨sorted.1, sorted.2.1⟩

theorem mem_claimedIds {jobs : List Job} {now batchSize leaseSeconds : Nat} {worker : WorkerId}
    {locked : List UUID} {jobId : UUID} :
    jobId ∈ claimedIds jobs now (.claimJobs worker batchSize leaseSeconds locked) ↔
      ∃ job ∈ selectClaimable jobs batchSize now locked, job.id = jobId := by
  simp [claimedIds, claimJobs]

/-- A claim returns rows of the table that meet its `WHERE` clause. -/
theorem row_of_claimedIds {jobs : List Job} {now : Nat} {op : Op} {jobId : UUID}
    (keyed : Table.Keyed jobs) (inBatch : jobId ∈ claimedIds jobs now op) :
    ∃ job, Table.lookup jobs jobId = some job ∧ claimable now job = true := by
  cases op with
  | claimJobs =>
    obtain ⟨row, selected, rfl⟩ := mem_claimedIds.1 inBatch
    obtain ⟨member, isClaimable⟩ := mem_selectClaimable selected
    exact ⟨row, Table.lookup_of_mem keyed member, isClaimable⟩
  | tick | enqueue | markProcessing | renewLease | markCompleted | markFailed | retryJob =>
    cases inBatch

/-- A holder's operation that goes through writes exactly the job's row, which
the worker owned. -/
theorem lookup_updateOwnedJob {jobs : List Job} {jobId : UUID} {worker : Text} {now : Nat}
    (write : Job → Job) {written : Job × List Job} (keeps : ∀ job, (write job).id = job.id)
    (result : updateOwnedJob jobs jobId worker now write = .ok written) :
    ∃ job, Table.lookup jobs jobId = some job ∧ Owned worker now job ∧
      ∀ id, Table.lookup written.2 id =
        if id = jobId then some (write job) else Table.lookup jobs id := by
  obtain ⟨returned, table⟩ := written
  obtain ⟨job, owned, -, rfl⟩ := updateOwnedJob_ok.1 result
  obtain ⟨read, owner, active, live⟩ := requireOwnedJob_ok.1 owned
  have jobIdEq : (write job).id = jobId := (keeps job).trans (Table.key_of_lookup read)
  refine ⟨job, read, ⟨owner, active, live⟩, fun id => ?_⟩
  have found : Table.lookup jobs (Row.key (write job)) = some job := by
    rw [Job.row_key, jobIdEq]; exact read
  have saved := Table.lookup_save found id
  rwa [Job.row_key, jobIdEq] at saved

theorem lookup_commit_owned {jobs : List Job} {id : UUID} {job : Job} (jobId : UUID)
    (worker : Text) (now : Nat) (write : Job → Job) (keeps : ∀ job, (write job).id = job.id)
    (found : Table.lookup jobs id = some job) :
    Table.lookup (commit jobs (updateOwnedJob jobs jobId worker now write)) id = some job ∨
      id = jobId ∧ Owned worker now job ∧
        Table.lookup (commit jobs (updateOwnedJob jobs jobId worker now write)) id =
          some (write job) := by
  cases result : updateOwnedJob jobs jobId worker now write with
  | error => exact .inl found
  | ok written =>
    obtain ⟨row, read, owned, after⟩ := lookup_updateOwnedJob write keeps result
    by_cases same : id = jobId
    · subst same
      cases read.symm.trans found
      exact .inr ⟨rfl, owned, (after id).trans (if_pos rfl)⟩
    · exact .inl ((after id).trans ((if_neg same).trans found))

theorem lookup_commit_retry {jobs : List Job} {id : UUID} {job : Job}
    (jobId workspaceId : UUID) (now : Nat) (found : Table.lookup jobs id = some job) :
    (Table.lookup (commit jobs (retryJob jobs jobId workspaceId now)) id = some job ∧
        retries jobs now id (.retryJob jobId workspaceId) = false) ∨
      id = jobId ∧ (job.state = .failed ∨ job.state = .deadLetter) ∧
        retries jobs now id (.retryJob jobId workspaceId) = true ∧
        Table.lookup (commit jobs (retryJob jobs jobId workspaceId now)) id =
          some (job.retry now) := by
  cases result : retryJob jobs jobId workspaceId now with
  | error => exact .inl ⟨found, by simp [retries, result, Except.isOk, Except.toBool]⟩
  | ok written =>
    obtain ⟨returned, table⟩ := written
    obtain ⟨row, read, -, stopped, -, rfl⟩ := retryJob_ok.1 result
    have rowId : row.id = jobId := Table.key_of_lookup read
    have retriedId : (row.retry now).id = jobId := rowId
    have stored : Table.lookup jobs (Row.key (row.retry now)) = some row := by
      rw [Job.row_key, retriedId]; exact read
    have saved := Table.lookup_save stored id
    rw [Job.row_key, retriedId] at saved
    by_cases same : id = jobId
    · subst same
      cases read.symm.trans found
      rw [if_pos rfl] at saved
      exact .inr ⟨rfl, stopped, by simp [retries, result, Except.isOk, Except.toBool], saved⟩
    · rw [if_neg same] at saved
      exact .inl ⟨saved.trans found, by simp [retries, Ne.symm same]⟩

theorem lookup_claimJobs {jobs : List Job} {worker : Text} {batchSize leaseSeconds now : Nat}
    {locked : List UUID} {id : UUID} :
    Table.lookup (claimJobs jobs worker batchSize leaseSeconds now locked).2 id =
      (Table.lookup jobs id).map fun job =>
        if (selectClaimable jobs batchSize now locked).any fun row => row.id = job.id then
          job.lease worker leaseSeconds now else job :=
  Table.lookup_updateWhere fun _ _ => rfl

theorem lookup_insertJob {jobs : List Job} {job row : Job} {id : UUID}
    (found : Table.lookup jobs id = some row) :
    Table.lookup (commit jobs (insertJob jobs job)) id = some row := by
  unfold insertJob
  split
  · exact found
  next fresh =>
    rw [not_or, Option.not_isSome_iff_eq_none] at fresh
    refine (Table.lookup_append_of_none fresh.1).trans ?_
    rw [if_neg, found]
    rintro rfl
    rw [Job.row_key, fresh.1] at found
    cases found

/-- Everything an operation can do to an existing row. -/
theorem applyOp_row {jobs : List Job} {id : UUID} {job : Job} (now : Nat) (op : Op)
    (keyed : Table.Keyed jobs) (found : Table.lookup jobs id = some job) :
    ∃ job', Table.lookup (applyOp jobs now op) id = some job' ∧
      RowChange jobs now op job job' := by
  have jobId : job.id = id := Table.key_of_lookup found
  subst jobId
  cases op with
  | tick => exact ⟨job, found, .kept (by simp [claimedIds]) rfl⟩
  | enqueue => exact ⟨job, lookup_insertJob found, .kept (by simp [claimedIds]) rfl⟩
  | claimJobs worker batchSize leaseSeconds locked =>
    have read : Table.lookup (applyOp jobs now (.claimJobs worker batchSize leaseSeconds locked))
        job.id = _ := lookup_claimJobs
    rw [found, Option.map_some] at read
    refine ⟨_, read, ?_⟩
    split
    next taken =>
      have inBatch : job.id ∈ claimedIds jobs now
          (.claimJobs worker batchSize leaseSeconds locked) :=
        mem_claimedIds.2 (by simpa using taken)
      -- the batch holds claimable rows, and this is the one with the identifier
      obtain ⟨row, read, isClaimable⟩ := row_of_claimedIds keyed inBatch
      cases read.symm.trans found
      exact .claimed isClaimable inBatch
    next untaken =>
      refine .kept (fun taken => untaken ?_) rfl
      obtain ⟨row, selected, same⟩ := mem_claimedIds.1 taken
      simpa using ⟨row, selected, same⟩
  | markProcessing jobId worker =>
    -- the row changes where the worker owns it, and no other row does
    obtain same | ⟨rfl, owned, written⟩ :=
      lookup_commit_owned jobId worker.name now Job.process (fun _ => rfl) found
    · exact ⟨job, same, .kept (by simp [claimedIds]) rfl⟩
    · exact ⟨_, written, .processed owned⟩
  | renewLease jobId worker leaseSeconds elapsed =>
    obtain same | ⟨rfl, owned, written⟩ := lookup_commit_owned jobId worker.name now
      (Job.renew leaseSeconds (now + elapsed)) (fun _ => rfl) found
    · exact ⟨job, same, .kept (by simp [claimedIds]) rfl⟩
    · exact ⟨_, written, .renewed owned⟩
  | markCompleted jobId worker =>
    obtain same | ⟨rfl, owned, written⟩ :=
      lookup_commit_owned jobId worker.name now Job.complete (fun _ => rfl) found
    · exact ⟨job, same, .kept (by simp [claimedIds]) rfl⟩
    · exact ⟨_, written, .completed owned⟩
  | markFailed jobId worker errorCode errorMessage retryable randbelow elapsed =>
    obtain same | ⟨rfl, owned, written⟩ := lookup_commit_owned jobId worker.name now
      (Job.fail errorCode errorMessage retryable randbelow (now + elapsed)) (fun _ => fail_id) found
    · exact ⟨job, same, .kept (by simp [claimedIds]) rfl⟩
    · exact ⟨_, written, .failed owned⟩
  | retryJob jobId workspaceId =>
    obtain ⟨same, refused⟩ | ⟨rfl, stopped, accepted, written⟩ :=
      lookup_commit_retry jobId workspaceId now found
    · exact ⟨job, same, .kept (by simp [claimedIds]) refused⟩
    · exact ⟨_, written, .retried stopped accepted⟩

theorem keyed_commit_save {jobs : List Job} {result : Except PyError (Job × List Job)}
    (keyed : Table.Keyed jobs)
    (saves : ∀ job table, result = .ok (job, table) → table = Table.save jobs job) :
    Table.Keyed (commit jobs result) := by
  cases result with
  | error => exact keyed
  | ok written =>
    have table := saves _ _ rfl
    simp only [commit, table]
    exact Table.keyed_save keyed

theorem saves_updateOwnedJob {jobs : List Job} {jobId : UUID} {worker : Text} {now : Nat}
    {write : Job → Job} {job : Job} {table : List Job}
    (result : updateOwnedJob jobs jobId worker now write = .ok (job, table)) :
    table = Table.save jobs job := by
  obtain ⟨_, _, rfl, rfl⟩ := updateOwnedJob_ok.1 result
  rfl

theorem keyed_applyOp {jobs : List Job} {now : Nat} {op : Op} (keyed : Table.Keyed jobs) :
    Table.Keyed (applyOp jobs now op) := by
  cases op with
  | tick => exact keyed
  | enqueue id workspaceId jobType payload key maxAttempts =>
    simp only [applyOp, insertJob]
    split
    · exact keyed
    next fresh =>
      rw [not_or, Option.not_isSome_iff_eq_none] at fresh
      exact Table.keyed_append keyed fresh.1
  | claimJobs => exact Table.keyed_updateWhere (fun _ _ => rfl) keyed
  | markProcessing | renewLease | markCompleted | markFailed =>
    exact keyed_commit_save keyed fun _ _ => saves_updateOwnedJob
  | retryJob =>
    refine keyed_commit_save keyed fun _ _ result => ?_
    obtain ⟨_, _, _, _, rfl, rfl⟩ := retryJob_ok.1 result
    rfl

/-- A row that an operation adds is a newly enqueued job. -/
theorem applyOp_new {jobs : List Job} {now : Nat} {op : Op} {id : UUID} {job : Job}
    (absent : Table.lookup jobs id = none) (found : Table.lookup (applyOp jobs now op) id = some job) :
    ∃ workspaceId jobType payload key maxAttempts, 0 < maxAttempts ∧
      op = .enqueue id workspaceId jobType payload key maxAttempts ∧
      job = .new id workspaceId jobType payload key maxAttempts now := by
  -- operations that save a row add none
  have unchanged : ∀ {result : Except PyError (Job × List Job)},
      (∀ job table, result = .ok (job, table) → table = Table.save jobs job) →
      Table.lookup (commit jobs result) id = none := by
    intro result saves
    cases result with
    | error => exact absent
    | ok written =>
      have table := saves _ _ rfl
      rw [commit, table]
      exact Table.lookup_save_of_none absent
  cases op with
  | tick => exact absurd (absent.symm.trans found) (by simp)
  | enqueue newId workspaceId jobType payload key maxAttempts =>
    simp only [applyOp, insertJob] at found
    split at found
    · exact absurd (absent.symm.trans found) (by simp)
    next fresh =>
      simp only [not_or, Option.not_isSome_iff_eq_none] at fresh
      rw [commit, Table.lookup_append_of_none fresh.1] at found
      split at found
      next same =>
        cases found
        subst same
        exact ⟨_, _, _, _, _, Nat.pos_of_ne_zero fresh.2.1, rfl, rfl⟩
      · exact absurd (absent.symm.trans found) (by simp)
  | claimJobs =>
    have read := lookup_claimJobs.symm.trans found
    rw [absent] at read
    cases read
  | markProcessing | renewLease | markCompleted | markFailed =>
    exact absurd ((unchanged fun _ _ => saves_updateOwnedJob).symm.trans found) (by simp)
  | retryJob =>
    refine absurd ((unchanged fun _ _ result => ?_).symm.trans found) (by simp)
    obtain ⟨_, _, _, _, rfl, rfl⟩ := retryJob_ok.1 result
    rfl

theorem keyed_next {queue queue' : Queue} {event : Event} (keyed : Table.Keyed queue.jobs)
    (taken : stepOf next queue event queue') : Table.Keyed queue'.jobs := by
  obtain ⟨-, rfl⟩ := next_eq_some.1 taken
  exact keyed_applyOp keyed

theorem keyed_empty : Table.Keyed Queue.empty.jobs := List.nodup_nil

end SupportPilot.Jobs
