import SupportPilot.Jobs.Queue

/-! # Leases are exclusive, and stale workers are fenced off

`NotOwned worker jobId` says that the worker holds no live lease on the job.
Every step keeps it except a claim of that job by that worker
(`notOwned_next`), and every way of losing a lease establishes it
(`notOwned_of_loses`).  While it holds, the worker's renewals, completions and
failures all raise. -/

namespace SupportPilot.Jobs

open Lib

/-- `require_owned_job` lets the worker through at instant `time`. -/
def Passes (jobs : List Job) (jobId : UUID) (worker : WorkerId) (time : Nat) : Prop :=
  ∃ job, requireOwnedJob jobs jobId worker.name time = .ok job

/-- Some call of `claim_jobs` at instant `time` returns the job. -/
def Claimable (jobs : List Job) (jobId : UUID) (time : Nat) : Prop :=
  ∃ (worker : WorkerId) (batchSize leaseSeconds : Nat) (locked : List UUID),
    jobId ∈ claimedIds jobs time (.claimJobs worker batchSize leaseSeconds locked)

/-- The event is a claim of the job by the worker. -/
def ClaimedBy (worker : WorkerId) (jobId : UUID) (queue : Queue) (event : Event) : Prop :=
  ∃ batchSize leaseSeconds locked, event.op = .claimJobs worker batchSize leaseSeconds locked ∧
    jobId ∈ claimedIds queue.jobs event.time event.op

/-- A renewal, completion, failure or start of processing by the worker. -/
inductive HolderOp (worker : WorkerId) (jobId : UUID) : Op → Prop
  | markProcessing : HolderOp worker jobId (.markProcessing jobId worker)
  | renewLease {leaseSeconds elapsed} :
      HolderOp worker jobId (.renewLease jobId worker leaseSeconds elapsed)
  | markCompleted : HolderOp worker jobId (.markCompleted jobId worker)
  | markFailed {errorCode errorMessage retryable randbelow elapsed} :
      HolderOp worker jobId
        (.markFailed jobId worker errorCode errorMessage retryable randbelow elapsed)

/-- The lease of the job ran out at or before the state's clock. -/
def LeaseExpired (jobId : UUID) (queue : Queue) : Prop :=
  ∃ job expiry, Table.lookup queue.jobs jobId = some job ∧
    job.leaseExpiresAt = some expiry ∧ expiry ≤ queue.now

/-- The step ends any lease the worker had on the job: another worker claims
it, it is completed or failed, or its lease has run out. -/
def Loses (worker : WorkerId) (jobId : UUID) (queue : Queue) (event : Event) (queue' : Queue) :
    Prop :=
  (∃ other, other ≠ worker ∧ ClaimedBy other jobId queue event) ∨
    completes queue.jobs event.time jobId event.op = true ∨
    fails queue.jobs event.time jobId event.op = true ∨
    LeaseExpired jobId queue'

def NotOwned (worker : WorkerId) (jobId : UUID) (queue : Queue) : Prop :=
  ∀ job, Table.lookup queue.jobs jobId = some job → ¬ Owned worker.name queue.now job

theorem passes_iff {jobs : List Job} {jobId : UUID} {worker : WorkerId} {time : Nat} :
    Passes jobs jobId worker time ↔
      ∃ job, Table.lookup jobs jobId = some job ∧ Owned worker.name time job := by
  simp only [Passes, requireOwnedJob_ok, Owned]

/-! ## Exclusion -/

theorem passes_unique {jobs : List Job} {jobId : UUID} {worker other : WorkerId} {time : Nat}
    (passes : Passes jobs jobId worker time) (passes' : Passes jobs jobId other time) :
    worker = other := by
  obtain ⟨job, found, owner, -⟩ := passes_iff.1 passes
  obtain ⟨job', found', owner', -⟩ := passes_iff.1 passes'
  cases found.symm.trans found'
  exact WorkerId.ext (Option.some.inj (owner.symm.trans owner'))

theorem passes_not_claimable {jobs : List Job} {jobId : UUID} {worker : WorkerId} {time : Nat}
    (keyed : Table.Keyed jobs) (passes : Passes jobs jobId worker time) :
    ¬ Claimable jobs jobId time := by
  rintro ⟨other, batchSize, leaseSeconds, locked, taken⟩
  obtain ⟨job, found, owned⟩ := passes_iff.1 passes
  obtain ⟨row, read, isClaimable⟩ := row_of_claimedIds keyed taken
  cases read.symm.trans found
  rw [owned.not_claimable] at isClaimable
  cases isClaimable

/-! ## Fencing -/

theorem owned_lease {worker : WorkerId} {other : Text} {leaseSeconds now time : Nat} {job : Job}
    (owned : Owned other time (job.lease worker.name leaseSeconds now)) : other = worker.name := by
  have owner := owned.1
  simp only [Job.lease, WorkerId.take_name, Option.some.injEq] at owner
  exact owner.symm

theorem fail_leaseOwner {errorCode errorMessage : Text} {retryable : Bool}
    {randbelow : Nat → Nat} {now : Nat} {job : Job} :
    (job.fail errorCode errorMessage retryable randbelow now).leaseOwner = none := by
  unfold Job.fail
  dsimp only
  split <;> rfl

theorem not_owned_of_no_owner {worker : Text} {now : Nat} {job : Job}
    (none : job.leaseOwner = none) : ¬ Owned worker now job := by
  rintro ⟨owner, -⟩
  simp [none] at owner

/-- Step lemma: only a claim by the worker itself gives it the job back. -/
theorem notOwned_next {worker : WorkerId} {jobId : UUID} {queue queue' : Queue} {event : Event}
    (keyed : Table.Keyed queue.jobs) (notOwned : NotOwned worker jobId queue)
    (taken : stepOf next queue event queue') (unclaimed : ¬ ClaimedBy worker jobId queue event) :
    NotOwned worker jobId queue' := by
  obtain ⟨time, op⟩ := event
  obtain ⟨later, rfl⟩ := next_eq_some.1 taken
  intro job' found' owned
  have before : Owned worker.name time job' := owned.earlier (Nat.le_add_right _ _)
  cases found : Table.lookup queue.jobs jobId with
  | none =>
    obtain ⟨_, _, _, _, _, _, _, rfl⟩ := applyOp_new found found'
    exact not_owned_of_no_owner rfl owned
  | some job =>
    -- time alone gives the job to nobody
    have lost : ¬ Owned worker.name time job :=
      fun still => notOwned job found (still.earlier later)
    have jobIdEq : job.id = jobId := Table.key_of_lookup found
    subst jobIdEq
    obtain ⟨_, read, change⟩ := applyOp_row time op keyed found
    cases read.symm.trans found'
    cases change with
    | kept => exact lost before
    | @claimed other batchSize leaseSeconds locked _ _ inBatch =>
      -- whoever holds the lease behind a claim has claimed
      have same : other = worker := WorkerId.ext (owned_lease before).symm
      subst same
      exact unclaimed ⟨batchSize, leaseSeconds, locked, rfl, inBatch⟩
    | processed held =>
      have same := Option.some.inj (held.1.symm.trans before.1)
      exact lost (same ▸ held)
    | renewed held =>
      have same := Option.some.inj (held.1.symm.trans before.1)
      exact lost (same ▸ held)
    | completed => exact not_owned_of_no_owner rfl before
    | failed => exact not_owned_of_no_owner fail_leaseOwner before
    | retried => exact not_owned_of_no_owner rfl before

theorem not_owned_after_release {jobs : List Job} {jobId : UUID} {worker other : Text}
    {now time : Nat} {job : Job} (write : Job → Job) (keeps : ∀ job, (write job).id = job.id)
    (releases : ∀ job, (write job).leaseOwner = none)
    (accepted : (updateOwnedJob jobs jobId worker now write).isOk = true)
    (found : Table.lookup (commit jobs (updateOwnedJob jobs jobId worker now write)) jobId =
      some job) : ¬ Owned other time job := by
  cases result : updateOwnedJob jobs jobId worker now write with
  | error => simp [result, Except.isOk, Except.toBool] at accepted
  | ok written =>
    obtain ⟨row, -, -, after⟩ := lookup_updateOwnedJob write keeps result
    rw [result] at found
    cases found.symm.trans ((after jobId).trans (if_pos rfl))
    exact not_owned_of_no_owner (releases row)

/-- Every way of losing the lease leaves the worker without it. -/
theorem notOwned_of_loses {worker : WorkerId} {jobId : UUID} {queue queue' : Queue}
    {event : Event} (keyed : Table.Keyed queue.jobs) (taken : stepOf next queue event queue')
    (loses : Loses worker jobId queue event queue') : NotOwned worker jobId queue' := by
  obtain ⟨time, op⟩ := event
  obtain ⟨later, rfl⟩ := next_eq_some.1 taken
  intro job' found' owned
  -- another worker claims, the worker completes or fails the job, or the lease runs out
  rcases loses with ⟨other, differs, batchSize, leaseSeconds, locked, rfl, inBatch⟩ | done | lost |
    ⟨job, expiry, found, reads, passed⟩
  · obtain ⟨job, found, -⟩ := row_of_claimedIds keyed inBatch
    have jobIdEq : job.id = jobId := Table.key_of_lookup found
    subst jobIdEq
    obtain ⟨_, read, change⟩ := applyOp_row time
      (.claimJobs other batchSize leaseSeconds locked) keyed found
    cases read.symm.trans found'
    cases change with
    | kept untaken => exact untaken inBatch
    | claimed => exact differs (WorkerId.ext (owned_lease owned).symm)
  · cases op <;> simp only [completes, Bool.false_eq_true, Bool.and_eq_true,
      decide_eq_true_eq] at done
    obtain ⟨rfl, accepted⟩ := done
    exact not_owned_after_release Job.complete (fun _ => rfl) (fun _ => rfl) accepted found' owned
  · cases op <;> simp only [fails, Bool.false_eq_true, Bool.and_eq_true,
      decide_eq_true_eq] at lost
    obtain ⟨rfl, accepted⟩ := lost
    exact not_owned_after_release _ (fun _ => fail_id) (fun _ => fail_leaseOwner) accepted
      found' owned
  · cases found.symm.trans found'
    obtain ⟨-, -, expiry', reads', live⟩ := owned
    cases reads.symm.trans reads'
    dsimp only at passed live
    omega

/-- A worker without the lease changes nothing. -/
theorem holderOp_unchanged {worker : WorkerId} {jobId : UUID} {queue queue' : Queue}
    {event : Event} (notOwned : NotOwned worker jobId queue)
    (op : HolderOp worker jobId event.op) (taken : stepOf next queue event queue') :
    queue'.jobs = queue.jobs := by
  obtain ⟨time, operation⟩ := event
  obtain ⟨later, rfl⟩ := next_eq_some.1 taken
  have raises : ∀ write, commit queue.jobs (updateOwnedJob queue.jobs jobId worker.name time write) =
      queue.jobs := by
    intro write
    cases result : updateOwnedJob queue.jobs jobId worker.name time write with
    | error => rfl
    | ok written =>
      obtain ⟨job, owned, -⟩ := updateOwnedJob_ok.1 result
      obtain ⟨found, owner, active, live⟩ := requireOwnedJob_ok.1 owned
      have still : Owned worker.name time job := ⟨owner, active, live⟩
      exact absurd (still.earlier later) (notOwned job found)
  cases op with
  | markProcessing | renewLease | markCompleted | markFailed => exact raises _

/-! ## Completion is final -/

theorem completed_next {jobId : UUID} {queue queue' : Queue} {event : Event} {job : Job}
    (keyed : Table.Keyed queue.jobs) (taken : stepOf next queue event queue')
    (found : Table.lookup queue.jobs jobId = some job) (completed : job.state = .completed) :
    Table.lookup queue'.jobs jobId = some job := by
  obtain ⟨time, op⟩ := event
  obtain ⟨-, rfl⟩ := next_eq_some.1 taken
  obtain ⟨job', read, change⟩ := applyOp_row time op keyed found
  have unowned : ∀ worker, ¬ Owned worker time job := by
    rintro worker ⟨-, active, -⟩
    simp [completed] at active
  refine read.trans ?_
  cases change with
  | kept => rfl
  | claimed isClaimable => simp [claimable, due, expired, completed] at isClaimable
  | processed held | renewed held | completed held | failed held => exact absurd held (unowned _)
  | retried stopped => simp [completed] at stopped

theorem completed_run {jobId : UUID} {queue queue' : Queue} {events : List Event} {job : Job}
    (run : Run (stepOf next) queue events queue') (keyed : Table.Keyed queue.jobs)
    (found : Table.lookup queue.jobs jobId = some job) (completed : job.state = .completed) :
    Table.lookup queue'.jobs jobId = some job :=
  (run.invariant (I := fun q => Table.Keyed q.jobs ∧ Table.lookup q.jobs jobId = some job)
    (fun _ _ _ inv taken => ⟨keyed_next inv.1 taken, completed_next inv.1 taken inv.2 completed⟩)
    ⟨keyed, found⟩).2

theorem completed_of_completes {jobs : List Job} {jobId : UUID} {now : Nat} {op : Op}
    (done : completes jobs now jobId op = true) :
    (∃ job, Table.lookup (applyOp jobs now op) jobId = some job ∧ job.state = .completed) ∧
      ∃ job worker, Table.lookup jobs jobId = some job ∧ Owned worker now job := by
  cases op <;> simp only [completes, Bool.false_eq_true, Bool.and_eq_true,
    decide_eq_true_eq] at done
  case markCompleted id worker =>
    obtain ⟨rfl, accepted⟩ := done
    cases result : markCompleted jobs id worker.name now with
    | error => simp [result, Except.isOk, Except.toBool] at accepted
    | ok written =>
      obtain ⟨row, found, owned, after⟩ := lookup_updateOwnedJob Job.complete (fun _ => rfl) result
      refine ⟨⟨row.complete, ?_, rfl⟩, row, worker.name, found, owned⟩
      simp only [applyOp, result, commit]
      exact (after id).trans (if_pos rfl)

theorem not_completes_of_completed {jobs : List Job} {jobId : UUID} {now : Nat} {op : Op}
    {job : Job} (found : Table.lookup jobs jobId = some job) (completed : job.state = .completed) :
    completes jobs now jobId op = false := by
  rw [← Bool.not_eq_true]
  intro again
  obtain ⟨-, row, worker, read, -, active, -⟩ := completed_of_completes again
  cases found.symm.trans read
  simp [completed] at active

theorem keyed_run {queue queue' : Queue} {events : List Event}
    (run : Run (stepOf next) queue events queue') (keyed : Table.Keyed queue.jobs) :
    Table.Keyed queue'.jobs :=
  run.invariant (I := fun q => Table.Keyed q.jobs) (fun _ _ _ => keyed_next) keyed

/-- The run lemma of fencing: without a new claim of its own, a worker that
lost its lease stays without it. -/
theorem notOwned_run {worker : WorkerId} {jobId : UUID} {queue queue' : Queue}
    {events : List Event} (keyed : Table.Keyed queue.jobs) (notOwned : NotOwned worker jobId queue)
    (run : Run (fun q e q' => stepOf next q e q' ∧ ¬ ClaimedBy worker jobId q e)
      queue events queue') : NotOwned worker jobId queue' :=
  (run.invariant (I := fun q => Table.Keyed q.jobs ∧ NotOwned worker jobId q)
    (fun _ _ _ inv step => ⟨keyed_next inv.1 step.1, notOwned_next inv.1 inv.2 step.1 step.2⟩)
    ⟨keyed, notOwned⟩).2

/-- In every run of the queue: at every instant at most one worker owns a job,
and an owned job is not claimable; a worker that lost its lease changes nothing
until it claims the job again; a completed job stays as it is, and no second
completion goes through. -/
theorem leases_exclusive {events : List Event} {queue : Queue}
    (run : Run (stepOf next) Queue.empty events queue) :
    (∀ jobId time worker other, Passes queue.jobs jobId worker time →
      Passes queue.jobs jobId other time → worker = other) ∧
    (∀ jobId time worker, Passes queue.jobs jobId worker time →
      ¬ Claimable queue.jobs jobId time) ∧
    (∀ worker jobId event lost rest later stale after,
      stepOf next queue event lost → Loses worker jobId queue event lost →
      Run (fun q e q' => stepOf next q e q' ∧ ¬ ClaimedBy worker jobId q e) lost rest later →
      HolderOp worker jobId stale.op → stepOf next later stale after →
      after.jobs = later.jobs) ∧
    (∀ jobId job rest later, Table.lookup queue.jobs jobId = some job → job.state = .completed →
      Run (stepOf next) queue rest later → Table.lookup later.jobs jobId = some job) ∧
    (∀ jobId event done rest later time op, stepOf next queue event done →
      completes queue.jobs event.time jobId event.op = true →
      Run (stepOf next) done rest later → completes later.jobs time jobId op = false) := by
  have keyed := keyed_run run keyed_empty
  refine ⟨fun _ _ _ _ => passes_unique, fun _ _ _ => passes_not_claimable keyed, ?_, ?_, ?_⟩
  · intro worker jobId event lost rest later stale after taken loses unclaimed holder taken'
    have notOwned := notOwned_of_loses keyed taken loses
    exact holderOp_unchanged (notOwned_run (keyed_next keyed taken) notOwned unclaimed) holder taken'
  · intro jobId job rest later found completed run'
    exact completed_run run' keyed found completed
  · intro jobId event done rest later time op taken completing run'
    obtain ⟨⟨job, found, completed⟩, -⟩ := completed_of_completes completing
    obtain ⟨-, rfl⟩ := next_eq_some.1 taken
    have final := completed_run run' (keyed_applyOp keyed) found completed
    exact not_completes_of_completed final completed

/-- A worker that claimed the first job of the queue. -/
def firstWorker : WorkerId := ⟨"worker-one".toList, by decide⟩

def firstJob : Job :=
  .new 1 10 .processDocument ⟨some 20, some 30⟩ "upload-1".toList 5 0

def firstClaim : List Event :=
  [⟨0, .enqueue 1 10 .processDocument ⟨some 20, some 30⟩ "upload-1".toList 5⟩,
    ⟨1, .claimJobs firstWorker 1 60 []⟩]

theorem leases_exclusive_first_claim :
    ¬ Claimable [firstJob.lease firstWorker.name 60 1] 1 60000000 :=
  have run : Run (stepOf next) .empty firstClaim ⟨1, [firstJob.lease firstWorker.name 60 1]⟩ :=
    Run.of_exec rfl
  (leases_exclusive run).2.1 1 60000000 firstWorker ⟨firstJob.lease firstWorker.name 60 1, rfl⟩

end SupportPilot.Jobs
