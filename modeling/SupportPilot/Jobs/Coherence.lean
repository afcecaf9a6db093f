import SupportPilot.Jobs.Leases

/-! # Coherent rows

Each operation rewrites its own part of a row.  `Coherent` says how the parts
fit together, and `coherent_change` that every operation keeps them fitting; the
checks of `require_owned_job` are what the operations of a lease holder need for
that.  A coherent row that is not finished has a time from which a claim takes
it (`claimable_eventually`), so no job is stranded. -/

namespace SupportPilot.Jobs

open Lib

/-- A worker has the job. -/
def Held (job : Job) : Prop :=
  job.state = .leased ∨ job.state = .processing

instance (job : Job) : Decidable (Held job) := inferInstanceAs (Decidable (_ ∨ _))

/-- No worker will take the job again, unless it is retried by hand. -/
def Finished (job : Job) : Prop :=
  job.state = .completed ∨ job.state = .failed ∨ job.state = .deadLetter

structure Coherent (job : Job) : Prop where
  owner : job.leaseOwner.isSome = true ↔ Held job
  expiry : job.leaseExpiresAt.isSome = true ↔ Held job
  error_only : job.errorCode.isSome = true →
    job.state = .retrying ∨ job.state = .failed ∨ job.state = .deadLetter
  error_always : job.state = .failed ∨ job.state = .deadLetter → job.errorCode.isSome = true
  attempted : Held job ∨ Finished job → 1 ≤ job.attemptCount

theorem coherent_new {id workspaceId : UUID} {jobType : JobType} {payload : Payload} {key : Text}
    {maxAttempts now : Nat} :
    Coherent (.new id workspaceId jobType payload key maxAttempts now) := by
  constructor <;> simp [Job.new, Held, Finished]

theorem coherent_lease {worker : Text} {leaseSeconds now : Nat} {job : Job} :
    Coherent (job.lease worker leaseSeconds now) := by
  constructor <;> simp [Job.lease, Held]

theorem coherent_process {job : Job} (coherent : Coherent job) (held : Held job) :
    Coherent job.process where
  owner := by simpa [Job.process, Held] using coherent.owner.mpr held
  expiry := by simpa [Job.process, Held] using coherent.expiry.mpr held
  error_only failed := by
    -- a held row carries no error
    have stopped := coherent.error_only failed
    cases held <;> simp_all
  error_always := by simp [Job.process]
  attempted _ := coherent.attempted (.inl held)

theorem coherent_renew {leaseSeconds now : Nat} {job : Job} (coherent : Coherent job)
    (held : Held job) : Coherent (job.renew leaseSeconds now) where
  owner := coherent.owner
  expiry := by simpa [Job.renew, Held] using held
  error_only := coherent.error_only
  error_always := coherent.error_always
  attempted := coherent.attempted

theorem coherent_complete {job : Job} (attempted : 1 ≤ job.attemptCount) :
    Coherent job.complete := by
  constructor <;> simp [Job.complete, Held, attempted]

theorem coherent_fail {errorCode errorMessage : Text} {retryable : Bool}
    {randbelow : Nat → Nat} {now : Nat} {job : Job} (attempted : 1 ≤ job.attemptCount) :
    Coherent (job.fail errorCode errorMessage retryable randbelow now) := by
  unfold Job.fail
  dsimp only
  split
  · constructor <;> simp [Held, attempted]
  · by_cases exhausted : job.attemptCount ≥ job.maxAttempts <;>
      constructor <;> simp [Held, exhausted, attempted]

theorem coherent_retry {now : Nat} {job : Job} : Coherent (job.retry now) := by
  constructor <;> simp [Job.retry, Held, Finished]

/-- Every operation keeps the row coherent. -/
theorem coherent_change {jobs : List Job} {now : Nat} {op : Op} {job job' : Job}
    (coherent : Coherent job) (change : RowChange jobs now op job job') : Coherent job' := by
  cases change with
  | kept => exact coherent
  | claimed => exact coherent_lease
  | processed owned => exact coherent_process coherent owned.2.1
  | renewed owned => exact coherent_renew coherent owned.2.1
  | completed owned => exact coherent_complete (coherent.attempted (.inl owned.2.1))
  | failed owned => exact coherent_fail (coherent.attempted (.inl owned.2.1))
  | retried => exact coherent_retry

def AllCoherent (queue : Queue) : Prop :=
  Table.Keyed queue.jobs ∧
    ∀ jobId job, Table.lookup queue.jobs jobId = some job → Coherent job

theorem allCoherent_empty : AllCoherent Queue.empty :=
  ⟨keyed_empty, fun _ _ found => by simp [Queue.empty, Table.lookup] at found⟩

theorem allCoherent_next {queue queue' : Queue} {event : Event} (coherent : AllCoherent queue)
    (taken : stepOf next queue event queue') : AllCoherent queue' := by
  refine ⟨keyed_next coherent.1 taken, fun jobId job' found' => ?_⟩
  obtain ⟨-, rfl⟩ := next_eq_some.1 taken
  cases found : Table.lookup queue.jobs jobId with
  | none =>
    obtain ⟨_, _, _, _, _, -, -, rfl⟩ := applyOp_new found found'
    exact coherent_new
  | some job =>
    obtain ⟨_, read, change⟩ := applyOp_row event.time event.op coherent.1 found
    cases read.symm.trans found'
    exact coherent_change (coherent.2 jobId job found) change

/-! ## Nothing is stranded -/

/-- From some time on, the `WHERE` clause of the claim selects the row. -/
theorem claimable_eventually {job : Job} (coherent : Coherent job) (unfinished : ¬ Finished job) :
    ∃ time, ∀ now, time ≤ now → claimable now job = true := by
  by_cases held : Held job
  · -- the lease runs out
    obtain ⟨expiry, reads⟩ := Option.isSome_iff_exists.mp (coherent.expiry.mpr held)
    refine ⟨expiry + 1, fun now after => ?_⟩
    have isExpired : expired now job = true := by
      have passed : expiry < now := after
      simpa [expired, reads, passed, Held] using held
    simp [claimable, isExpired]
  · -- the job is in the queue
    have queued : job.state = .queued ∨ job.state = .retrying := by
      cases state : job.state <;> simp_all [Held, Finished]
    refine ⟨job.availableAt, fun now after => ?_⟩
    have isDue : due now job = true := by simpa [due, after] using queued
    simp [claimable, isDue]

/-- A batch as large as the table takes every claimable row that no other
transaction has locked. -/
theorem mem_claimedIds_of_claimable {jobs : List Job} {job : Job} {now batchSize : Nat}
    {locked : List UUID} (worker : WorkerId) (leaseSeconds : Nat) (member : job ∈ jobs)
    (isClaimable : claimable now job = true) (large : jobs.length ≤ batchSize)
    (unlocked : job.id ∉ locked) :
    job.id ∈ claimedIds jobs now (.claimJobs worker batchSize leaseSeconds locked) := by
  rw [mem_claimedIds]
  refine ⟨job, ?_, rfl⟩
  have selected : job ∈ jobs.filter fun row => claimable now row && !locked.contains row.id := by
    simp [member, isClaimable, unlocked]
  rw [selectClaimable, List.take_of_length_le]
  · exact (List.mem_insertionSort claimedBefore).mpr selected
  · rw [List.length_insertionSort]
    exact (List.length_filter_le _ jobs).trans large

/-- In every reachable state the lease, error and attempt columns of every job
agree with its state, and for every unfinished job there is a time from which
every table that still holds the row gives it to a claim with a large enough
batch. -/
theorem jobs_coherent {events : List Event} {queue : Queue}
    (run : Run (stepOf next) Queue.empty events queue) :
    ∀ job ∈ queue.jobs, Coherent job ∧
      (¬ Finished job → ∃ time, ∀ now, time ≤ now → ∀ jobs, job ∈ jobs →
        ∀ worker batchSize leaseSeconds locked, jobs.length ≤ batchSize → job.id ∉ locked →
          job.id ∈ claimedIds jobs now (.claimJobs worker batchSize leaseSeconds locked)) := by
  have invariant : AllCoherent queue :=
    run.invariant (fun _ _ _ coherent taken => allCoherent_next coherent taken) allCoherent_empty
  intro job member
  have coherent := invariant.2 _ _ (Table.lookup_of_mem invariant.1 member)
  refine ⟨coherent, fun unfinished => ?_⟩
  obtain ⟨time, always⟩ := claimable_eventually coherent unfinished
  refine ⟨time, fun now after jobs present worker batchSize leaseSeconds locked large unlocked => ?_⟩
  apply mem_claimedIds_of_claimable worker leaseSeconds present _ large unlocked
  exact always now after

theorem jobs_coherent_first_claim :
    (firstJob.lease firstWorker.name 60 1).leaseOwner.isSome = true :=
  have run : Run (stepOf next) .empty firstClaim ⟨1, [firstJob.lease firstWorker.name 60 1]⟩ :=
    Run.of_exec rfl
  (jobs_coherent run _ List.mem_cons_self).1.owner.mpr (.inl rfl)

end SupportPilot.Jobs
