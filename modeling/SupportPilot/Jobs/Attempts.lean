import SupportPilot.Jobs.Leases

/-! # Bounded attempts

`claim_jobs` counts an attempt, but only `mark_failed` compares the count with
its maximum.  A job that is handed out through the queue (`QUEUED`, `RETRYING`)
always has an attempt left; one that is taken over because its lease ran out
need not have.  `takeover_exceeds` shows that such a takeover is the only way
past the bound, and `attempts_bounded` that runs without one respect it. -/

namespace SupportPilot.Jobs

open Lib

/-- How often the job was handed to a worker since it was created or last
retried by hand, counted along an execution. -/
def handouts (jobId : UUID) : Queue → List Event → Nat → Nat
  | _, [], count => count
  | queue, event :: events, count =>
    match next queue event with
    | none => count
    | some queue' =>
      handouts jobId queue' events
        (if retries queue.jobs event.time jobId event.op then 0
        else if jobId ∈ claimedIds queue.jobs event.time event.op then count + 1
        else count)

/-- The claim takes no lease over that ran out on the last permitted attempt. -/
def NoExhaustedTakeover (queue : Queue) (event : Event) : Prop :=
  ∀ job ∈ queue.jobs, job.id ∈ claimedIds queue.jobs event.time event.op →
    expired event.time job = true → job.attemptCount < job.maxAttempts

instance (queue : Queue) (event : Event) : Decidable (NoExhaustedTakeover queue event) := by
  unfold NoExhaustedTakeover; infer_instance

/-- A job in the queue has an attempt left, any other has not used too many. -/
def Bounded (job : Job) : Prop :=
  job.attemptCount ≤ job.maxAttempts ∧
    (job.state = .queued ∨ job.state = .retrying → job.attemptCount < job.maxAttempts) ∧
    0 < job.maxAttempts

theorem bounded_new {id workspaceId : UUID} {jobType : JobType} {payload : Payload} {key : Text}
    {maxAttempts now : Nat} (positive : 0 < maxAttempts) :
    Bounded (.new id workspaceId jobType payload key maxAttempts now) :=
  ⟨Nat.zero_le _, fun _ => positive, positive⟩

/-- Failing keeps the counters, and goes back to the queue only with an
attempt left. -/
theorem bounded_fail {errorCode errorMessage : Text} {retryable : Bool}
    {randbelow : Nat → Nat} {now : Nat} {job : Job} (bounded : Bounded job) :
    Bounded (job.fail errorCode errorMessage retryable randbelow now) := by
  obtain ⟨below, -, positive⟩ := bounded
  unfold Job.fail
  dsimp only
  split
  next left =>
    simp only [Bool.and_eq_true, decide_eq_true_eq] at left
    exact ⟨below, fun _ => left.2, positive⟩
  next =>
    refine ⟨below, fun queued => ?_, positive⟩
    dsimp only at queued
    split at queued <;> simp at queued

theorem attemptCount_fail {errorCode errorMessage : Text} {retryable : Bool}
    {randbelow : Nat → Nat} {now : Nat} {job : Job} :
    (job.fail errorCode errorMessage retryable randbelow now).attemptCount = job.attemptCount := by
  unfold Job.fail
  dsimp only
  split <;> rfl

/-- A claimable job with an attempt left, or whose lease did not run out on
the last one, may be claimed. -/
theorem bounded_claimed {worker : Text} {leaseSeconds now : Nat} {job : Job}
    (bounded : Bounded job) (isClaimable : claimable now job = true)
    (takeover : expired now job = true → job.attemptCount < job.maxAttempts) :
    Bounded (job.lease worker leaseSeconds now) := by
  have left : job.attemptCount < job.maxAttempts := by
    rw [claimable, Bool.or_eq_true] at isClaimable
    rcases isClaimable with isDue | isExpired
    · simp only [due, Bool.and_eq_true, Bool.or_eq_true, decide_eq_true_eq] at isDue
      exact bounded.2.1 isDue.1
    · exact takeover isExpired
  refine ⟨left, fun queued => ?_, bounded.2.2⟩
  simp [Job.lease] at queued

theorem bounded_change {jobs : List Job} {now : Nat} {op : Op} {job job' : Job}
    (bounded : Bounded job) (change : RowChange jobs now op job job')
    (takeover : job.id ∈ claimedIds jobs now op → expired now job = true →
      job.attemptCount < job.maxAttempts) : Bounded job' := by
  cases change with
  | kept => exact bounded
  | claimed isClaimable inBatch => exact bounded_claimed bounded isClaimable (takeover inBatch)
  | processed =>
    refine ⟨bounded.1, fun queued => ?_, bounded.2.2⟩
    simp [Job.process] at queued
  | renewed => exact bounded
  | completed =>
    refine ⟨bounded.1, fun queued => ?_, bounded.2.2⟩
    simp [Job.complete] at queued
  | failed => exact bounded_fail bounded
  | retried => exact ⟨Nat.zero_le _, fun _ => bounded.2.2, bounded.2.2⟩

/-! ## Runs -/

/-- Every row is bounded. -/
def AllBounded (queue : Queue) : Prop :=
  Table.Keyed queue.jobs ∧
    ∀ jobId job, Table.lookup queue.jobs jobId = some job → Bounded job

theorem allBounded_empty : AllBounded Queue.empty :=
  ⟨keyed_empty, fun _ _ found => by simp [Queue.empty, Table.lookup] at found⟩

theorem allBounded_next {queue queue' : Queue} {event : Event} (bounded : AllBounded queue)
    (taken : stepOf next queue event queue') (within : NoExhaustedTakeover queue event) :
    AllBounded queue' := by
  refine ⟨keyed_next bounded.1 taken, fun jobId job' found' => ?_⟩
  obtain ⟨-, rfl⟩ := next_eq_some.1 taken
  cases found : Table.lookup queue.jobs jobId with
  | none =>
    obtain ⟨_, _, _, _, _, positive, -, rfl⟩ := applyOp_new found found'
    exact bounded_new positive
  | some job =>
    obtain ⟨_, read, change⟩ := applyOp_row event.time event.op bounded.1 found
    cases read.symm.trans found'
    exact bounded_change (bounded.2 _ _ found) change
      fun inBatch => within job (Table.mem_of_lookup found) inBatch

/-- The count of hand-outs and the `attempt_count` column agree. -/
def Tallied (jobId : UUID) (count : Nat) (queue : Queue) : Prop :=
  match Table.lookup queue.jobs jobId with
  | none => count = 0
  | some job => count = job.attemptCount

theorem tallied_next {jobId : UUID} {count : Nat} {queue queue' : Queue} {event : Event}
    (keyed : Table.Keyed queue.jobs) (tallied : Tallied jobId count queue)
    (taken : stepOf next queue event queue') :
    Tallied jobId
      (if retries queue.jobs event.time jobId event.op then 0
      else if jobId ∈ claimedIds queue.jobs event.time event.op then count + 1
      else count) queue' := by
  obtain ⟨time, op⟩ := event
  obtain ⟨-, rfl⟩ := next_eq_some.1 taken
  cases found : Table.lookup queue.jobs jobId with
  | none =>
    -- a job that is not there cannot be claimed, and a new one starts at zero
    have unclaimed : jobId ∉ claimedIds queue.jobs time op := by
      intro inBatch
      obtain ⟨row, read, -⟩ := row_of_claimedIds keyed inBatch
      cases read.symm.trans found
    have zero : count = 0 := by simpa only [Tallied, found] using tallied
    simp only [Tallied, unclaimed, if_false, zero, ite_self]
    split
    · trivial
    next job' found' =>
      obtain ⟨_, _, _, _, _, -, -, rfl⟩ := applyOp_new found found'
      rfl
  | some job =>
    have same : count = job.attemptCount := by simpa only [Tallied, found] using tallied
    have jobIdEq : job.id = jobId := Table.key_of_lookup found
    subst jobIdEq
    obtain ⟨job', read, change⟩ := applyOp_row time op keyed found
    simp only [Tallied, read, same]
    -- the count moves with a claim and starts again with a retry
    cases change with
    | kept unclaimed unretried => simp [unclaimed, unretried]
    | claimed _ inBatch => simp [retries, inBatch, Job.lease]
    | processed | renewed | completed => rfl
    | failed => exact attemptCount_fail.symm
    | retried _ accepted => simp [accepted, Job.retry]

theorem tallied_run {jobId : UUID} {count : Nat} {queue queue' : Queue} {events : List Event}
    (run : Run (stepOf next) queue events queue') (keyed : Table.Keyed queue.jobs)
    (tallied : Tallied jobId count queue) :
    Tallied jobId (handouts jobId queue events count) queue' := by
  induction run generalizing count with
  | nil => exact tallied
  | cons taken _ ih =>
    have step := ih (keyed_next keyed taken) (tallied_next keyed tallied taken)
    have enabled : next _ _ = some _ := taken
    simpa only [handouts, enabled] using step

/-- A takeover of an exhausted job leaves it with more attempts than permitted. -/
theorem takeover_exceeds {queue queue' : Queue} {event : Event} {job : Job}
    (keyed : Table.Keyed queue.jobs) (taken : stepOf next queue event queue')
    (member : job ∈ queue.jobs) (inBatch : job.id ∈ claimedIds queue.jobs event.time event.op)
    (exhausted : job.maxAttempts ≤ job.attemptCount) :
    ∃ job' ∈ queue'.jobs, job'.maxAttempts < job'.attemptCount := by
  obtain ⟨time, op⟩ := event
  obtain ⟨-, rfl⟩ := next_eq_some.1 taken
  have found : Table.lookup queue.jobs job.id = some job := Table.lookup_of_mem keyed member
  obtain ⟨job', read, change⟩ := applyOp_row time op keyed found
  refine ⟨job', Table.mem_of_lookup read, ?_⟩
  cases change with
  | kept unclaimed => exact absurd inBatch unclaimed
  | claimed => exact Nat.lt_succ_of_le exhausted
  | processed | renewed | completed | failed | retried => simp [claimedIds] at inBatch

/-- In every run without a takeover of an exhausted job, every job has used at
most its permitted attempts and was handed out at most that often since its
creation or last manual retry; after the last hand-out it is not in the queue,
and no further step of such a run claims it.  Conversely, from any state of
such a run, a step keeps the bound only if it is no such takeover. -/
theorem attempts_bounded {events : List Event} {queue : Queue}
    (run : Run (fun q e q' => stepOf next q e q' ∧ NoExhaustedTakeover q e)
      Queue.empty events queue) :
    (∀ job ∈ queue.jobs, job.attemptCount ≤ job.maxAttempts ∧
      handouts job.id Queue.empty events 0 ≤ job.maxAttempts ∧
      (handouts job.id Queue.empty events 0 = job.maxAttempts →
        (job.state = .leased ∨ job.state = .processing ∨ job.state = .deadLetter ∨
          job.state = .failed ∨ job.state = .completed) ∧
        ∀ event, NoExhaustedTakeover queue event →
          job.id ∉ claimedIds queue.jobs event.time event.op)) ∧
    ∀ event queue', stepOf next queue event queue' →
      ((∀ job ∈ queue'.jobs, job.attemptCount ≤ job.maxAttempts) ↔
        NoExhaustedTakeover queue event) := by
  have bounded : AllBounded queue :=
    run.invariant (fun _ _ _ inv step => allBounded_next inv step.1 step.2) allBounded_empty
  have plain : Run (stepOf next) Queue.empty events queue := run.mono fun _ _ _ step => step.1
  constructor
  · intro job member
    have found : Table.lookup queue.jobs job.id = some job :=
      Table.lookup_of_mem bounded.1 member
    have jobBounded := bounded.2 _ _ found
    have start : Tallied job.id 0 Queue.empty := rfl
    have tallied := tallied_run plain keyed_empty start
    simp only [Tallied, found] at tallied
    refine ⟨jobBounded.1, tallied ▸ jobBounded.1, fun last => ?_⟩
    -- a queued job has an attempt left, so a spent one can only be taken over
    have spent : ¬ job.attemptCount < job.maxAttempts := by omega
    have unqueued : ¬ (job.state = .queued ∨ job.state = .retrying) :=
      fun queued => spent (jobBounded.2.1 queued)
    refine ⟨by cases state : job.state <;> simp_all, fun event within inBatch => ?_⟩
    have isExpired : expired event.time job = true := by
      obtain ⟨row, read, isClaimable⟩ := row_of_claimedIds bounded.1 inBatch
      cases read.symm.trans found
      have notDue : due event.time job = false := by
        simp only [due, Bool.and_eq_false_iff]
        left
        simpa using unqueued
      simpa [claimable, notDue] using isClaimable
    exact spent (within job member inBatch isExpired)
  · intro event queue' taken
    constructor
    · intro kept job member inBatch _
      by_contra exhausted
      obtain ⟨job', member', exceeded⟩ :=
        takeover_exceeds bounded.1 taken member inBatch (not_lt.mp exhausted)
      exact absurd (kept job' member') (by omega)
    · intro within job member
      have after := allBounded_next bounded taken within
      exact (after.2 _ _ (Table.lookup_of_mem after.1 member)).1

/-- One attempt permitted; the lease of 60 s runs out and the job is handed out
a second time. -/
def silentCrash : List Event :=
  [⟨0, .enqueue 1 10 .processDocument ⟨some 20, some 30⟩ "upload-1".toList 1⟩,
    ⟨1, .claimJobs firstWorker 1 60 []⟩,
    ⟨60000002, .claimJobs firstWorker 1 60 []⟩]

theorem attempts_exceed_maximum :
    ¬ ∀ events queue, Run (stepOf next) Queue.empty events queue →
      ∀ job ∈ queue.jobs, job.attemptCount ≤ job.maxAttempts := by
  intro bounded
  let crashed : Job := ((Job.new 1 10 .processDocument ⟨some 20, some 30⟩ "upload-1".toList 1
    0).lease firstWorker.name 60 1).lease firstWorker.name 60 60000002
  have run : Run (stepOf next) Queue.empty silentCrash ⟨60000002, [crashed]⟩ := Run.of_exec rfl
  exact absurd (bounded _ _ run crashed List.mem_cons_self) (by decide)

theorem attempts_bounded_first_claim :
    (firstJob.lease firstWorker.name 60 1).attemptCount ≤
      (firstJob.lease firstWorker.name 60 1).maxAttempts :=
  have run : Run (fun q e q' => stepOf next q e q' ∧ NoExhaustedTakeover q e)
      Queue.empty firstClaim ⟨1, [firstJob.lease firstWorker.name 60 1]⟩ :=
    .cons ⟨rfl, by decide⟩ (.cons ⟨rfl, by decide⟩ .nil)
  ((attempts_bounded run).1 _ List.mem_cons_self).1

end SupportPilot.Jobs
