import SupportPilot.Tenancy.WorkerRefinement

/-! # The claim of jobs in the secured database

`claim_jobs` is the one transaction of the worker that is of no workspace: the policies let a
worker see and change the jobs of all of them, and nothing else.  Its flush updates the claimed rows
one by one, which comes to the one `UPDATE` that the lifecycle model has. -/

namespace SupportPilot.Tenancy

open Lib Policies Workspaces

/-- A transaction that has named its worker. -/
structure Serving (tx : Transaction) : Prop where
  sound : tx.failed = false
  worker : tx.settings.context.isWorker = true
  constraints : Constraints tx.tables
  homes : Homes tx.tables

section Claiming

variable (now clock leaseSeconds : Nat) (workerId : Text) {tx : Transaction}

theorem Serving.open (serving : Serving tx) (row : JobRow) :
    tx.secured.select .jobs row = true ∧ tx.secured.update .jobs row = true := by
  have worker : (tx.settings.context.isCurrent row.workspaceId ||
      tx.settings.context.isWorker) = true := by rw [serving.worker, Bool.or_true]
  exact ⟨worker, worker⟩

theorem run_flushLease {job : JobRow} (serving : Serving tx) (member : job ∈ tx.tables .jobs) :
    ∃ tx', (flushLease now clock leaseSeconds workerId job).run Transaction.execute tx =
        (.ok (job.toJob.lease workerId leaseSeconds clock), tx') ∧
      Serving tx' ∧
      tx'.tables = updated tx.tables .jobs (fun row => row.id = job.id)
        (lease now clock leaseSeconds workerId) := by
  have unique : ((tx.tables .jobs).map fun row => row.id).Nodup := serving.constraints.jobs.1
  have reaches : Reaches tx .jobs (fun row => row.id = job.id)
      (lease now clock leaseSeconds workerId) := by
    refine ⟨serving.sound, fun row _ _ => (serving.open row).1, fun row _ _ => (serving.open row).2,
      fun row _ _ => leavable_iff.2 ?_, fun _ _ _ => rfl⟩
    exact (serving.open (lease now clock leaseSeconds workerId row)).symm
  have accepted := constraints_updateJobs (fun row => row.id = job.id)
    (lease now clock leaseSeconds workerId) serving.constraints fun _ => rfl
  have one : ((tx.tables .jobs).filter fun row => row.id = job.id).length = 1 := by
    rw [filter_key unique member]
    rfl
  have flushed : (flushLease now clock leaseSeconds workerId job).run Transaction.execute tx =
      (.ok (job.toJob.lease workerId leaseSeconds clock), { tx with
        tables := updated tx.tables .jobs (fun row => row.id = job.id)
          (lease now clock leaseSeconds workerId) }) := by
    rw [flushLease, Program.run_bind, run_flushRow reaches one accepted]
    rfl
  exact ⟨_, flushed, ⟨serving.sound, serving.worker, accepted, homes_congr serving.homes rfl rfl⟩,
    rfl⟩

/-- The rows that are claimed, after each other. -/
theorem run_flushLeases (serving : Serving tx) (jobs : List JobRow)
    (unique : (jobs.map fun row => row.id).Nodup) (member : ∀ job ∈ jobs, job ∈ tx.tables .jobs) :
    ∃ tx', (jobs.mapM (flushLease now clock leaseSeconds workerId)).run Transaction.execute tx =
        (.ok (jobs.map fun job => job.toJob.lease workerId leaseSeconds clock), tx') ∧
      Serving tx' ∧
      tx'.tables = updated tx.tables .jobs (fun row => jobs.any fun job => job.id = row.id)
        (lease now clock leaseSeconds workerId) := by
  induction jobs generalizing tx with
  | nil =>
    refine ⟨tx, rfl, serving, ?_⟩
    rw [updated]
    exact (Function.update_eq_self_iff.mpr (by simp [Table.updateWhere])).symm
  | cons job rest ih =>
    rw [List.map_cons, List.nodup_cons] at unique
    obtain ⟨s, ran, serving', wrote⟩ := run_flushLease now clock leaseSeconds workerId serving
      (member job List.mem_cons_self)
    have others : ∀ other ∈ rest, other.id ≠ job.id := fun other there same =>
      unique.1 (same ▸ List.mem_map_of_mem there)
    have member' : ∀ other ∈ rest, other ∈ s.tables .jobs := by
      intro other there
      rw [wrote, updated, Function.update_self]
      refine List.mem_map.mpr ⟨other, member other (List.mem_cons_of_mem _ there), ?_⟩
      rw [if_neg (by simpa using others other there)]
    obtain ⟨tx', ran', serving'', wrote'⟩ := ih serving' unique.2 member'
    refine ⟨tx', ?_, serving'', ?_⟩
    · rw [List.mapM_cons, Program.run_bind, ran]
      simp only [Program.run_bind, ran']
      rfl
    · rw [wrote', wrote, updated, updated, updated, Function.update_idem, Function.update_self]
      congr 1
      rw [Table.updateWhere, Table.updateWhere, Table.updateWhere, List.map_map]
      refine List.map_congr_left fun row _ => ?_
      simp only [Function.comp_apply, List.any_cons]
      by_cases same : row.id = job.id
      · have unclaimed : (rest.any fun other => other.id = job.id) = false := by
          simpa using others
        have id : (lease now clock leaseSeconds workerId row).id = job.id := same
        simp [same, id, unclaimed]
      · simp [same, Ne.symm same]

/-- The claim takes the jobs of all workspaces, and writes what the lifecycle model writes. -/
theorem refines_claimJobs (batchSize : Nat) (locked : List UUID) (named : workerId ≠ [])
    (sound : tx.failed = false) (constraints : Constraints tx.tables) (homes : Homes tx.tables) :
    let claimed := Jobs.claimJobs (database tx.tables).jobs workerId batchSize leaseSeconds clock
      locked
    Program.Simulates Transaction.execute (fun tx : Transaction => database tx.tables) Serving
      Raises tx (claimJobs now clock workerId batchSize leaseSeconds locked)
      (.ok (claimed.1, { database tx.tables with jobs := claimed.2 })) := by
  have entered : (perform (.setWorkerContext workerId)).run Transaction.execute tx =
      (.ok (), { tx with settings := tx.settings.setWorkerContext workerId }) := by
    simp only [perform, Program.run, Transaction.execute, Transaction.executeUnder, sound,
      Bool.false_eq_true, if_false]
  have serving : Serving { tx with settings := tx.settings.setWorkerContext workerId } := by
    refine ⟨sound, ?_, constraints, homes⟩
    have kept : workerId.take 128 ≠ [] := by simpa [List.take_eq_nil_iff] using named
    simp [Context.isWorker, context_setWorkerContext, Option.filter_some, kept]
  refine Program.simulates_of_run entered (Program.simulates_of_run (run_select serving.sound) ?_)
  generalize tx.settings.setWorkerContext workerId = settings at serving
  have rows : ((Transaction.secured { tx with settings }).view tx.tables .jobs).filter
      (fun row => Jobs.claimable clock row.toJob && !locked.contains row.id) =
      (tx.tables .jobs).filter fun row =>
        Jobs.claimable clock row.toJob && !locked.contains row.id :=
    filter_view fun row _ _ => (serving.open row).1
  rw [rows]
  generalize chosen : (((tx.tables .jobs).filter fun row =>
    Jobs.claimable clock row.toJob && !locked.contains row.id).insertionSort fun left right =>
      Jobs.claimedBefore left.toJob right.toJob).take batchSize = jobs
  have selected : Jobs.selectClaimable (database tx.tables).jobs batchSize clock locked =
      jobs.map (·.toJob) := by
    rw [← chosen, List.map_take, List.map_insertionSort _ Jobs.claimedBefore _ _ fun _ _ _ _ => .rfl,
      Jobs.selectClaimable, database, List.filter_map]
    rfl
  have unique : (jobs.map fun row => row.id).Nodup := by
    have ids : ((tx.tables .jobs).map fun row => row.id).Nodup := constraints.jobs.1
    have sorted := (List.perm_insertionSort (fun left right : JobRow =>
      Jobs.claimedBefore left.toJob right.toJob) ((tx.tables .jobs).filter fun row =>
        Jobs.claimable clock row.toJob && !locked.contains row.id)).map fun row => row.id
    rw [← chosen]
    refine ((List.take_sublist _ _).map _).nodup (sorted.nodup_iff.mpr ?_)
    exact (List.filter_sublist.map _).nodup ids
  have member : ∀ job ∈ jobs, job ∈ tx.tables .jobs := by
    intro job there
    rw [← chosen] at there
    exact List.mem_of_mem_filter
      ((List.mem_insertionSort _).mp (List.mem_of_mem_take there))
  obtain ⟨tx', ran, serving', wrote⟩ := run_flushLeases now clock leaseSeconds workerId serving
    jobs unique member
  refine ⟨tx', ?_, ?_, serving'⟩
  · rw [Jobs.claimJobs, selected, List.map_map]
    exact ran
  · show database tx'.tables = _
    rw [wrote, Jobs.claimJobs, selected]
    have written : (Table.updateWhere (fun row : JobRow => jobs.any fun job => job.id = row.id)
          (lease now clock leaseSeconds workerId) (tx.tables .jobs)).map (·.toJob) =
        Table.updateWhere (fun job => (jobs.map (·.toJob)).any fun row => row.id = job.id)
          (Job.lease workerId leaseSeconds clock) ((tx.tables .jobs).map (·.toJob)) :=
      map_updateWhere (fun row => by rw [List.any_map]; rfl) fun _ => rfl
    exact congrArg (fun jobs => { database tx.tables with jobs }) written

end Claiming

end SupportPilot.Tenancy
