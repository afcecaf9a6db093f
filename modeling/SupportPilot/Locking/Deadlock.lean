import SupportPilot.Lib.WaitFor
import SupportPilot.Locking.System

/-! # Deadlocks between the transactions

`finish_document_job` locks the version, the document and at last the job, while
`begin_processing` and `fail_job` lock the job before they update the version.  With two workers
on one job the two orders meet (`deadlock_reachable`).  They do not in the runs where no
transaction turns to the update of a version that a finishing transaction has locked, and no
finishing transaction locks a version that another is about to update (`Orderly`). -/

namespace SupportPilot.Locking

open Lib Table

/-- The version that the final transaction of `finish_document_job` has locked. -/
def Phase.finishing : Phase → Option UUID
  | lockingDocument _ _ version | replacing _ _ version _ | completing _ _ version _ =>
    some version.id
  | _ => none

/-- The locks that a transaction in the phase may have. -/
def Phase.mayHold : Phase → RowKey → Bool
  | readingVersion .., .job _ | updatingVersion .., .job _ => true
  | lockingDocument _ _ version, .version id => version.id = id
  | replacing _ _ version _, .version id => version.id = id
  | replacing .., .document _ => true
  | completing _ _ version _, .version id => version.id = id
  | completing .., .document _ => true
  | deleting _, .document _ | uploading .., .document _ => true
  | ready, _ | raised _, _ => true
  | _, _ => false

/-- The step brings no finishing transaction together with one that updates the same version:
`begin_processing` and `fail_job` turn to the update while no finishing transaction has locked
the version, and one locks it while nobody is about to update it. -/
def Orderly (s : State) (event : Event) : Prop :=
  match s.phases event.tx, event.statement with
  | .readingVersion job _ versionId status, .readVersion =>
    (∃ version, version? s.store.committed job.workspaceId versionId = some version ∧
      version.status ≠ status) → ∀ other, (s.phases other).finishing ≠ some versionId
  | .lockingVersion _ _ versionId, .lockVersion =>
    ∀ other version status, s.phases other = .updatingVersion version status →
      version.id ≠ versionId
  | _, _ => True

def orderlyStep (s : State) (event : Event) (s' : State) : Prop :=
  stepOf next s event s' ∧ Orderly s event

structure LockInv (s : State) : Prop where
  held : ∀ tx k, Holds s tx k → (s.phases tx).mayHold k = true
  apart : ∀ tx version status other, s.phases tx = .updatingVersion version status →
    (s.phases other).finishing ≠ some version.id

section Steps

variable {s s' : State} {tx : TxId} {store : Store TxId RowKey TableRow} {phase : Phase}

attribute [local simp] Phase.finishing Phase.mayHold

theorem lockInv_start (rows : List TableRow) : LockInv (.start rows) := by
  constructor
  · intro tx k held
    cases held
  · intro tx version status other updating
    cases updating

/-! ## What a step may do -/

/-- The locks are those of before, and some that the phase allows the transaction. -/
def Takes (s : State) (tx : TxId) (store : Store TxId RowKey TableRow) (phase : Phase) : Prop :=
  ∀ k other, store.locks k = some other →
    s.store.locks k = some other ∨ other = tx ∧ phase.mayHold k = true

theorem takes_nothing : Takes s tx s.store phase := by
  intro k other held
  exact .inl held

theorem takes_lock {k : RowKey} (allowed : phase.mayHold k = true) :
    Takes s tx (s.store.lock tx k) phase := by
  intro k' other held
  obtain before | ⟨mine, rfl⟩ := Store.locks_of_lock held
  · exact .inl before
  · exact .inr ⟨mine, allowed⟩

theorem Takes.write {row : TableRow} (takes : Takes s tx store phase)
    (allowed : phase.mayHold (Row.key row) = true) : Takes s tx (store.write tx row) phase := by
  intro k other held
  obtain before | ⟨mine, rfl⟩ := Store.locks_of_write held
  · exact takes k other before
  · exact .inr ⟨mine, allowed⟩

theorem Takes.writes {rows : List TableRow} (takes : Takes s tx store phase)
    (allowed : ∀ row ∈ rows, phase.mayHold (Row.key row) = true) :
    Takes s tx (rows.foldl (Store.write · tx) store) phase := by
  induction rows generalizing store with
  | nil => exact takes
  | cons row rows ih =>
    rw [List.forall_mem_cons] at allowed
    exact ih (takes.write allowed.1) allowed.2

theorem LockInv.enter (inv : LockInv s) (takes : Takes s tx store phase)
    (keeps : ∀ k, (s.phases tx).mayHold k = true → phase.mayHold k = true)
    (updates : ∀ version status, phase = .updatingVersion version status →
      ∀ other, (s.phases other).finishing ≠ some version.id)
    (finishes : ∀ id, phase.finishing = some id → (s.phases tx).finishing = some id ∨
      ∀ other version status, s.phases other = .updatingVersion version status →
        version.id ≠ id) :
    LockInv (s.enter tx store phase) := by
  constructor
  · intro other k held
    -- only the row that the step takes is new among its locks
    by_cases same : other = tx
    · subst same
      rw [State.phases_enter]
      obtain before | ⟨-, allowed⟩ := takes k other held
      · exact keeps k (inv.held other k before)
      · exact allowed
    · rw [State.phases_enter_of_ne same]
      have before := (takes k other held).resolve_right fun taken => same taken.1
      exact inv.held other k before
  · intro updater version status other updating
    by_cases moves : updater = tx
    · -- the step turns to the update
      subst moves
      rw [State.phases_enter] at updating
      by_cases same : other = updater
      · rw [same, State.phases_enter, updating]
        simp
      · rw [State.phases_enter_of_ne same]
        exact updates version status updating other
    · rw [State.phases_enter_of_ne moves] at updating
      by_cases same : other = tx
      · -- another transaction is updating while this one may start to finish
        subst same
        rw [State.phases_enter]
        intro isFinishing
        obtain before | away := finishes version.id isFinishing
        · exact inv.apart updater version status other updating before
        · exact away updater version status updating rfl
      · rw [State.phases_enter_of_ne same]
        exact inv.apart updater version status other updating

/-- A step to a phase that is neither of the two. -/
theorem LockInv.leave (inv : LockInv s) (takes : Takes s tx store phase)
    (keeps : ∀ k, (s.phases tx).mayHold k = true → phase.mayHold k = true)
    (updates : ∀ version status, phase ≠ .updatingVersion version status)
    (finishes : phase.finishing = none) : LockInv (s.enter tx store phase) := by
  apply inv.enter takes keeps
  · intro version status updating
    exact absurd updating (updates version status)
  · intro id isFinishing
    rw [finishes] at isFinishing
    cases isFinishing

/-- A step of which only the commit or the rollback is left. -/
theorem LockInv.finish (inv : LockInv s) (takes : Takes s tx store phase)
    (ends : phase = .ready ∨ ∃ error, phase = .raised error) :
    LockInv (s.enter tx store phase) := by
  obtain rfl | ⟨error, rfl⟩ := ends
  · exact inv.leave takes (fun _ _ => rfl) (by simp) rfl
  · exact inv.leave takes (fun _ _ => rfl) (by simp) rfl

/-- The end of a transaction. -/
theorem LockInv.close (inv : LockInv s) (committed : List TableRow) :
    LockInv (s.enter tx (s.store.close tx committed) .idle) := by
  constructor
  · intro other k held
    obtain ⟨before, differs⟩ := Store.held_of_close held
    rw [State.phases_enter_of_ne differs]
    exact inv.held other k before
  · intro updater version status other updating
    by_cases moves : updater = tx
    · subst moves
      rw [State.phases_enter] at updating
      cases updating
    · rw [State.phases_enter_of_ne moves] at updating
      by_cases same : other = tx
      · subst same
        simp
      · rw [State.phases_enter_of_ne same]
        exact inv.apart updater version status other updating

/-! ## The statements -/

theorem LockInv.lockJob (inv : LockInv s) {jobId : UUID} {worker : Text} {now : Nat}
    {write : Job → Job} {changed : List TableRow} {after : Job → Phase}
    (keeps : ∀ job k, (s.phases tx).mayHold k = true → (after job).mayHold k = true)
    (allowed : ∀ job id, (after job).mayHold (.job id) = true)
    (changes : ∀ job, ∀ row ∈ changed, (after job).mayHold (Row.key row) = true)
    (updates : ∀ job version status, after job ≠ .updatingVersion version status)
    (finishes : ∀ job, (after job).finishing = none)
    (locked : s.lockJob tx jobId worker now write changed after = some s') : LockInv s' := by
  unfold State.lockJob at locked
  split at locked
  · cases locked
    exact inv.finish takes_nothing (.inr ⟨_, rfl⟩)
  · split at locked
    · dsimp only at locked
      split at locked
      · cases locked
        exact inv.finish (takes_lock rfl) (.inr ⟨_, rfl⟩)
      · cases locked
        refine inv.leave ((takes_lock (allowed _ _)).writes ?_) (keeps _) (updates _) (finishes _)
        rw [List.forall_mem_append, List.forall_mem_singleton]
        exact ⟨changes _, allowed _ _⟩
    · cases locked

theorem LockInv.readVersion (inv : LockInv s) {job : Job} {update : Update} {versionId : UUID}
    {status : DocumentVersionStatus}
    (reading : s.phases tx = .readingVersion job update versionId status)
    (order : (∃ version, version? s.store.committed job.workspaceId versionId = some version ∧
      version.status ≠ status) → ∀ other, (s.phases other).finishing ≠ some versionId) :
    LockInv (s.readVersion tx job update versionId status) := by
  unfold State.readVersion
  split
  · refine inv.finish takes_nothing ?_
    cases update <;> simp [State.withoutVersion]
  next version found =>
    split
    · exact inv.finish takes_nothing (.inl rfl)
    next differs =>
      apply inv.enter takes_nothing
      · -- the lock of the job stays
        intro k
        rw [reading]
        cases k <;> simp
      · intro version' status' updating other
        cases updating
        rw [id_of_version? found]
        exact order ⟨version, found, differs⟩ other
      · simp

theorem LockInv.lockVersion (inv : LockInv s) {job : Job} {worker : Text} {versionId : UUID}
    (locking : s.phases tx = .lockingVersion job worker versionId)
    (order : ∀ other version status, s.phases other = .updatingVersion version status →
      version.id ≠ versionId)
    (locked : s.lockVersion tx job worker versionId = some s') : LockInv s' := by
  unfold State.lockVersion at locked
  split at locked
  · cases locked
    exact inv.finish takes_nothing (.inr ⟨_, rfl⟩)
  next version found =>
    split at locked
    · cases locked
      have sameId := id_of_version? found
      apply inv.enter (takes_lock (by simp [sameId]))
      · intro k
        rw [locking]
        simp
      · simp
      · intro id isFinishing
        cases isFinishing
        rw [sameId]
        exact .inr order
    · cases locked

theorem LockInv.lockDocument (inv : LockInv s) {job : Job} {worker : Text}
    {version : DocumentVersion} (locking : s.phases tx = .lockingDocument job worker version)
    (locked : s.lockDocument tx job worker version = some s') : LockInv s' := by
  unfold State.lockDocument at locked
  dsimp only at locked
  split at locked
  · cases locked
    exact inv.finish takes_nothing (.inr ⟨_, rfl⟩)
  · split at locked
    · cases locked
      split
      · apply inv.enter (takes_lock rfl)
        · intro k
          rw [locking]
          cases k <;> simp
        · simp
        · intro id isFinishing
          rw [locking]
          exact .inl isFinishing
      · exact inv.finish (takes_lock rfl) (.inr ⟨_, rfl⟩)
    · cases locked

theorem LockInv.replaceVersion (inv : LockInv s) {job : Job} {worker : Text}
    {version : DocumentVersion} {document : Document} {stored : Bool}
    (replacing : s.phases tx = .replacing job worker version document) :
    LockInv (s.replaceVersion tx job worker version document stored) := by
  unfold State.replaceVersion
  split
  · apply inv.enter (takes_nothing.write ?_)
    · intro k
      rw [replacing]
      cases k <;> simp
    · simp
    · intro id isFinishing
      rw [replacing]
      exact .inl isFinishing
    · exact decide_eq_true rfl
  · exact inv.finish takes_nothing (.inr ⟨_, rfl⟩)

theorem LockInv.selectDocument (inv : LockInv s) {workspaceId documentId : UUID} {deletes : Bool}
    (selecting : s.phases tx = .selecting workspaceId documentId deletes)
    (selected : s.selectDocument tx workspaceId documentId deletes = some s') : LockInv s' := by
  -- it holds nothing before
  have keeps : ∀ after k, (s.phases tx).mayHold k = true → Phase.mayHold after k = true := by
    intro after k held
    rw [selecting] at held
    cases held
  unfold State.selectDocument at selected
  split at selected
  · cases selected
    exact inv.finish takes_nothing (.inr ⟨_, rfl⟩)
  · split at selected
    · cases selected
      cases deletes with
      | true => exact inv.leave (takes_lock rfl) (keeps _) (by simp) rfl
      | false => exact inv.leave (takes_lock rfl) (keeps _) (by simp) rfl
    · cases selected

theorem LockInv.deleteDocument (inv : LockInv s) {document : Document} {jobId : UUID} {now : Nat}
    (deleted : s.deleteDocument tx document jobId now = some s') : LockInv s' := by
  unfold State.deleteDocument at deleted
  split at deleted
  · cases deleted
    exact inv.finish ((takes_nothing.write rfl).write rfl) (.inl rfl)
  · cases deleted

theorem LockInv.insert (inv : LockInv s) {workspaceId : UUID} {selected : Option Document}
    {document : Document} {version : DocumentVersion} {jobId : UUID} {key : Text}
    {maxAttempts now : Nat}
    (inserted : s.insert tx workspaceId selected document version jobId key maxAttempts now =
      some s') : LockInv s' := by
  unfold State.insert at inserted
  split at inserted
  · dsimp only at inserted
    split at inserted
    · split at inserted
      · cases inserted
        exact inv.finish ((takes_nothing.write rfl).write rfl) (.inl rfl)
      · cases inserted
    · split at inserted
      · cases inserted
        exact inv.finish (((takes_nothing.write rfl).write rfl).write rfl) (.inl rfl)
      · cases inserted
  · cases inserted

/-- After the job, an update reads the version or ends. -/
theorem afterUpdate_ok (update : Update) (job : Job) :
    (∀ id, (State.afterUpdate update job).mayHold (.job id) = true) ∧
      (∀ version status, State.afterUpdate update job ≠ .updatingVersion version status) ∧
      (State.afterUpdate update job).finishing = none := by
  unfold State.afterUpdate
  split
  · exact ⟨fun _ => rfl, by simp, rfl⟩
  · split
    · split
      · exact ⟨fun _ => rfl, by simp, rfl⟩
      · exact ⟨fun _ => rfl, by simp, rfl⟩
    · exact ⟨fun _ => rfl, by simp, rfl⟩

theorem mayHold_first (program : Program) :
    program.first.finishing = none ∧
      ∀ version status, program.first ≠ .updatingVersion version status := by
  cases program with
  | update | finish | claimJobs | deleteDocument => exact ⟨rfl, by simp [Program.first]⟩
  | upload workspaceId documentId =>
    cases documentId <;> exact ⟨rfl, by simp [Program.first]⟩

theorem LockInv.step {event : Event} (inv : LockInv s) (taken : orderlyStep s event s') :
    LockInv s' := by
  obtain ⟨taken, order⟩ := taken
  obtain ⟨tx, statement⟩ := event
  unfold stepOf next at taken
  dsimp only at taken
  split at taken
  next program idle =>
    cases taken
    refine inv.leave takes_nothing ?_ (mayHold_first program).2 (mayHold_first program).1
    intro k
    rw [idle]
    simp
  next job worker update now later owning =>
    apply inv.lockJob _ _ (by simp) _ _ taken
    · -- it holds nothing before
      intro job k
      rw [owning]
      simp
    · exact fun job => (afterUpdate_ok update job).1
    · exact fun job => (afterUpdate_ok update job).2.1
    · exact fun job => (afterUpdate_ok update job).2.2
  next job update versionId status reading =>
    cases taken
    simp only [Orderly, reading] at order
    exact inv.readVersion reading order
  -- the update itself is the last statement before the commit
  next version status updating =>
    unfold State.updateVersion at taken
    split at taken
    · cases taken
      exact inv.finish (takes_nothing.write rfl) (.inl rfl)
    · cases taken
  next job worker versionId locking =>
    simp only [Orderly, locking] at order
    exact inv.lockVersion locking order taken
  next job worker version locking => exact inv.lockDocument locking taken
  next job worker version document stored replacing =>
    cases taken
    exact inv.replaceVersion replacing
  -- the last lock, of the job: a phase behind it may hold anything
  next job worker version document now later completing =>
    exact inv.lockJob (fun _ _ _ => rfl) (fun _ _ => rfl) (fun _ _ _ => rfl) (by simp) (fun _ => rfl)
      taken
  next worker batchSize leaseSeconds now claiming =>
    cases taken
    exact inv.finish (takes_nothing.writes fun _ _ => rfl) (.inl rfl)
  next workspaceId documentId deletes selecting => exact inv.selectDocument selecting taken
  next document jobId now deleting => exact inv.deleteDocument taken
  next => exact inv.insert taken
  next =>
    cases taken
    exact inv.close _
  next =>
    cases taken
    exact inv.close _
  next => cases taken

theorem lockInv_of_run {rows : List TableRow} {events : List Event}
    (run : Run orderlyStep (.start rows) events s) : LockInv s :=
  run.invariant (fun _ _ _ inv taken => inv.step taken) (lockInv_start rows)

/-! ## No deadlock -/

/-- Goes down along every wait. -/
def Phase.rank : Phase → Nat
  | updatingVersion .. => 1
  | completing .. => 2
  | lockingDocument .. => 3
  | lockingVersion .. => 4
  | _ => 5

attribute [local simp] Phase.wants Phase.rank

theorem rank_of_wants_job {id : UUID} (wants : phase.wants = some (.job id)) : 1 < phase.rank := by
  cases phase <;> simp at wants <;> simp

theorem rank_of_wants_document {id : UUID} (wants : phase.wants = some (.document id)) :
    2 < phase.rank := by
  cases phase <;> simp at wants <;> simp

theorem rank_of_wants_version {id : UUID} (wants : phase.wants = some (.version id)) :
    (∃ version status, phase = .updatingVersion version status ∧ version.id = id) ∨
      3 < phase.rank := by
  cases phase with
  | updatingVersion version status =>
    simp only [Phase.wants, Option.some.injEq, RowKey.version.injEq] at wants
    exact .inl ⟨version, status, rfl, wants⟩
  | lockingVersion => exact .inr (by simp)
  | _ => simp at wants

/-- Nobody waits for a finishing transaction with the lock of a job. -/
theorem LockInv.rank_of_finishing (inv : LockInv s) (t other : TxId) (id : UUID)
    (finishing : (s.phases other).finishing = some id)
    (wants : (s.phases t).wants = some (.version id)) : 3 < (s.phases t).rank := by
  obtain ⟨version, status, updating, rfl⟩ | above := rank_of_wants_version wants
  · exact absurd finishing (inv.apart t version status other updating)
  · exact above

theorem LockInv.rank_lt (inv : LockInv s) {t other : TxId} {k k' : RowKey} (waits : Waits s t k)
    (holds : Holds s other k) (waits' : Waits s other k') :
    (s.phases other).rank < (s.phases t).rank := by
  have allowed := inv.held other k holds
  have apart := inv.rank_of_finishing t other
  unfold Waits at waits waits'
  cases held : s.phases other with
  | idle | readingVersion | replacing | claiming | deleting | uploading | ready | raised =>
    rw [held] at waits'
    cases waits'
  | owning | lockingVersion | selecting =>
    rw [held] at allowed
    cases allowed
  -- it holds only the lock of a job
  | updatingVersion version status =>
    rw [held] at allowed
    cases k with
    | version | document => cases allowed
    | job id => exact rank_of_wants_job waits
  | lockingDocument job worker version =>
    rw [held] at allowed apart
    cases k with
    | job | document => cases allowed
    | version id =>
      obtain rfl : version.id = id := of_decide_eq_true allowed
      exact apart _ rfl waits
  | completing job worker version document =>
    rw [held] at allowed apart
    cases k with
    | job => cases allowed
    | document id => exact rank_of_wants_document waits
    | version id =>
      obtain rfl : version.id = id := of_decide_eq_true allowed
      exact Nat.lt_of_succ_lt (apart _ rfl waits)

/-- In every state that orderly steps reach, over any tables, no set of transactions is
deadlocked. -/
theorem no_deadlock_of_orderly {rows : List TableRow} {events : List Event}
    (run : Run orderlyStep (.start rows) events s) (S : Set TxId) :
    ¬ Deadlocked (Waits s) (Holds s) S := by
  have inv := lockInv_of_run run
  apply not_deadlocked_of_rank fun tx => (s.phases tx).rank
  intro t other k k' waits holds _ waits'
  exact inv.rank_lt waits holds waits'

/-- Where the condition fails, the two transactions deadlock: one is about to update the
version with the lock of the job, the other has the version and comes to the job. -/
theorem deadlocked_of_overlap {t u : TxId} {version other : DocumentVersion}
    {status : DocumentVersionStatus} {job : Job} {worker : Text} {document : Document}
    (differs : t ≠ u)
    (updating : s.phases t = .updatingVersion version status)
    (completing : s.phases u = .completing job worker other document)
    (sameVersion : other.id = version.id)
    (hasVersion : Holds s u (.version other.id)) (hasJob : Holds s t (.job job.id)) :
    Deadlocked (Waits s) (Holds s) {t, u} := by
  have waitsT : Waits s t (.version version.id) := by
    rw [Waits, updating]
    rfl
  have waitsU : Waits s u (.job job.id) := by
    rw [Waits, completing]
    rfl
  exact deadlocked_pair differs waitsT (sameVersion ▸ hasVersion) waitsU hasJob

end Steps

/-! ## Two workers on one job -/

def sampleJob : Job :=
  .new 3 9 .processDocument ⟨some 1, some 2⟩ "upload".toList 5 0

def sampleVersion : DocumentVersion :=
  ⟨2, 9, 1, 1, .version 9 1 2 "a.txt".toList, "a.txt".toList, "text/plain".toList, 1,
    List.replicate 64 '0', .queued, 5⟩

/-- A document with one version, and the job that processes it. -/
def sampleRows : List TableRow :=
  [.document ⟨1, 9, "a".toList, none, 5, none⟩, .version sampleVersion, .job sampleJob]

/-- The first worker claims the job and begins. -/
def firstWorker : List Event :=
  [⟨0, .start (.claimJobs "first".toList 1 1)⟩, ⟨0, .claimJobs 0⟩, ⟨0, .commit⟩,
    ⟨1, .start (.update sampleJob "first".toList .begin)⟩, ⟨1, .lockJob 1 1⟩, ⟨1, .readVersion⟩,
    ⟨1, .updateVersion⟩, ⟨1, .commit⟩]

/-- It comes to its final transaction. -/
def finishes : List Event :=
  [⟨2, .start (.finish sampleJob "first".toList 2)⟩, ⟨2, .lockVersion⟩, ⟨2, .lockDocument⟩,
    ⟨2, .replaceVersion true⟩]

theorem no_deadlock_firstWorker :
    ∃ s, Run orderlyStep (.start sampleRows) (firstWorker ++ finishes) s ∧
    (s.phases 2).finishing = some 2 ∧ ∀ S, ¬ Deadlocked (Waits s) (Holds s) S := by
  obtain ⟨s, run, finishing⟩ : ∃ s, Run orderlyStep (.start sampleRows) (firstWorker ++ finishes) s ∧
      (s.phases 2).finishing = some 2 := by
    refine ⟨_, .cons ⟨rfl, trivial⟩ <| .cons ⟨rfl, trivial⟩ <| .cons ⟨rfl, trivial⟩ <|
      .cons ⟨rfl, trivial⟩ <| .cons ⟨rfl, trivial⟩ <| .cons ⟨rfl, ?_⟩ <| .cons ⟨rfl, trivial⟩ <|
      .cons ⟨rfl, trivial⟩ <| .cons ⟨rfl, trivial⟩ <| .cons ⟨rfl, ?_⟩ <| .cons ⟨rfl, trivial⟩ <|
      .cons ⟨rfl, trivial⟩ .nil, rfl⟩
    · intro _ other finishing
      match other with
      | 0 => cases finishing
      | 1 => cases finishing
      | _ + 2 => cases finishing
    · intro other version status updating
      match other with
      | 0 => cases updating
      | 1 => cases updating
      | 2 => cases updating
      | _ + 3 => cases updating
  exact ⟨s, run, finishing, no_deadlock_of_orderly run⟩

/-- The lease has run out; a second worker claims the job, begins, and fails. -/
def secondWorker : List Event :=
  [⟨3, .start (.claimJobs "second".toList 1 1)⟩, ⟨3, .claimJobs 2000000⟩, ⟨3, .commit⟩,
    ⟨4, .start (.update sampleJob "second".toList .begin)⟩, ⟨4, .lockJob 2000001 2000001⟩,
    ⟨4, .readVersion⟩, ⟨4, .commit⟩,
    ⟨5, .start (.update sampleJob "second".toList (.fail "error".toList 0))⟩,
    ⟨5, .lockJob 2000002 2000002⟩, ⟨5, .readVersion⟩]

theorem deadlock_reachable : ∃ s, Reachable (stepOf next) (.start sampleRows) s ∧
    Deadlocked (Waits s) (Holds s) {5, 2} := by
  obtain ⟨s, version, other, job, document, executed, updating, completing, same, hasVersion,
      hasJob⟩ : ∃ s version other job document,
        exec next (.start sampleRows) (firstWorker ++ finishes ++ secondWorker) = some s ∧
        s.phases 5 = .updatingVersion version .queued ∧
        s.phases 2 = .completing job "first".toList other document ∧ other.id = version.id ∧
        Holds s 2 (.version other.id) ∧ Holds s 5 (.job job.id) :=
    ⟨_, _, _, _, _, rfl, rfl, rfl, rfl, rfl, rfl⟩
  exact ⟨s, ⟨_, Run.of_exec executed⟩,
    deadlocked_of_overlap (by decide) updating completing same hasVersion hasJob⟩

end SupportPilot.Locking
