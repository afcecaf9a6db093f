import Mathlib.Logic.Function.Basic
import SupportPilot.Lib.Table

/-! # Transactions under READ COMMITTED

A store holds the committed rows of a table, the transaction that has locked
each row, and the row versions that each open transaction has written.  A
statement sees the committed rows and what its own transaction wrote; it waits
while another transaction holds the lock of a row it needs (`free`); the locks
of a transaction are released when it ends.  An inserted row counts as locked,
as nobody else can write a row with its key before the transaction ends.

The proof rule is `Keeps`: what a transaction has locked and written stays as it
is while other transactions act. -/

namespace SupportPilot.Lib

open Table

structure Store (τ κ ρ : Type*) where
  committed : List ρ
  locks : κ → Option τ
  writes : τ → List ρ

namespace Store

variable {τ κ ρ : Type*}

def empty : Store τ κ ρ := ⟨[], fun _ => none, fun _ => []⟩

/-- The rows locked by the transaction, and its own versions, are as before. -/
structure Keeps [DecidableEq κ] [Row ρ κ] (store store' : Store τ κ ρ) (tx : τ) : Prop where
  locks : ∀ k, store.locks k = some tx → store'.locks k = some tx
  rows : ∀ k, store.locks k = some tx → lookup store'.committed k = lookup store.committed k
  writes : store'.writes tx = store.writes tx

theorem Keeps.refl [DecidableEq κ] [Row ρ κ] (store : Store τ κ ρ) (tx : τ) :
    Keeps store store tx :=
  ⟨fun _ held => held, fun _ _ => rfl, rfl⟩

theorem Keeps.trans [DecidableEq κ] [Row ρ κ] {store store' store'' : Store τ κ ρ} {tx : τ}
    (first : Keeps store store' tx) (second : Keeps store' store'' tx) : Keeps store store'' tx :=
  ⟨fun k held => second.locks k (first.locks k held),
    fun k held => (second.rows k (first.locks k held)).trans (first.rows k held),
    second.writes.trans first.writes⟩

/-- Only rows whose lock a transaction holds are written by it. -/
structure Wf [Row ρ κ] (store : Store τ κ ρ) : Prop where
  keyed : Keyed store.committed
  keyedWrites : ∀ tx, Keyed (store.writes tx)
  locked : ∀ tx, ∀ row ∈ store.writes tx, store.locks (Row.key row) = some tx

theorem wf_empty [Row ρ κ] : (empty : Store τ κ ρ).Wf :=
  ⟨List.nodup_nil, fun _ => List.nodup_nil, fun _ _ member => nomatch member⟩

variable {store : Store τ κ ρ} {tx other : τ} {k : κ} {row : ρ}

/-! ## Waiting for a lock -/

section Locks

variable [DecidableEq τ]

/-- The transaction does not have to wait for the row. -/
def free (store : Store τ κ ρ) (tx : τ) (k : κ) : Bool :=
  store.locks k = none || store.locks k = some tx

theorem free_iff : store.free tx k = true ↔ store.locks k = none ∨ store.locks k = some tx := by
  simp [free]

theorem free_of_held (held : store.locks k = some tx) : store.free tx k = true :=
  free_iff.2 (.inr held)

theorem not_free (locked : store.locks k = some other) (differ : other ≠ tx) :
    ¬ store.free tx k = true := by
  rw [free_iff, locked]
  simp [differ]

/-- End a transaction. -/
def close (store : Store τ κ ρ) (tx : τ) (committed : List ρ) : Store τ κ ρ where
  committed := committed
  locks k := if store.locks k = some tx then none else store.locks k
  writes := Function.update store.writes tx []

def rollback (store : Store τ κ ρ) (tx : τ) : Store τ κ ρ := store.close tx store.committed

theorem writes_close (store : Store τ κ ρ) (tx : τ) (committed : List ρ) :
    (store.close tx committed).writes tx = [] :=
  Function.update_self ..

theorem writes_close_of_ne (differ : other ≠ tx) (committed : List ρ) :
    (store.close tx committed).writes other = store.writes other :=
  Function.update_of_ne differ ..

theorem locks_close_of_held (held : store.locks k = some other) (differ : other ≠ tx)
    (committed : List ρ) : (store.close tx committed).locks k = some other := by
  simp only [close, held, Option.some.injEq, differ, if_false]

theorem held_of_close {committed : List ρ} (held : (store.close tx committed).locks k = some other) :
    store.locks k = some other ∧ other ≠ tx := by
  simp only [close] at held
  split at held
  · cases held
  next differs =>
    refine ⟨held, fun same => ?_⟩
    rw [same] at held
    exact differs held

theorem Wf.close [Row ρ κ] (wf : store.Wf) {committed : List ρ} (keyed : Keyed committed) :
    (store.close tx committed).Wf := by
  refine ⟨keyed, fun holder => ?_, fun holder row member => ?_⟩
  · by_cases same : holder = tx
    · rw [same, writes_close]
      exact List.nodup_nil
    · rw [writes_close_of_ne same]
      exact wf.keyedWrites holder
  · by_cases same : holder = tx
    · rw [same, writes_close] at member
      cases member
    · rw [writes_close_of_ne same] at member
      exact locks_close_of_held (wf.locked holder row member) same committed

theorem Wf.rollback [Row ρ κ] (wf : store.Wf) : (store.rollback tx).Wf := wf.close wf.keyed

theorem keeps_rollback [DecidableEq κ] [Row ρ κ] (differ : other ≠ tx) :
    Keeps store (store.rollback tx) other :=
  ⟨fun _ held => locks_close_of_held held differ _, fun _ _ => rfl, writes_close_of_ne differ _⟩

end Locks

/-! ## Taking a lock -/

section Lock

variable [DecidableEq κ]

def lock (store : Store τ κ ρ) (tx : τ) (k : κ) : Store τ κ ρ :=
  { store with locks := Function.update store.locks k (some tx) }

theorem locks_lock (store : Store τ κ ρ) (tx : τ) (k : κ) : (store.lock tx k).locks k = some tx :=
  Function.update_self ..

/-- A transaction keeps its locks when it takes one more. -/
theorem locks_lock_of_held {k' : κ} (held : store.locks k' = some tx) :
    (store.lock tx k).locks k' = some tx := by
  by_cases same : k' = k
  · rw [same, locks_lock]
  · exact (Function.update_of_ne same ..).trans held

/-- A lock that is there after one was taken. -/
theorem locks_of_lock {k' : κ} (held : (store.lock tx k).locks k' = some other) :
    store.locks k' = some other ∨ other = tx ∧ k' = k := by
  by_cases same : k' = k
  · subst same
    rw [locks_lock, Option.some.injEq] at held
    exact .inr ⟨held.symm, rfl⟩
  · exact .inl ((Function.update_of_ne same ..).symm.trans held)

variable [DecidableEq τ] [Row ρ κ]

theorem Wf.lock (wf : store.Wf) (isFree : store.free tx k = true) : (store.lock tx k).Wf := by
  refine ⟨wf.keyed, wf.keyedWrites, fun holder row member => ?_⟩
  have held := wf.locked holder row member
  by_cases same : Row.key row = k
  · subst same
    rw [locks_lock]
    rw [free_iff, held] at isFree
    exact (isFree.resolve_left (by simp)).symm
  · exact (Function.update_of_ne same ..).trans held

theorem keeps_lock (differ : other ≠ tx) (isFree : store.free tx k = true) :
    Keeps store (store.lock tx k) other := by
  refine ⟨fun k' held => ?_, fun _ _ => rfl, rfl⟩
  by_cases same : k' = k
  · subst same
    exact absurd isFree (not_free held differ)
  · exact (Function.update_of_ne same ..).trans held

end Lock

/-! ## Writing and committing -/

variable [DecidableEq τ] [DecidableEq κ] [Row ρ κ]

/-- Insert or update a row. -/
def write (store : Store τ κ ρ) (tx : τ) (row : ρ) : Store τ κ ρ :=
  { store.lock tx (Row.key row) with
    writes := Function.update store.writes tx (upsert (store.writes tx) row) }

def commit (store : Store τ κ ρ) (tx : τ) : Store τ κ ρ :=
  store.close tx (upsertAll store.committed (store.writes tx))

theorem locks_of_write (held : (store.write tx row).locks k = some other) :
    store.locks k = some other ∨ other = tx ∧ k = Row.key row :=
  locks_of_lock held

theorem writes_write (store : Store τ κ ρ) (tx : τ) (row : ρ) :
    (store.write tx row).writes tx = upsert (store.writes tx) row :=
  Function.update_self ..

theorem writes_write_of_ne (differ : other ≠ tx) (row : ρ) :
    (store.write tx row).writes other = store.writes other :=
  Function.update_of_ne differ ..

theorem Wf.write (wf : store.Wf) (isFree : store.free tx (Row.key row) = true) :
    (store.write tx row).Wf := by
  have locked := (wf.lock isFree).locked
  refine ⟨wf.keyed, fun holder => ?_, fun holder row' member => ?_⟩
  · by_cases same : holder = tx
    · rw [same, writes_write]
      exact keyed_upsert (wf.keyedWrites tx) row
    · rw [writes_write_of_ne same]
      exact wf.keyedWrites holder
  · by_cases same : holder = tx
    · rw [same, writes_write] at member
      rw [same]
      rcases mem_upsert member with rfl | before
      · exact locks_lock ..
      · exact locked tx row' before
    · rw [writes_write_of_ne same] at member
      exact locked holder row' member

theorem Wf.commit (wf : store.Wf) : (store.commit tx).Wf :=
  wf.close (keyed_upsertAll wf.keyed _)

/-- A commit puts the versions of the transaction over the committed ones. -/
theorem lookup_commit (wf : store.Wf) (tx : τ) (k : κ) :
    lookup (store.commit tx).committed k =
      (lookup (store.writes tx) k).or (lookup store.committed k) :=
  lookup_upsertAll (wf.keyedWrites tx) _ k

theorem mem_commit (wf : store.Wf) :
    row ∈ (store.commit tx).committed ↔ row ∈ store.writes tx ∨
      row ∈ store.committed ∧ lookup (store.writes tx) (Row.key row) = none := by
  rw [mem_iff_lookup wf.commit.keyed, lookup_commit wf, mem_iff_lookup (wf.keyedWrites tx),
    mem_iff_lookup wf.keyed]
  cases written : lookup (store.writes tx) (Row.key row) with
  | none => simp
  | some version => simp

theorem keeps_write (differ : other ≠ tx) (isFree : store.free tx (Row.key row) = true) :
    Keeps store (store.write tx row) other :=
  ⟨(keeps_lock differ isFree).locks, fun _ _ => rfl, writes_write_of_ne differ row⟩

theorem keeps_commit (wf : store.Wf) (differ : other ≠ tx) :
    Keeps store (store.commit tx) other := by
  refine ⟨fun _ held => locks_close_of_held held differ _, fun k held => ?_,
    writes_close_of_ne differ _⟩
  rw [lookup_commit wf]
  cases written : lookup (store.writes tx) k with
  | none => rfl
  | some version =>
    have holder := wf.locked tx version (mem_of_lookup written)
    rw [key_of_lookup written, held, Option.some.injEq] at holder
    exact absurd holder differ

end Store

end SupportPilot.Lib
