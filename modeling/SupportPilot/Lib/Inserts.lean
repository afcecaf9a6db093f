import SupportPilot.Lib.ReadCommitted

/-! # Inserts under a unique constraint

Each transaction inserts at most one row, `row tx`, and the key of the store is unique.  `insert`
is the statement: it does not run while another transaction holds the key, and fails if a committed
row has it.  `Inserts` says what the store is made of: the rows from before, those of the
transactions that are done, in the order of their commits, and the rows that are still open, whose
keys nobody else has. -/

namespace SupportPilot.Lib

open Table

namespace Store

variable {τ κ ρ : Type*} [DecidableEq τ] [DecidableEq κ] [Row ρ κ]

/-- The store that holds these rows, with no transaction open. -/
def ofRows (rows : List ρ) : Store τ κ ρ := ⟨rows, fun _ => none, fun _ => []⟩

/-- A committed row has the key. -/
def taken (store : Store τ κ ρ) (k : κ) : Bool := (lookup store.committed k).isSome

/-- `INSERT` of a row whose key the transaction may take; `none` if it violates the constraint. -/
def insert (store : Store τ κ ρ) (tx : τ) (row : ρ) : Option (Store τ κ ρ) :=
  if store.taken (Row.key row) then none else some (store.write tx row)

variable {store : Store τ κ ρ} {tx : τ} {k : κ} {row : ρ}

omit [DecidableEq τ] in
theorem taken_eq_false : store.taken k = false ↔ lookup store.committed k = none := by
  simp [taken]

theorem insert_eq_some {store' : Store τ κ ρ} :
    store.insert tx row = some store' ↔
      store.taken (Row.key row) = false ∧ store.write tx row = store' := by
  rw [insert]
  split
  next taken => simp [taken]
  next isNew => simp [Bool.eq_false_iff.mpr isNew]

theorem insert_eq_none : store.insert tx row = none ↔ store.taken (Row.key row) = true := by
  simp [insert]

theorem committed_commit_of_new (written : store.writes tx = [row])
    (absent : lookup store.committed (Row.key row) = none) :
    (store.commit tx).committed = store.committed ++ [row] := by
  simp [commit, close, written, upsertAll, upsert, absent]

end Store

/-- The rows `row tx` of the transactions that are `done`, after those from `before`, and those
that the transactions with `opens tx` have inserted and not committed. -/
structure Inserts {τ κ ρ : Type*} [DecidableEq κ] [Row ρ κ] (before : List ρ) (row : τ → ρ)
    (store : Store τ κ ρ) (opens : τ → Bool) (done : List τ) : Prop where
  wf : store.Wf
  committed : store.committed = before ++ done.map row
  written : ∀ tx, opens tx = true → store.writes tx = [row tx]
  unwritten : ∀ tx, opens tx = false → store.writes tx = []
  locked : ∀ tx, opens tx = true → store.locks (Row.key (row tx)) = some tx
  absent : ∀ tx, opens tx = true → lookup store.committed (Row.key (row tx)) = none

namespace Inserts

variable {τ κ ρ : Type*} [DecidableEq τ] [DecidableEq κ] [Row ρ κ]
  {before : List ρ} {row : τ → ρ} {store : Store τ κ ρ} {opens opens' : τ → Bool} {done : List τ}
  {tx : τ}

omit [DecidableEq τ] in
theorem start (keyed : Keyed before) (closed : ∀ tx, opens tx = false) :
    Inserts before row (Store.ofRows before) opens ([] : List τ) where
  wf := ⟨keyed, fun _ => List.nodup_nil, fun _ _ member => nomatch member⟩
  committed := (List.append_nil before).symm
  written tx opened := by simp [closed tx] at opened
  unwritten _ _ := rfl
  locked tx opened := by simp [closed tx] at opened
  absent tx opened := by simp [closed tx] at opened

omit [DecidableEq τ] in
/-- Nothing happens to this store. -/
theorem keep (inserts : Inserts before row store opens done) (same : ∀ tx, opens' tx = opens tx) :
    Inserts before row store opens' done := by
  rw [funext same]
  exact inserts

omit [DecidableEq τ] [DecidableEq κ] [Row ρ κ] in
theorem ne_of_opens {other : τ} (closed : opens tx = false) (isOpen : opens other = true) :
    other ≠ tx := by
  rintro rfl
  rw [closed] at isOpen
  cases isOpen

theorem insert (inserts : Inserts before row store opens done)
    (isFree : store.free tx (Row.key (row tx)) = true)
    (isNew : store.taken (Row.key (row tx)) = false) (opened : opens' tx = true)
    (idle : opens tx = false) (others : ∀ other, other ≠ tx → opens' other = opens other) :
    Inserts before row (store.write tx (row tx)) opens' done where
  wf := inserts.wf.write isFree
  committed := inserts.committed
  written other isOpen := by
    by_cases same : other = tx
    · rw [same, Store.writes_write, inserts.unwritten tx idle]
      simp [upsert, lookup]
    · rw [Store.writes_write_of_ne same]
      exact inserts.written other (others other same ▸ isOpen)
  unwritten other isClosed := by
    have differ : other ≠ tx := (ne_of_opens isClosed opened).symm
    rw [Store.writes_write_of_ne differ]
    exact inserts.unwritten other (others other differ ▸ isClosed)
  locked other isOpen := by
    by_cases same : other = tx
    · rw [same]
      exact Store.locks_lock ..
    · have held := inserts.locked other (others other same ▸ isOpen)
      exact (Store.keeps_write same isFree).locks _ held
  absent other isOpen := by
    by_cases same : other = tx
    · rw [same]
      exact Store.taken_eq_false.1 isNew
    · exact inserts.absent other (others other same ▸ isOpen)

theorem rollback (inserts : Inserts before row store opens done) (closed : opens' tx = false)
    (others : ∀ other, other ≠ tx → opens' other = opens other) :
    Inserts before row (store.rollback tx) opens' done where
  wf := inserts.wf.rollback
  committed := inserts.committed
  written other isOpen := by
    have differ := ne_of_opens closed isOpen
    rw [(Store.keeps_rollback differ).writes]
    exact inserts.written other (others other differ ▸ isOpen)
  unwritten other isClosed := by
    by_cases same : other = tx
    · rw [same]
      exact Store.writes_close ..
    · rw [(Store.keeps_rollback same).writes]
      exact inserts.unwritten other (others other same ▸ isClosed)
  locked other isOpen := by
    have differ := ne_of_opens closed isOpen
    exact (Store.keeps_rollback differ).locks _
      (inserts.locked other (others other differ ▸ isOpen))
  absent other isOpen := by
    have differ := ne_of_opens closed isOpen
    exact inserts.absent other (others other differ ▸ isOpen)

/-- The open row of the transaction joins the committed ones. -/
theorem commit (inserts : Inserts before row store opens done) (opened : opens tx = true)
    (closed : opens' tx = false) (others : ∀ other, other ≠ tx → opens' other = opens other) :
    Inserts before row (store.commit tx) opens' (done ++ [tx]) := by
  have differ := fun other (isOpen : opens' other = true) => ne_of_opens closed isOpen
  have keeps := fun other (isOpen : opens' other = true) =>
    Store.keeps_commit inserts.wf (differ other isOpen)
  constructor
  · exact inserts.wf.commit
  · rw [Store.committed_commit_of_new (inserts.written tx opened) (inserts.absent tx opened),
      inserts.committed, List.append_assoc, List.map_append]
    rfl
  · intro other isOpen
    rw [(keeps other isOpen).writes]
    exact inserts.written other (others other (differ other isOpen) ▸ isOpen)
  · intro other isClosed
    by_cases same : other = tx
    · rw [same]
      exact Store.writes_close ..
    · rw [(Store.keeps_commit inserts.wf same).writes]
      exact inserts.unwritten other (others other same ▸ isClosed)
  · intro other isOpen
    exact (keeps other isOpen).locks _
      (inserts.locked other (others other (differ other isOpen) ▸ isOpen))
  · intro other isOpen
    have wasOpen : opens other = true := others other (differ other isOpen) ▸ isOpen
    rw [(keeps other isOpen).rows _ (inserts.locked other wasOpen)]
    exact inserts.absent other wasOpen

omit [DecidableEq τ] in
/-- Two transactions that are done have different keys. -/
theorem key_injective (inserts : Inserts before row store opens done) {other : τ} (first : tx ∈ done)
    (second : other ∈ done)
    (same : (Row.key (row tx) : κ) = Row.key (row other)) : tx = other := by
  have keyed := inserts.wf.keyed
  rw [inserts.committed, Keyed, List.map_append, List.nodup_append, List.map_map] at keyed
  exact List.inj_on_of_nodup_map keyed.2.1 first second same

end Inserts

end SupportPilot.Lib
