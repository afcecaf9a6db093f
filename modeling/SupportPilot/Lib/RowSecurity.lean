import SupportPilot.Lib.Table

/-! # Row level security

A database has a list of rows for each table.  A write inserts, changes or deletes rows, and
policies say which rows a session may see and write: a write reaches only rows that may be seen
and written, and is refused when a new row may not be written or seen.  What else a database does
with a write is a `Schema`: its triggers, which read what the session sees, what goes with deleted
rows, and its constraints, which read everything.

Three questions are answered for an accepted write.  What it leaves as it was
(`filter_insert`, `filter_update`); what it reveals: databases that look the same to a session
look the same after it (`execute_alike`); and when the policies make no difference to it
(`execute_bypass`). -/

namespace SupportPilot.Lib

variable {τ : Type} {ρ : τ → Type}

/-- The rows of each table. -/
abbrev Rows (ρ : τ → Type) := (t : τ) → List (ρ t)

/-- A condition on the rows of each table. -/
abbrev Where (ρ : τ → Type) := (t : τ) → ρ t → Bool

inductive Write (ρ : τ → Type) where
  | insert (rows : Rows ρ)
  | update (chosen : Where ρ) (set : (t : τ) → ρ t → ρ t)
  | delete (chosen : Where ρ)

/-- Why a write is refused. -/
inductive Refusal where
  | trigger | policy | constraint
  deriving DecidableEq

/-- `FOR SELECT USING`, `FOR INSERT WITH CHECK`, `FOR UPDATE USING … WITH CHECK` and
`FOR DELETE USING`. -/
structure Policies (ρ : τ → Type) where
  select : Where ρ
  insert : Where ρ
  update : Where ρ
  updated : Where ρ
  delete : Where ρ

namespace Policies

/-- No row level security. -/
def bypass : Policies ρ :=
  ⟨fun _ _ => true, fun _ _ => true, fun _ _ => true, fun _ _ => true, fun _ _ => true⟩

variable (policies : Policies ρ) (chosen : Where ρ)

/-- The rows that the session sees. -/
def view (db : Rows ρ) : Rows ρ := fun t => (db t).filter (policies.select t)

/-- The rows that an `UPDATE` of the chosen rows reaches. -/
def updatable : Where ρ := fun t row => chosen t row && (policies.select t row && policies.update t row)

/-- The rows that a `DELETE` of the chosen rows reaches. -/
def deletable : Where ρ := fun t row => chosen t row && (policies.select t row && policies.delete t row)

/-- The session may leave such a row behind an `INSERT` or an `UPDATE`. -/
def insertable : Where ρ := fun t row => policies.insert t row && policies.select t row

def leavable : Where ρ := fun t row => policies.updated t row && policies.select t row

/-- The rows that a write returns: those it inserted, as it changed them, or deleted. -/
def returned (db : Rows ρ) : Write ρ → Rows ρ
  | .insert rows => rows
  | .update chosen set => fun t => ((db t).filter (policies.updatable chosen t)).map (set t)
  | .delete chosen => fun t => (db t).filter (policies.deletable chosen t)

variable {policies chosen} {t : τ} {row : ρ t}

theorem updatable_iff : policies.updatable chosen t row = true ↔
    chosen t row = true ∧ policies.select t row = true ∧ policies.update t row = true := by
  simp [updatable]

theorem deletable_iff : policies.deletable chosen t row = true ↔
    chosen t row = true ∧ policies.select t row = true ∧ policies.delete t row = true := by
  simp [deletable]

theorem insertable_iff : policies.insertable t row = true ↔
    policies.insert t row = true ∧ policies.select t row = true := by
  simp [insertable]

theorem leavable_iff : policies.leavable t row = true ↔
    policies.updated t row = true ∧ policies.select t row = true := by
  simp [leavable]

theorem mem_view {db : Rows ρ} :
    row ∈ policies.view db t ↔ row ∈ db t ∧ policies.select t row = true :=
  List.mem_filter

/-- Where only visible rows are asked for, nothing is hidden. -/
theorem filter_view {db : Rows ρ} {p : ρ t → Bool}
    (visible : ∀ row ∈ db t, p row = true → policies.select t row = true) :
    (policies.view db t).filter p = (db t).filter p := by
  rw [view, List.filter_filter]
  refine List.filter_congr fun row member => ?_
  cases holds : p row with
  | false => rfl
  | true => simp [visible row member holds]

theorem find_view {db : Rows ρ} {p : ρ t → Bool}
    (visible : ∀ row ∈ db t, p row = true → policies.select t row = true) :
    (policies.view db t).find? p = (db t).find? p := by
  rw [← List.head?_filter, filter_view visible, List.head?_filter]

theorem any_view {db : Rows ρ} {p : ρ t → Bool}
    (visible : ∀ row ∈ db t, p row = true → policies.select t row = true) :
    (policies.view db t).any p = (db t).any p := by
  rw [← List.isSome_find?, find_view visible, List.isSome_find?]

theorem view_bypass (db : Rows ρ) : bypass.view db = db := by
  funext t
  simp [view, bypass]

end Policies

structure Schema (ρ : τ → Type) where
  tables : List τ
  complete : ∀ t, t ∈ tables
  /-- The triggers let a new version of a row through; they read the first argument. -/
  trigger : Rows ρ → (t : τ) → Option (ρ t) → ρ t → Bool
  /-- Delete the rows, and do what the foreign keys to them say. -/
  cascade : Rows ρ → Where ρ → Rows ρ
  accepts : Rows ρ → Bool
  cascade_congr : ∀ {db : Rows ρ} {p q : Where ρ}, (∀ t, ∀ row ∈ db t, p t row = q t row) →
    cascade db p = cascade db q

namespace Schema

variable (schema : Schema ρ) (policies : Policies ρ)

/-- Every row meets the condition. -/
def every (rows : Rows ρ) (p : Where ρ) : Bool :=
  schema.tables.all fun t => (rows t).all (p t)

/-- The constraints are checked at the end of the write. -/
def check (db : Rows ρ) : Except Refusal (Rows ρ) :=
  if schema.accepts db then .ok db else .error .constraint

def execute (db : Rows ρ) : Write ρ → Except Refusal (Rows ρ)
  | .insert rows =>
    if !schema.every rows fun t row => schema.trigger (policies.view db) t none row then
      .error .trigger
    else if !schema.every rows policies.insertable then .error .policy
    else schema.check fun t => db t ++ rows t
  | .update chosen set =>
    let changed := policies.updatable chosen
    if !schema.every db fun t row =>
        !changed t row || schema.trigger (policies.view db) t (some row) (set t row) then
      .error .trigger
    else if !schema.every db fun t row =>
        !changed t row || policies.leavable t (set t row) then
      .error .policy
    else schema.check fun t => Table.updateWhere (changed t) (set t) (db t)
  | .delete chosen => schema.check (schema.cascade db (policies.deletable chosen))

variable {schema policies} {db db' after after' : Rows ρ} {p : Where ρ} {w : Write ρ}

theorem every_iff {rows : Rows ρ} :
    schema.every rows p = true ↔ ∀ t, ∀ row ∈ rows t, p t row = true := by
  simp only [every, List.all_eq_true]
  exact ⟨fun holds t => holds t (schema.complete t), fun holds t _ => holds t⟩

theorem every_or_iff {rows : Rows ρ} {q : Where ρ} :
    schema.every rows (fun t row => !p t row || q t row) = true ↔
      ∀ t, ∀ row ∈ rows t, p t row = true → q t row = true := by
  simp only [every_iff, Bool.or_eq_true, Bool.not_eq_true']
  refine forall₃_congr fun t row _ => ?_
  cases p t row <;> simp

theorem check_eq_ok : schema.check db = .ok after ↔ schema.accepts db = true ∧ after = db := by
  rw [check]
  split <;> simp [*, eq_comm]

/-! ## What an accepted write is -/

inductive Accepted (schema : Schema ρ) (policies : Policies ρ) (db : Rows ρ) :
    Write ρ → Rows ρ → Prop
  | insert {rows : Rows ρ}
      (fires : ∀ t, ∀ row ∈ rows t, schema.trigger (policies.view db) t none row = true)
      (allowed : ∀ t, ∀ row ∈ rows t, policies.insertable t row = true)
      (accepted : schema.accepts (fun t => db t ++ rows t) = true) :
      Accepted schema policies db (.insert rows) fun t => db t ++ rows t
  | update {chosen : Where ρ} {set : (t : τ) → ρ t → ρ t}
      (fires : ∀ t, ∀ row ∈ db t, policies.updatable chosen t row = true →
        schema.trigger (policies.view db) t (some row) (set t row) = true)
      (allowed : ∀ t, ∀ row ∈ db t, policies.updatable chosen t row = true →
        policies.leavable t (set t row) = true)
      (accepted : schema.accepts
        (fun t => Table.updateWhere (policies.updatable chosen t) (set t) (db t)) = true) :
      Accepted schema policies db (.update chosen set)
        fun t => Table.updateWhere (policies.updatable chosen t) (set t) (db t)
  | delete {chosen : Where ρ}
      (accepted : schema.accepts (schema.cascade db (policies.deletable chosen)) = true) :
      Accepted schema policies db (.delete chosen)
        (schema.cascade db (policies.deletable chosen))

theorem execute_eq_ok : schema.execute policies db w = .ok after ↔
    Accepted schema policies db w after := by
  constructor
  · intro executed
    cases w with
    | insert rows =>
      simp only [execute] at executed
      split at executed
      · cases executed
      next fires =>
        split at executed
        · cases executed
        next allowed =>
          rw [Bool.not_eq_true', Bool.not_eq_false, every_iff] at fires allowed
          obtain ⟨accepted, rfl⟩ := check_eq_ok.1 executed
          exact .insert fires allowed accepted
    | update chosen set =>
      simp only [execute] at executed
      split at executed
      · cases executed
      next fires =>
        split at executed
        · cases executed
        next allowed =>
          rw [Bool.not_eq_true', Bool.not_eq_false, every_or_iff] at fires allowed
          obtain ⟨accepted, rfl⟩ := check_eq_ok.1 executed
          exact .update fires allowed accepted
    | delete chosen =>
      obtain ⟨accepted, rfl⟩ := check_eq_ok.1 executed
      exact .delete accepted
  · intro accepted
    cases accepted with
    | @insert rows fires allowed accepted =>
      have fires' : schema.every rows _ = true := every_iff.2 fires
      have allowed' : schema.every rows _ = true := every_iff.2 allowed
      simp [execute, fires', allowed', check, accepted]
    | @update chosen set fires allowed accepted =>
      have fires' : schema.every db _ = true := every_or_iff.2 fires
      have allowed' : schema.every db _ = true := every_or_iff.2 allowed
      simp [execute, fires', allowed', check, accepted]
    | delete accepted => simp [execute, check, accepted]

theorem accepts_of_execute (executed : schema.execute policies db w = .ok after) :
    schema.accepts after = true := by
  cases execute_eq_ok.1 executed with
  | insert _ _ accepted => exact accepted
  | update _ _ accepted => exact accepted
  | delete accepted => exact accepted

/-! ## What it leaves as it was -/

theorem filter_insert {t : τ} {rows added : List (ρ t)} {q : ρ t → Bool}
    (outside : ∀ row ∈ added, q row = false) :
    (rows ++ added).filter q = rows.filter q := by
  have none : added.filter q = [] := by simpa [List.filter_eq_nil_iff] using outside
  rw [List.filter_append, none, List.append_nil]

theorem filter_update {t : τ} {rows : List (ρ t)} {changed q : ρ t → Bool} {f : ρ t → ρ t}
    (outside : ∀ row ∈ rows, changed row = true → q row = false ∧ q (f row) = false) :
    (Table.updateWhere changed f rows).filter q = rows.filter q := by
  induction rows with
  | nil => rfl
  | cons row rows ih =>
    have rest := ih fun row member => outside row (List.mem_cons_of_mem _ member)
    rw [Table.updateWhere, List.map_cons, List.filter_cons, List.filter_cons]
    split
    next chosen =>
      obtain ⟨before, later⟩ := outside row List.mem_cons_self chosen
      rw [before, later]
      exact rest
    next => rw [← rest, Table.updateWhere]

/-! ## What it reveals -/

open Policies

section Alike

variable {seen : Where ρ}

/-- The rows that an observer sees. -/
def pick (seen : Where ρ) (db : Rows ρ) : Rows ρ := fun t => (db t).filter (seen t)

theorem mem_pick {t : τ} {row : ρ t} : row ∈ pick seen db t ↔ row ∈ db t ∧ seen t row = true :=
  List.mem_filter

/-- A change of rows that are seen before and after changes what is seen. -/
theorem pick_update {changed : Where ρ} {set : (t : τ) → ρ t → ρ t}
    (shown : ∀ t, ∀ row ∈ db t, changed t row = true →
      seen t row = true ∧ seen t (set t row) = true) :
    (pick seen fun t => Table.updateWhere (changed t) (set t) (db t)) =
      fun t => Table.updateWhere (changed t) (set t) (pick seen db t) := by
  funext t
  have shown := shown t
  simp only [pick]
  generalize db t = rows at shown
  induction rows with
  | nil => rfl
  | cons row rows ih =>
    have rest := ih fun row member => shown row (List.mem_cons_of_mem _ member)
    simp only [Table.updateWhere, List.map_cons] at rest ⊢
    by_cases change : changed t row = true
    · obtain ⟨before, later⟩ := shown row List.mem_cons_self change
      rw [if_pos change, List.filter_cons_of_pos later, List.filter_cons_of_pos before,
        List.map_cons, if_pos change, rest]
    · rw [if_neg change, List.filter_cons, List.filter_cons, rest]
      split <;> simp [change]

/-- Databases that look the same to somebody who sees at least what the session sees look the same
to him after a write, where the cascades do not show him more. -/
theorem execute_alike (within : ∀ t row, policies.select t row = true → seen t row = true)
    (alike : pick seen db = pick seen db')
    (cascades : ∀ chosen, pick seen (schema.cascade db (policies.deletable chosen)) =
      pick seen (schema.cascade db' (policies.deletable chosen)))
    (executed : schema.execute policies db w = .ok after)
    (executed' : schema.execute policies db' w = .ok after') :
    pick seen after = pick seen after' := by
  have shown : ∀ {chosen : Where ρ} {set : (t : τ) → ρ t → ρ t} {db : Rows ρ},
      (∀ t, ∀ row ∈ db t, policies.updatable chosen t row = true →
        policies.leavable t (set t row) = true) →
      ∀ t, ∀ row ∈ db t, policies.updatable chosen t row = true →
        seen t row = true ∧ seen t (set t row) = true := fun allowed t row member changed =>
    ⟨within t row (updatable_iff.1 changed).2.1,
      within t _ (leavable_iff.1 (allowed t row member changed)).2⟩
  cases execute_eq_ok.1 executed with
  | insert _ _ _ =>
    cases execute_eq_ok.1 executed' with
    | insert _ _ _ =>
      funext t
      have same := congrFun alike t
      simp only [pick, List.filter_append] at same ⊢
      rw [same]
  | update _ allowed _ =>
    cases execute_eq_ok.1 executed' with
    | update _ allowed' _ => rw [pick_update (shown allowed), pick_update (shown allowed'), alike]
  | @delete chosen _ =>
    cases execute_eq_ok.1 executed' with
    | delete _ => exact cascades chosen

end Alike

/-- What a write returns is read off the view. -/
theorem returned_alike (alike : policies.view db = policies.view db') :
    policies.returned db w = policies.returned db' w := by
  cases w with
  | insert rows => rfl
  | update chosen set =>
    funext t
    have seen : ∀ row, policies.updatable chosen t row = true → policies.select t row = true :=
      fun row holds => (updatable_iff.1 holds).2.1
    simp only [returned]
    rw [← filter_view fun row _ => seen row, alike, filter_view fun row _ => seen row]
  | delete chosen =>
    funext t
    have seen : ∀ row, policies.deletable chosen t row = true → policies.select t row = true :=
      fun row holds => (deletable_iff.1 holds).2.1
    simp only [returned]
    rw [← filter_view fun row _ => seen row, alike, filter_view fun row _ => seen row]

/-! ## When the policies make no difference -/

/-- The session may see and write everything that the write is about, and the triggers find what
they look for. -/
def Open (schema : Schema ρ) (policies : Policies ρ) (db : Rows ρ) : Write ρ → Prop
  | .insert rows => ∀ t, ∀ row ∈ rows t, policies.insertable t row = true ∧
      schema.trigger (policies.view db) t none row = schema.trigger db t none row
  | .update chosen set => ∀ t, ∀ row ∈ db t, chosen t row = true →
      (policies.select t row = true ∧ policies.update t row = true) ∧
        policies.leavable t (set t row) = true ∧
        schema.trigger (policies.view db) t (some row) (set t row) =
          schema.trigger db t (some row) (set t row)
  | .delete chosen => ∀ t, ∀ row ∈ db t, chosen t row = true →
      policies.select t row = true ∧ policies.delete t row = true

theorem every_congr {rows : Rows ρ} {q : Where ρ}
    (same : ∀ t, ∀ row ∈ rows t, p t row = q t row) :
    schema.every rows p = schema.every rows q := by
  rw [Bool.eq_iff_iff, every_iff, every_iff]
  refine forall₃_congr fun t row member => ?_
  rw [same t row member]

/-- The same rows are changed. -/
theorem updatable_open {chosen : Where ρ} {set : (t : τ) → ρ t → ρ t}
    (isOpen : Open schema policies db (.update chosen set)) :
    ∀ t, ∀ row ∈ db t, policies.updatable chosen t row = bypass.updatable chosen t row := by
  intro t row member
  cases holds : chosen t row with
  | false => simp [updatable, holds]
  | true => simp [updatable, holds, isOpen t row member holds, bypass]

theorem deletable_open {chosen : Where ρ} (isOpen : Open schema policies db (.delete chosen)) :
    ∀ t, ∀ row ∈ db t, policies.deletable chosen t row = bypass.deletable chosen t row := by
  intro t row member
  cases holds : chosen t row with
  | false => simp [deletable, holds]
  | true => simp [deletable, holds, isOpen t row member holds, bypass]

theorem execute_bypass (isOpen : Open schema policies db w) :
    schema.execute policies db w = schema.execute bypass db w := by
  cases w with
  | insert rows =>
    have allowed : schema.every rows policies.insertable = true :=
      every_iff.2 fun t row member => (isOpen t row member).1
    have allowed' : schema.every rows (bypass : Policies ρ).insertable = true :=
      every_iff.2 fun _ _ _ => rfl
    simp only [execute, view_bypass, allowed, allowed',
      every_congr fun t row member => (isOpen t row member).2]
  | update chosen set =>
    have same := updatable_open isOpen
    have changed : (fun t => Table.updateWhere (policies.updatable chosen t) (set t) (db t)) =
        fun t => Table.updateWhere ((bypass : Policies ρ).updatable chosen t) (set t) (db t) := by
      funext t
      exact List.map_congr_left fun row member => by rw [same t row member]
    have fires : schema.every db (fun t row => !policies.updatable chosen t row ||
          schema.trigger (policies.view db) t (some row) (set t row)) =
        schema.every db fun t row => !(bypass : Policies ρ).updatable chosen t row ||
          schema.trigger db t (some row) (set t row) := by
      refine every_congr fun t row member => ?_
      rw [same t row member]
      cases holds : chosen t row with
      | false => simp [updatable, holds]
      | true => rw [(isOpen t row member holds).2.2]
    have allowed : schema.every db (fun t row => !policies.updatable chosen t row ||
          policies.leavable t (set t row)) = true := by
      refine every_or_iff.2 fun t row member holds => ?_
      exact (isOpen t row member (updatable_iff.1 holds).1).2.1
    have allowed' : schema.every db (fun t row => !(bypass : Policies ρ).updatable chosen t row ||
          (bypass : Policies ρ).leavable t (set t row)) = true :=
      every_or_iff.2 fun _ _ _ _ => rfl
    simp only [execute, view_bypass, fires, allowed, allowed', changed]
  | delete chosen =>
    rw [execute, execute, schema.cascade_congr (deletable_open isOpen)]

theorem returned_bypass (isOpen : Open schema policies db w) :
    policies.returned db w = bypass.returned db w := by
  cases w with
  | insert rows => rfl
  | update chosen set =>
    funext t
    exact congrArg (List.map (set t)) (List.filter_congr (updatable_open isOpen t))
  | delete chosen =>
    funext t
    exact List.filter_congr (deletable_open isOpen t)

end Schema

end SupportPilot.Lib
