import Mathlib.Data.List.Nodup
import Mathlib.Data.List.Sort

/-! # Tables of keyed rows

A database table is a list of rows, each with a primary key.  `lookup` reads
the row of a key, `updateWhere` is `UPDATE … SET f WHERE p`, and `save` writes
one changed row back.  Everything a proof needs to know about an update is
`lookup_map`: an update that keeps the keys acts on each row separately.

`orderBy` is `ORDER BY`: where the sort key tells the rows apart, its result does
not depend on how the rows are stored (`orderBy_congr`). -/

namespace SupportPilot.Lib

/-- Rows of type `ρ` carry a primary key of type `κ`. -/
class Row (ρ : Type*) (κ : outParam (Type*)) where
  key : ρ → κ

namespace Table

/-- `UPDATE … SET f WHERE p`. -/
def updateWhere {ρ : Type*} (p : ρ → Bool) (f : ρ → ρ) (rows : List ρ) : List ρ :=
  rows.map fun row => if p row then f row else row

variable {ρ κ : Type*} [Row ρ κ] {rows : List ρ} {row row' : ρ} {k : κ}

/-- Primary keys are unique. -/
def Keyed (rows : List ρ) : Prop :=
  (rows.map (Row.key : ρ → κ)).Nodup

theorem keyed_map {g : ρ → ρ} (keeps : ∀ row, Row.key (g row) = Row.key row)
    (keyed : Keyed rows) : Keyed (rows.map g) := by
  simpa only [Keyed, List.map_map, Function.comp_def, keeps] using keyed

theorem keyed_updateWhere {p : ρ → Bool} {f : ρ → ρ}
    (keeps : ∀ row, p row = true → Row.key (f row) = Row.key row) (keyed : Keyed rows) :
    Keyed (updateWhere p f rows) := by
  refine keyed_map (fun row => ?_) keyed
  split
  next selected => exact keeps row selected
  · rfl

variable [DecidableEq κ]

/-- The row with key `k`. -/
def lookup (rows : List ρ) (k : κ) : Option ρ :=
  rows.find? fun row => Row.key row = k

/-- Write `row` over the row with its key. -/
def save (rows : List ρ) (row : ρ) : List ρ :=
  updateWhere (fun old => Row.key old = Row.key row) (fun _ => row) rows

theorem key_of_lookup (found : lookup rows k = some row) : Row.key row = k := by
  simpa using List.find?_some found

theorem mem_of_lookup (found : lookup rows k = some row) : row ∈ rows :=
  List.mem_of_find?_eq_some found

theorem lookup_of_mem (keyed : Keyed rows) (member : row ∈ rows) :
    lookup rows (Row.key row) = some row := by
  induction rows with
  | nil => cases member
  | cons head tail ih =>
    simp only [Keyed, List.map_cons, List.nodup_cons] at keyed
    rcases List.mem_cons.mp member with rfl | later
    · simp [lookup]
    · have differs : Row.key head ≠ Row.key row := fun same =>
        keyed.1 (same ▸ List.mem_map_of_mem later)
      simp only [lookup, List.find?_cons, differs, decide_false]
      exact ih keyed.2 later

theorem lookup_eq_none : lookup rows k = none ↔ ∀ row ∈ rows, Row.key row ≠ k := by
  simp [lookup]

/-- A change of rows that keeps their keys acts on every lookup separately. -/
theorem lookup_map {g : ρ → ρ} (keeps : ∀ row, Row.key (g row) = Row.key row) :
    lookup (rows.map g) k = (lookup rows k).map g := by
  simp only [lookup, List.find?_map, Function.comp_def, keeps]

theorem lookup_updateWhere {p : ρ → Bool} {f : ρ → ρ}
    (keeps : ∀ row, p row = true → Row.key (f row) = Row.key row) :
    lookup (updateWhere p f rows) k =
      (lookup rows k).map fun row => if p row then f row else row := by
  refine lookup_map fun row => ?_
  split
  next selected => exact keeps row selected
  · rfl

theorem lookup_save (found : lookup rows (Row.key row) = some row') (k : κ) :
    lookup (save rows row) k = if k = Row.key row then some row else lookup rows k := by
  refine (lookup_updateWhere fun old same => (of_decide_eq_true same).symm).trans ?_
  split
  next same =>
    subst same
    simp [found, key_of_lookup found]
  next other =>
    cases read : lookup rows k with
    | none => rfl
    | some old => simp [key_of_lookup read, other]

/-- Writing over rows adds none. -/
theorem lookup_save_of_none (absent : lookup rows k = none) :
    lookup (save rows row) k = none := by
  rw [lookup_eq_none] at absent ⊢
  intro row' member
  rcases List.mem_map.mp member with ⟨old, present, rfl⟩
  split
  next same =>
    rw [← of_decide_eq_true same]
    exact absent old present
  next => exact absent old present

theorem keyed_save (keyed : Keyed rows) : Keyed (save rows row) :=
  keyed_updateWhere (fun _ same => (of_decide_eq_true same).symm) keyed

theorem mem_save (member : row' ∈ save rows row) :
    row' = row ∨ row' ∈ rows ∧ Row.key row' ≠ Row.key row := by
  obtain ⟨old, present, rfl⟩ := List.mem_map.mp member
  dsimp only
  split
  · exact .inl rfl
  next other => exact .inr ⟨present, by simpa using other⟩

theorem lookup_append_of_none (absent : lookup rows (Row.key row) = none) :
    lookup (rows ++ [row]) k = if k = Row.key row then some row else lookup rows k := by
  by_cases same : k = Row.key row
  · subst same
    simp only [lookup] at absent
    simp [lookup, List.find?_append, absent]
  · simp [lookup, List.find?_append, Ne.symm same, same]

theorem keyed_append (keyed : Keyed rows) (absent : lookup rows (Row.key row) = none) :
    Keyed (rows ++ [row]) := by
  rw [lookup_eq_none] at absent
  simp only [Keyed, List.map_append, List.map_cons, List.map_nil, List.nodup_append]
  refine ⟨keyed, List.nodup_singleton _, ?_⟩
  intro left present right singleton
  obtain ⟨old, member, rfl⟩ := List.mem_map.mp present
  rw [List.mem_singleton.mp singleton]
  exact absent old member

theorem mem_iff_lookup (keyed : Keyed rows) :
    row ∈ rows ↔ lookup rows (Row.key row) = some row :=
  ⟨lookup_of_mem keyed, mem_of_lookup⟩

omit [Row ρ κ] [DecidableEq κ] in
/-- A query that selects exactly one row. -/
theorem filter_eq_singleton {p : ρ → Bool} (distinct : rows.Nodup) (member : row ∈ rows)
    (holds : p row = true) (only : ∀ other ∈ rows, p other = true → other = row) :
    rows.filter p = [row] := by
  have constant : rows.filter p = List.replicate (rows.filter p).length row :=
    List.eq_replicate_of_mem fun other selected =>
      only other (List.mem_of_mem_filter selected) (List.of_mem_filter selected)
  have short : (rows.filter p).length ≤ 1 := by
    apply List.nodup_replicate.mp
    rw [← constant]
    exact distinct.filter p
  have found : 0 < (rows.filter p).length :=
    List.length_pos_of_mem (List.mem_filter.mpr ⟨member, holds⟩)
  rw [constant, Nat.le_antisymm short found, List.replicate_one]

/-! ## Writing a row whether or not its key is there -/

def upsert (rows : List ρ) (row : ρ) : List ρ :=
  if (lookup rows (Row.key row)).isSome then save rows row else rows ++ [row]

theorem lookup_upsert (rows : List ρ) (row : ρ) (k : κ) :
    lookup (upsert rows row) k = if k = Row.key row then some row else lookup rows k := by
  rw [upsert]
  cases found : lookup rows (Row.key row) with
  | none => exact lookup_append_of_none found
  | some old => exact lookup_save found k

theorem keyed_upsert (keyed : Keyed rows) (row : ρ) : Keyed (upsert rows row) := by
  rw [upsert]
  cases found : lookup rows (Row.key row) with
  | none => exact keyed_append keyed found
  | some old => exact keyed_save keyed

theorem mem_upsert (member : row' ∈ upsert rows row) : row' = row ∨ row' ∈ rows := by
  rw [upsert] at member
  split at member
  · exact (mem_save member).imp_right And.left
  · simpa [or_comm] using member

/-- The keys after an upsert. -/
theorem exists_upsert (rows : List ρ) (row : ρ)
    (present : k = Row.key row ∨ ∃ old ∈ rows, Row.key old = k) :
    ∃ version ∈ upsert rows row, Row.key version = k := by
  have read := lookup_upsert rows row k
  split at read
  next same => exact ⟨row, mem_of_lookup read, same.symm⟩
  next differ =>
    obtain ⟨old, member, rfl⟩ := present.resolve_left differ
    cases found : lookup rows (Row.key old) with
    | none => exact absurd rfl (lookup_eq_none.1 found old member)
    | some version => exact ⟨version, mem_of_lookup (read.trans found), key_of_lookup found⟩

def upsertAll (rows written : List ρ) : List ρ := written.foldl upsert rows

theorem keyed_upsertAll (keyed : Keyed rows) (written : List ρ) : Keyed (upsertAll rows written) := by
  induction written generalizing rows with
  | nil => exact keyed
  | cons row written ih => exact ih (keyed_upsert keyed row)

/-- The written rows hide the old ones. -/
theorem lookup_upsertAll {written : List ρ} (keyed : Keyed written) (rows : List ρ) (k : κ) :
    lookup (upsertAll rows written) k = (lookup written k).or (lookup rows k) := by
  induction written generalizing rows with
  | nil => rfl
  | cons row written ih =>
    simp only [Keyed, List.map_cons, List.nodup_cons] at keyed
    rw [upsertAll, List.foldl_cons, ← upsertAll, ih keyed.2, lookup_upsert]
    by_cases same : k = Row.key row
    · subst same
      have absent : lookup written (Row.key row) = none := by
        refine lookup_eq_none.2 fun other member sameKey => keyed.1 ?_
        exact sameKey ▸ List.mem_map_of_mem member
      have head : lookup (row :: written) (Row.key row) = some row := by simp [lookup]
      rw [absent, head, if_pos rfl, Option.none_or, Option.some_or]
    · simp [same, lookup, Ne.symm same]

/-! ## Ordered queries -/

section Ordered

variable {ρ κ : Type*} [LinearOrder κ] {key : ρ → κ} {rows rows' : List ρ}

/-- `ORDER BY key`. -/
def orderBy (key : ρ → κ) (rows : List ρ) : List ρ :=
  rows.insertionSort fun a b => key a ≤ key b

@[simp] theorem mem_orderBy {row : ρ} : row ∈ orderBy key rows ↔ row ∈ rows := by
  simp [orderBy]

theorem orderBy_sorted (key : ρ → κ) (rows : List ρ) :
    (orderBy key rows).Pairwise fun a b => key a ≤ key b := by
  have total : Std.Total fun a b : ρ => key a ≤ key b := ⟨fun a b => le_total (key a) (key b)⟩
  have trans : IsTrans ρ fun a b => key a ≤ key b := ⟨fun _ _ _ => le_trans⟩
  exact List.pairwise_insertionSort _ rows

/-- Rows that the key tells apart have one order. -/
theorem eq_of_sorted (distinct : rows.Nodup) (distinct' : rows'.Nodup)
    (same : ∀ row, row ∈ rows ↔ row ∈ rows')
    (unique : ∀ a ∈ rows, ∀ b ∈ rows, key a = key b → a = b)
    (sorted : rows.Pairwise fun a b => key a ≤ key b)
    (sorted' : rows'.Pairwise fun a b => key a ≤ key b) : rows = rows' := by
  have perm : rows.Perm rows' := (List.perm_ext_iff_of_nodup distinct distinct').mpr same
  apply perm.eq_of_pairwise _ sorted sorted'
  intro a b member member' less more
  exact unique a member b ((same b).mpr member') (le_antisymm less more)

theorem nodup_orderBy : (orderBy key rows).Nodup ↔ rows.Nodup :=
  (List.perm_insertionSort _ rows).nodup_iff

/-- The rows, however they are stored, have one order. -/
theorem orderBy_congr (distinct : rows.Nodup) (distinct' : rows'.Nodup)
    (same : ∀ row, row ∈ rows ↔ row ∈ rows')
    (unique : ∀ a ∈ rows, ∀ b ∈ rows, key a = key b → a = b) :
    orderBy key rows = orderBy key rows' := by
  apply eq_of_sorted (nodup_orderBy.2 distinct) (nodup_orderBy.2 distinct') _ _
    (orderBy_sorted key rows) (orderBy_sorted key rows')
  · intro row
    rw [mem_orderBy, mem_orderBy, same]
  · intro a member b member'
    exact unique a (mem_orderBy.1 member) b (mem_orderBy.1 member')

theorem orderBy_map {σ : Type*} (f : σ → ρ) (rows : List σ) :
    orderBy key (rows.map f) = (orderBy (key ∘ f) rows).map f := by
  rw [orderBy, orderBy]
  exact (List.map_insertionSort _ _ f rows fun _ _ _ _ => Iff.rfl).symm

/-- A smaller key comes before. -/
theorem lt_of_key_lt {rows : List ρ} (sorted : rows.Pairwise fun a b => key a ≤ key b) {a b : ρ}
    {i j : Nat} (first : rows[i]? = some a) (second : rows[j]? = some b) (less : key a < key b) :
    i < j := by
  obtain ⟨within, rfl⟩ := List.getElem?_eq_some_iff.mp first
  obtain ⟨within', rfl⟩ := List.getElem?_eq_some_iff.mp second
  by_contra notBefore
  obtain same | after := Nat.lt_or_eq_of_le (Nat.le_of_not_lt notBefore)
  · exact absurd (List.pairwise_iff_getElem.mp sorted j i within' within same) (not_le_of_gt less)
  · subst after
    exact lt_irrefl _ less

end Ordered

end Table

end SupportPilot.Lib
