import Mathlib.Data.List.Induction
import Mathlib.Data.List.Pairwise

/-! # Groups of consecutive items

A loop that adds each item to the last group, or starts a new group with it.  Nothing is lost
(`flatten_grouped`), every item of a group but the first joined the items before it
(`grouped_joined`), and the groups are as far apart as the first item of each is from the group
before it (`grouped_pairwise`). -/

namespace SupportPilot.Lib

variable {α : Type*} {starts : List α → α → Bool}

/-- Add an item to the last group, unless it starts a new one. -/
def addTo (starts : List α → α → Bool) (groups : List (List α)) (x : α) : List (List α) :=
  match groups.getLast? with
  | none => [[x]]
  | some group =>
    if starts group x then groups ++ [[x]] else groups.dropLast ++ [group ++ [x]]

def grouped (starts : List α → α → Bool) (items : List α) : List (List α) :=
  items.foldl (addTo starts) []

theorem addTo_concat (groups : List (List α)) (group : List α) (x : α) :
    addTo starts (groups ++ [group]) x =
      if starts group x then groups ++ [group] ++ [[x]] else groups ++ [group ++ [x]] := by
  simp [addTo]

/-- Follow the loop. -/
theorem grouped_induction (starts : List α → α → Bool)
    {motive : List α → List (List α) → Prop} (nil : motive [] [])
    (first : ∀ x, motive [x] [[x]])
    (opens : ∀ items groups group x, grouped starts items = groups ++ [group] →
      motive items (groups ++ [group]) → starts group x = true →
      motive (items ++ [x]) (groups ++ [group] ++ [[x]]))
    (joins : ∀ items groups group x, grouped starts items = groups ++ [group] →
      motive items (groups ++ [group]) → starts group x = false →
      motive (items ++ [x]) (groups ++ [group ++ [x]]))
    (items : List α) : motive items (grouped starts items) := by
  -- no group at all only for no items
  have empty : ∀ items : List α, grouped starts items = [] → items = [] := by
    intro items
    induction items using List.reverseRecOn with
    | nil => exact fun _ => rfl
    | append_singleton items x _ =>
      rw [grouped, List.foldl_append, List.foldl_cons, List.foldl_nil, addTo]
      split
      · simp
      · split <;> simp
  induction items using List.reverseRecOn with
  | nil => exact nil
  | append_singleton items x ih =>
    have step : grouped starts (items ++ [x]) = addTo starts (grouped starts items) x := by
      rw [grouped, List.foldl_append]
      rfl
    obtain none | ⟨groups, group, shape⟩ := List.eq_nil_or_concat (grouped starts items)
    · rw [step, none, empty items none]
      exact first x
    · rw [List.concat_eq_append] at shape
      rw [shape] at ih
      rw [step, shape, addTo_concat]
      cases opened : starts group x with
      | true => exact opens items groups group x shape ih opened
      | false => exact joins items groups group x shape ih opened

/-- Every item is in one group, in order. -/
theorem flatten_grouped (starts : List α → α → Bool) (items : List α) :
    (grouped starts items).flatten = items := by
  induction items using grouped_induction starts with
  | nil => rfl
  | first x => rfl
  | opens items groups group x shape ih opened => rw [List.flatten_append, ih]; rfl
  | joins items groups group x shape ih joined =>
    rw [List.flatten_append, List.flatten_singleton] at ih
    rw [List.flatten_append, List.flatten_singleton, ← List.append_assoc, ih]

theorem grouped_ne_nil {items group : List α} (member : group ∈ grouped starts items) :
    group ≠ [] := by
  induction items using grouped_induction starts with
  | nil => cases member
  | first x =>
    rw [List.mem_singleton.mp member]
    exact List.cons_ne_nil x []
  | opens items groups group' x before ih opened =>
    obtain earlier | last := List.mem_append.mp member
    · exact ih earlier
    · rw [List.mem_singleton.mp last]
      exact List.cons_ne_nil x []
  | joins items groups group' x before ih joined =>
    obtain earlier | last := List.mem_append.mp member
    · exact ih (List.mem_append_left _ earlier)
    · rw [List.mem_singleton.mp last]
      simp

/-- An item that is not the first of its group joined the items before it. -/
theorem grouped_joined {items group u v : List α} {x : α} (member : group ∈ grouped starts items)
    (shape : group = u ++ x :: v) (some : u ≠ []) : starts u x = false := by
  -- a single item is the first of its group
  have single : ∀ (y : α) v, [y] = u ++ x :: v → starts u x = false := by
    intro y v shape
    cases u with
    | nil => exact absurd rfl some
    | cons z u => simp at shape
  induction items using grouped_induction starts generalizing group v with
  | nil => cases member
  | first y => exact single y v ((List.mem_singleton.mp member).symm.trans shape)
  | opens items groups group' y before ih opened =>
    obtain earlier | last := List.mem_append.mp member
    · exact ih earlier shape
    · exact single y v ((List.mem_singleton.mp last).symm.trans shape)
  | joins items groups group' y before ih joined =>
    obtain earlier | last := List.mem_append.mp member
    · exact ih (List.mem_append_left _ earlier) shape
    · rw [List.mem_singleton.mp last] at shape
      obtain rfl | ⟨v, z, rfl⟩ := List.eq_nil_or_concat v
      · obtain ⟨rfl, same⟩ := List.append_inj' shape rfl
        rw [← List.singleton_inj.mp same, joined]
      · rw [List.concat_eq_append, ← List.cons_append, ← List.append_assoc] at shape
        exact ih (by simp) (List.append_inj' shape rfl).1

/-- The items of a group are apart from the items of the later groups. -/
def GroupsApart (R : α → α → Prop) (groups : List (List α)) : Prop :=
  groups.Pairwise fun group group' => ∀ y ∈ group, ∀ z ∈ group', R y z

section Apart

variable {R le : α → α → Prop} {items : List α}

/-- Behind an item of the last group, the next item is as far from the groups before it. -/
theorem apart_next {groups : List (List α)} {group : List α} {x : α}
    (mono : ∀ y z x, R y z → le z x → R y x) (shape : grouped starts items = groups ++ [group])
    (sorted : (items ++ [x]).Pairwise le) (apart : GroupsApart R (groups ++ [group])) :
    ∀ group' ∈ groups, ∀ y ∈ group', R y x := by
  intro group' before y member
  have last : group ∈ grouped starts items := by simp [shape]
  obtain ⟨z, inside⟩ := List.exists_mem_of_ne_nil group (grouped_ne_nil last)
  have between := (List.pairwise_append.mp apart).2.2 group' before group (by simp) y member z inside
  have isItem : z ∈ items := by
    rw [← flatten_grouped starts items]
    exact List.mem_flatten.mpr ⟨group, last, inside⟩
  exact mono y z x between ((List.pairwise_append.mp sorted).2.2 z isItem x (by simp))

/-- Where the items are sorted, what holds of a group and the item that starts the next one holds of
all later items. -/
theorem grouped_pairwise (apart : ∀ group x, starts group x = true → ∀ y ∈ group, R y x)
    (mono : ∀ y z x, R y z → le z x → R y x) (sorted : items.Pairwise le) :
    GroupsApart R (grouped starts items) := by
  induction items using grouped_induction starts with
  | nil => exact .nil
  | first x => exact List.pairwise_singleton _ _
  | opens items groups group x shape ih opened =>
    have earlier := ih (List.pairwise_append.mp sorted).1
    refine List.pairwise_append.mpr ⟨earlier, List.pairwise_singleton _ _, ?_⟩
    intro group' before last isLast y member z isItem
    rw [List.mem_singleton.mp isLast, List.mem_singleton] at isItem
    rw [isItem]
    obtain before | before := List.mem_append.mp before
    · exact apart_next mono shape sorted earlier group' before y member
    · rw [List.mem_singleton.mp before] at member
      exact apart group x opened y member
  | joins items groups group x shape ih joined =>
    have earlier := ih (List.pairwise_append.mp sorted).1
    obtain ⟨others, -, last⟩ := List.pairwise_append.mp earlier
    refine List.pairwise_append.mpr ⟨others, List.pairwise_singleton _ _, ?_⟩
    intro group' before joint isLast y member z isItem
    rw [List.mem_singleton.mp isLast, List.mem_append] at isItem
    obtain inside | isItem := isItem
    · exact last group' before group (by simp) y member z inside
    · rw [List.mem_singleton.mp isItem]
      exact apart_next mono shape sorted earlier group' before y member

end Apart

/-- What has to come before something else does so exactly when nothing has to come before an
earlier item. -/
theorem positions_iff_pairwise {R : α → α → Prop} {items : List α} (irrefl : ∀ x ∈ items, ¬ R x x) :
    (∀ (i j : Nat) x y, items[i]? = some x → items[j]? = some y → R x y → i < j) ↔
      items.Pairwise fun x y => ¬ R y x := by
  rw [List.pairwise_iff_getElem]
  constructor
  · intro before i j within within' less related
    have later := before j i _ _ (List.getElem?_eq_getElem within') (List.getElem?_eq_getElem within)
      related
    omega
  · intro apart i j x y first second related
    obtain ⟨within, rfl⟩ := List.getElem?_eq_some_iff.mp first
    obtain ⟨within', rfl⟩ := List.getElem?_eq_some_iff.mp second
    by_contra notBefore
    obtain less | same := Nat.lt_or_eq_of_le (Nat.le_of_not_lt notBefore)
    · exact apart j i within' within less related
    · subst same
      exact irrefl _ (List.getElem_mem within) related

end SupportPilot.Lib
