import Mathlib.Data.List.Chain

/-! # Lists that overlap

Items are laid out in lists: each list takes up an end of the one before it and goes
on with items of its own (`Layout`).  What is taken up is counted in the tokens of the
items and need not be whole items.  The lists then hold consecutive tokens
(`Layout.isInfix`), and they end with items in their order (`Layout.lasts`).
`Layout.exists_laid` gives back what each list took up. -/

namespace SupportPilot.Lib

variable {α β : Type*} {tokens : α → List β} {limit : Nat} {items overlap rest : List α}
  {lists : List (List α)} {current : List α}

/-- Consecutive items of a sorted list hold what lies between two of them. -/
theorem mem_of_between {R : α → α → Prop} {all run : List α} (sorted : all.Pairwise R)
    (isInfix : run <:+: all) {x y z : α} (left : x ∈ run) (right : y ∈ run) (member : z ∈ all)
    (behind : ¬ R z x) (ahead : ¬ R y z) : z ∈ run := by
  obtain ⟨before, after, rfl⟩ := isInfix
  rw [List.pairwise_append, List.pairwise_append] at sorted
  obtain ⟨⟨-, -, first⟩, -, last⟩ := sorted
  simp only [List.mem_append] at member last
  obtain (early | inside) | late := member
  · exact absurd (first z early x left) behind
  · exact inside
  · exact absurd (last y (.inr right) z late) ahead

/-- Each list is an overlap of at most `limit` tokens with the list before it, and some
items.  These items are, over all lists, the ones laid out. -/
inductive Layout (tokens : α → List β) (limit : Nat) : List α → List (List α) → Prop
  | nil : Layout tokens limit [] []
  | snoc {items overlap rest : List α} {lists : List (List α)}
      (before : Layout tokens limit items lists) (some : rest ≠ [])
      (isTail : overlap.flatMap tokens <:+ (lists.getLast?.getD []).flatMap tokens)
      (short : (overlap.flatMap tokens).length ≤ limit) :
      Layout tokens limit (items ++ rest) (lists ++ [overlap ++ rest])

/-- A list of a layout: what it takes up, and items of its own. -/
structure Laid (α : Type*) where
  overlap : List α
  rest : List α

def Laid.list (laid : Laid α) : List α := laid.overlap ++ laid.rest

namespace Layout

/-- The next item joins the last list. -/
theorem grow (layout : Layout tokens limit items (lists ++ [current])) (item : α) :
    Layout tokens limit (items ++ [item]) (lists ++ [current ++ [item]]) := by
  generalize whole : lists ++ [current] = all at layout
  cases layout with
  | nil => simp at whole
  | @snoc items overlap rest before layout some isTail short =>
    obtain ⟨rfl, last⟩ := List.append_inj' whole rfl
    obtain rfl : current = overlap ++ rest := by simpa using last
    rw [List.append_assoc, List.append_assoc]
    exact layout.snoc (by simp) isTail short

/-- The next item starts a list behind an end of the last one. -/
theorem start (layout : Layout tokens limit items lists) (item : α)
    (isTail : overlap.flatMap tokens <:+ (lists.getLast?.getD []).flatMap tokens)
    (short : (overlap.flatMap tokens).length ≤ limit) :
    Layout tokens limit (items ++ [item]) (lists ++ [overlap ++ [item]]) :=
  layout.snoc (List.cons_ne_nil item []) isTail short

/-- The last list ends with the tokens laid out last. -/
theorem last_isSuffix (layout : Layout tokens limit items lists) :
    (lists.getLast?.getD []).flatMap tokens <:+ items.flatMap tokens := by
  induction layout with
  | nil => simp
  | @snoc items overlap rest lists _ _ isTail _ ih =>
    have whole := isTail.trans ih
    obtain ⟨dropped, split⟩ := whole
    refine ⟨dropped, ?_⟩
    simp [← split]

/-- A list holds consecutive tokens. -/
theorem isInfix (layout : Layout tokens limit items lists) :
    ∀ list ∈ lists, list.flatMap tokens <:+: items.flatMap tokens := by
  induction layout with
  | nil => simp
  | @snoc items overlap rest lists before some isTail short ih =>
    intro list member
    obtain earlier | last := List.mem_append.mp member
    · rw [List.flatMap_append]
      exact (ih list earlier).trans (List.prefix_append _ _).isInfix
    · have suffix := (before.snoc some isTail short).last_isSuffix
      rw [List.getLast?_concat, Option.getD_some] at suffix
      rw [List.mem_singleton.mp last]
      exact suffix.isInfix

/-- The last items of the lists are items, in their order. -/
theorem lasts (layout : Layout tokens limit items lists) :
    (lists.filterMap List.getLast?).Sublist items := by
  induction layout with
  | nil => simp
  | @snoc items overlap rest lists before some isTail short ih =>
    have last : (overlap ++ rest).getLast? = Option.some (rest.getLast some) := by
      rw [List.getLast?_append_of_ne_nil _ some, List.getLast?_eq_some_getLast some]
    rw [List.filterMap_append, List.filterMap_cons, last, List.filterMap_nil]
    exact ih.append (List.singleton_sublist.mpr (List.getLast_mem some))

theorem eq_nil (layout : Layout tokens limit items []) : items = [] := by
  generalize none : ([] : List (List α)) = lists at layout
  cases layout with
  | nil => rfl
  | snoc => simp at none

theorem ne_nil (layout : Layout tokens limit items lists) : ∀ list ∈ lists, list ≠ [] := by
  induction layout with
  | nil => simp
  | @snoc items overlap rest lists before some isTail short ih =>
    intro list member
    obtain earlier | last := List.mem_append.mp member
    · exact ih list earlier
    · rw [List.mem_singleton.mp last]
      simp [some]

/-- A layout as a chain of overlaps. -/
theorem exists_laid (layout : Layout tokens limit items lists) :
    ∃ parts : List (Laid α), parts.map Laid.list = lists ∧ parts.flatMap Laid.rest = items ∧
      (∀ part ∈ parts, part.rest ≠ [] ∧ (part.overlap.flatMap tokens).length ≤ limit) ∧
      (∀ part ∈ parts.head?, part.overlap.flatMap tokens = []) ∧
      parts.IsChain fun part next => next.overlap.flatMap tokens <:+ part.list.flatMap tokens := by
  induction layout with
  | nil => exact ⟨[], rfl, rfl, by simp, by simp, .nil⟩
  | @snoc items overlap rest lists before some isTail short ih =>
    obtain ⟨parts, rfl, rfl, each, first, chained⟩ := ih
    refine ⟨parts ++ [⟨overlap, rest⟩], ?_, ?_, ?_, ?_, ?_⟩
    · rw [List.map_append]
      rfl
    · rw [List.flatMap_append, List.flatMap_singleton]
    · rw [List.forall_mem_append, List.forall_mem_singleton]
      exact ⟨each, some, short⟩
    · cases parts with
      | nil =>
        -- the first list has none before it
        simpa using isTail
      | cons part parts => simpa using first
    · rw [List.isChain_append]
      refine ⟨chained, .singleton _, ?_⟩
      intro part last next isNext
      have last' : (parts.map Laid.list).getLast?.getD [] = part.list := by
        rw [List.getLast?_map, last]
        rfl
      rw [last'] at isTail
      cases isNext
      exact isTail

end Layout

end SupportPilot.Lib
