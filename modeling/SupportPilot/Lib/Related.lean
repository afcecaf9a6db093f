import Mathlib.Data.List.Forall2

/-! # Lists related item by item

What `List.Forall₂ P items results` carries from one list to the other: columns that agree, items,
the last item and the order. -/

namespace SupportPilot.Lib

variable {α β γ : Type*} {P : α → β → Prop} {items : List α} {results : List β}

/-- Columns that agree for related items. -/
theorem map_eq_of_forall₂ {f : α → γ} {g : β → γ} (same : ∀ a b, P a b → g b = f a)
    (related : List.Forall₂ P items results) : results.map g = items.map f := by
  induction related with
  | nil => rfl
  | cons head _ ih => rw [List.map_cons, List.map_cons, same _ _ head, ih]

theorem flatMap_of_forall₂ {f : α → List γ} {g : β → List γ}
    (related : List.Forall₂ (fun a b => g b = f a) items results) :
    results.flatMap g = items.flatMap f := by
  rw [List.flatMap_def, List.flatMap_def, map_eq_of_forall₂ (fun _ _ same => same) related]

theorem exists_of_mem_forall₂ (related : List.Forall₂ P items results) {b : β}
    (member : b ∈ results) : ∃ a ∈ items, P a b := by
  induction related with
  | nil => cases member
  | @cons a _ _ _ head _ ih =>
    obtain rfl | later := List.mem_cons.mp member
    · exact ⟨a, List.mem_cons_self, head⟩
    · obtain ⟨a, present, holds⟩ := ih later
      exact ⟨a, .tail _ present, holds⟩

theorem getLast_of_forall₂ (related : List.Forall₂ P items results) {a : α}
    (last : items.getLast? = some a) (nonempty : results ≠ []) : P a (results.getLast nonempty) := by
  induction related with
  | nil => cases last
  | cons head rest ih =>
    cases rest with
    | nil =>
      cases last
      exact head
    | cons next others =>
      rw [List.getLast?_cons_cons] at last
      exact ih last (List.cons_ne_nil _ _)

theorem pairwise_of_forall₂ {R : α → α → Prop} {S : β → β → Prop}
    (related : List.Forall₂ P items results) (sorted : items.Pairwise R)
    (transfer : ∀ a ∈ items, ∀ a' ∈ items, ∀ b b', R a a' → P a b → P a' b' → S b b') :
    results.Pairwise S := by
  induction related with
  | nil => exact .nil
  | @cons a b items results head rest ih =>
    rw [List.pairwise_cons] at sorted
    refine List.pairwise_cons.mpr ⟨fun b' later => ?_, ih sorted.2 ?_⟩
    · obtain ⟨a', present, holds⟩ := exists_of_mem_forall₂ rest later
      exact transfer a (by simp) a' (.tail _ present) b b' (sorted.1 a' present) head holds
    · exact fun a inside a' inside' => transfer a (.tail _ inside) a' (.tail _ inside')

end SupportPilot.Lib
