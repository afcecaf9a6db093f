import Mathlib.Data.List.SplitBy
import Mathlib.Data.List.TakeWhile

/-! # Runs

`runs p items` cuts a list into the longest runs of items with `p` and single items without.
Two positions are in one run exactly when everything from one to the other has `p`
(`together_runs`). -/

namespace SupportPilot.Lib

variable {α : Type*} {p : α → Bool}

def runs (p : α → Bool) (items : List α) : List (List α) :=
  items.splitBy fun a b => p a && p b

@[simp] theorem runs_nil : runs p ([] : List α) = [] := rfl

theorem flatten_runs (p : α → Bool) (items : List α) : (runs p items).flatten = items :=
  List.flatten_splitBy _ items

theorem runs_cons {x : α} (unlike : p x = false) (rest : List α) :
    runs p (x :: rest) = [x] :: runs p rest := by
  have single := List.splitBy_append (r := fun a b => p a && p b) (l := [x]) (m := rest)
    (by simp [unlike])
  exact single

theorem runs_append_cons {x : α} (unlike : p x = false) (before rest : List α) :
    runs p (before ++ x :: rest) = runs p before ++ [x] :: runs p rest := by
  rw [← runs_cons unlike, runs, List.splitBy_append_cons rest (by simp [unlike])]
  rfl

/-- A run that ends where the next item lacks `p`. -/
theorem runs_append {u rest : List α} (some : u ≠ []) (all : ∀ x ∈ u, p x = true)
    (ends : ∀ x ∈ rest.head?, p x = false) : runs p (u ++ rest) = u :: runs p rest := by
  have chain : u.IsChain fun a b => (p a && p b) = true := by
    apply List.Pairwise.isChain
    apply List.pairwise_of_forall_mem_list
    intro a inRun b inRun'
    rw [all a inRun, all b inRun', Bool.and_self]
  have split := List.splitBy_append (r := fun a b => p a && p b) (l := u) (m := rest) (by
    intro a _ b next
    rw [ends b next, Bool.and_false])
  rw [runs, split, List.splitBy_of_isChain some chain]
  rfl

/-- Cutting a list from the left. -/
theorem runs_induction {motive : List α → Prop} (nil : motive [])
    (single : ∀ x rest, p x = false → motive rest → motive (x :: rest))
    (run : ∀ u rest, u ≠ [] → (∀ x ∈ u, p x = true) → (∀ x ∈ rest.head?, p x = false) →
      motive rest → motive (u ++ rest)) (items : List α) : motive items := by
  induction length : items.length using Nat.strong_induction_on generalizing items with
  | _ n shorter =>
    subst length
    cases items with
    | nil => exact nil
    | cons x rest =>
      cases alike : p x with
      | false => exact single x rest alike (shorter _ (Nat.lt_succ_self _) rest rfl)
      | true =>
        -- the next run is as long as it can be
        have whole := List.takeWhile_append_dropWhile (p := p) (l := x :: rest)
        have first : (x :: rest).takeWhile p = x :: rest.takeWhile p := by
          rw [List.takeWhile_cons, if_pos alike]
        rw [first] at whole
        rw [← whole]
        apply run
        · exact List.cons_ne_nil _ _
        · intro y member
          obtain rfl | later := List.mem_cons.mp member
          · exact alike
          · exact List.mem_takeWhile_imp later
        · intro y next
          have stopped := List.head?_dropWhile_not p (x :: rest)
          rw [Option.mem_def.mp next] at stopped
          simpa using stopped
        · have less := congrArg List.length whole
          simp only [List.length_append, List.length_cons] at less
          exact shorter _ (by simp only [List.length_cons]; omega) _ rfl

theorem run_cases {items part : List α} (member : part ∈ runs p items) :
    (part ≠ [] ∧ ∀ x ∈ part, p x = true) ∨ ∃ x, part = [x] ∧ p x = false := by
  induction items using runs_induction (p := p) with
  | nil => cases member
  | single x rest unlike ih =>
    rw [runs_cons unlike] at member
    obtain rfl | later := List.mem_cons.mp member
    · exact .inr ⟨x, rfl, unlike⟩
    · exact ih later
  | run u rest some all ends ih =>
    rw [runs_append some all ends] at member
    obtain rfl | later := List.mem_cons.mp member
    · exact .inl ⟨some, all⟩
    · exact ih later

/-! ## Positions -/

/-- Both positions lie in the same part. -/
def Together (parts : List (List α)) (i j : Nat) : Prop :=
  ∃ before part after, parts = before ++ part :: after ∧
    before.flatten.length ≤ i ∧ j < before.flatten.length + part.length

theorem together_head {part : List α} {parts : List (List α)} {i j : Nat} (within : j < part.length) :
    Together (part :: parts) i j :=
  ⟨[], part, parts, rfl, Nat.zero_le i, by simpa using within⟩

theorem together_tail (part : List α) {parts : List (List α)} {i j : Nat}
    (together : Together parts i j) : Together (part :: parts) (part.length + i) (part.length + j) := by
  obtain ⟨before, shared, after, rfl, first, last⟩ := together
  refine ⟨part :: before, shared, after, rfl, ?_, ?_⟩ <;>
    simp only [List.flatten_cons, List.length_append] <;> omega

/-- Two positions lie in one run exactly when everything between them has `p`. -/
theorem together_runs {items : List α} {i j : Nat} (less : i < j) (within : j < items.length) :
    Together (runs p items) i j ↔ ∀ k x, i ≤ k → k ≤ j → items[k]? = some x → p x = true := by
  constructor
  · intro together k x low high isNth
    obtain ⟨before, part, after, shape, first, last⟩ := together
    have whole := flatten_runs p items
    rw [shape, List.flatten_append, List.flatten_cons] at whole
    -- the positions lie in one run, and so does every position between them
    have inPart : part[k - before.flatten.length]? = some x := by
      rw [← whole, List.getElem?_append_right (by omega),
        List.getElem?_append_left (by omega)] at isNth
      exact isNth
    have isRun : part ∈ runs p items := by simp [shape]
    obtain ⟨-, all⟩ | ⟨y, rfl, -⟩ := run_cases isRun
    · exact all x (List.mem_of_getElem? inPart)
    · -- a single item has no two positions
      simp only [List.length_singleton] at last
      omega
  · intro all
    induction items using runs_induction (p := p) generalizing i j with
    | nil => cases within
    | single x rest unlike ih =>
      -- the first item is alone, so both positions come after it
      have positive : 0 < i := by
        by_contra zero
        have alike := all 0 x (by omega) (by omega) rfl
        rw [unlike] at alike
        cases alike
      obtain ⟨i, rfl⟩ : ∃ m, i = m + 1 := ⟨i - 1, by omega⟩
      obtain ⟨j, rfl⟩ : ∃ m, j = m + 1 := ⟨j - 1, by omega⟩
      rw [runs_cons unlike, Nat.add_comm i, Nat.add_comm j]
      apply together_tail [x]
      apply ih (by omega) (by simpa using within)
      intro k y low high isNth
      exact all (k + 1) y (by omega) (by omega) isNth
    | run u rest some alike ends ih =>
      rw [runs_append some alike ends]
      by_cases inside : j < u.length
      · -- both positions lie in the run
        exact together_head inside
      · by_cases apart : u.length ≤ i
        · obtain ⟨i, rfl⟩ : ∃ m, i = u.length + m := ⟨i - u.length, by omega⟩
          obtain ⟨j, rfl⟩ : ∃ m, j = u.length + m := ⟨j - u.length, by omega⟩
          rw [List.length_append] at within
          apply together_tail u
          apply ih (by omega) (by omega)
          intro k y low high isNth
          apply all (u.length + k) y (by omega) (by omega)
          rw [List.getElem?_append_right (by omega), Nat.add_sub_cancel_left, isNth]
        · -- the item behind the run lies between them
          rw [List.length_append] at within
          cases rest with
          | nil => simp only [List.length_nil] at within; omega
          | cons y rest =>
            have isNext : (u ++ y :: rest)[u.length]? = Option.some y := by simp
            have like := all u.length y (by omega) (by omega) isNext
            rw [ends y rfl] at like
            cases like

/-- Two items with `p` are in one run exactly when every item between them has `p`. -/
theorem together_runs_between {items : List α} {i j : Nat} {x y : α} (less : i < j)
    (first : items[i]? = some x) (last : items[j]? = some y) (alike : p x = true)
    (alike' : p y = true) :
    Together (runs p items) i j ↔
      ∀ k between, i < k → k < j → items[k]? = some between → p between = true := by
  obtain ⟨within, -⟩ := List.getElem?_eq_some_iff.mp last
  rw [together_runs less within]
  constructor
  · intro all k between after before isNth
    exact all k between (Nat.le_of_lt after) (Nat.le_of_lt before) isNth
  · intro all k between after before isNth
    obtain inside | same := Nat.lt_or_eq_of_le after
    · obtain inside' | same := Nat.lt_or_eq_of_le before
      · exact all k between inside inside' isNth
      · rw [same, last] at isNth
        rw [← Option.some.inj isNth, alike']
    · rw [← same, first] at isNth
      rw [← Option.some.inj isNth, alike]

end SupportPilot.Lib
