import Mathlib.Order.Basic

/-! # Partitions into runs

`Runs P n start parts` says that the parts stand for consecutive runs that take the
indices from `start` up to `n` without gap or repetition, each with the property `P`
of its two ends.  Where `P` makes the runs the longest ones, there is only one such
partition, and `Reached` are the indices at which it cuts. -/

namespace SupportPilot.Lib

variable {α : Type*} {P Q : Nat → Nat → α → Prop} {n start : Nat} {parts : List α}

inductive Runs (P : Nat → Nat → α → Prop) (n : Nat) : Nat → List α → Prop
  | nil : Runs P n n []
  | cons {start stop : Nat} {part : α} {parts : List α} (less : start < stop) (within : stop ≤ n)
      (holds : P start stop part) (others : Runs P n stop parts) : Runs P n start (part :: parts)

namespace Runs

theorem le (runs : Runs P n start parts) : start ≤ n := by
  cases runs with
  | nil => exact Nat.le_refl n
  | cons less within _ _ => omega

theorem mono (weaker : ∀ a b part, a < b → b ≤ n → P a b part → Q a b part)
    (runs : Runs P n start parts) : Runs Q n start parts := by
  induction runs with
  | nil => exact .nil
  | cons less within holds _ ih => exact .cons less within (weaker _ _ _ less within holds) ih

/-- Every part stands for a run. -/
theorem exists_of_mem (runs : Runs P n start parts) {part : α} (member : part ∈ parts) :
    ∃ a b, P a b part := by
  induction runs with
  | nil => cases member
  | @cons start stop first parts less within holds others ih =>
    cases member with
    | head => exact ⟨start, stop, holds⟩
    | tail _ later => exact ih later

/-- Every index lies in one of the runs. -/
theorem exists_run (runs : Runs P n start parts) {i : Nat} (from_start : start ≤ i) (inside : i < n) :
    ∃ a b part, a ≤ i ∧ i < b ∧ b ≤ n ∧ P a b part := by
  induction runs with
  | nil => omega
  | @cons start stop part parts less within holds others ih =>
    by_cases here : i < stop
    · exact ⟨start, stop, part, from_start, here, within, holds⟩
    · exact ih (by omega)

end Runs

/-- The run from `start` to `stop` cannot be made longer. -/
def Longest (fits : Nat → Nat → Prop) (n start stop : Nat) : Prop :=
  fits start stop ∧ ∀ longer, stop < longer → longer ≤ n → ¬ fits start longer

theorem Longest.unique {fits : Nat → Nat → Prop} {stop stop' : Nat} (within : stop ≤ n)
    (within' : stop' ≤ n) (first : Longest fits n start stop) (second : Longest fits n start stop') :
    stop = stop' := by
  rcases Nat.lt_trichotomy stop stop' with less | same | more
  · exact absurd second.1 (first.2 stop' less within')
  · exact same
  · exact absurd first.1 (second.2 stop more within)

/-- The indices at which taking the longest runs from 0 on cuts. -/
inductive Reached (fits : Nat → Nat → Prop) (n : Nat) : Nat → Prop
  | zero : Reached fits n 0
  | cut {start stop : Nat} (before : Reached fits n start) (less : start < stop) (within : stop ≤ n)
      (longest : Longest fits n start stop) : Reached fits n stop

/-- A partition into the longest runs goes on from each index that is reached. -/
theorem Reached.runs {fits : Nat → Nat → Prop} {i : Nat} (reached : Reached fits n i)
    (longest : ∀ a b part, P a b part → Longest fits n a b) (runs : Runs P n 0 parts) :
    ∃ rest, Runs P n i rest := by
  induction reached with
  | zero => exact ⟨parts, runs⟩
  | @cut start stop before less within isLongest ih =>
    obtain ⟨rest, runs⟩ := ih
    cases runs with
    | nil => omega
    | @cons _ stop' part rest less' within' holds others =>
      obtain rfl := isLongest.unique within within' (longest _ _ _ holds)
      exact ⟨rest, others⟩

end SupportPilot.Lib
