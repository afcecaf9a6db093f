import Mathlib.Data.Set.Insert

/-! # Deadlocks

Transactions hold resources and wait for others.  A set of transactions is
deadlocked when each of them waits for one that another of them holds.  The rule
is a rank that goes down along every wait for a transaction that waits itself. -/

namespace SupportPilot.Lib

variable {τ κ : Type*} {waits holds : τ → κ → Prop} {S : Set τ}

structure Deadlocked (waits holds : τ → κ → Prop) (S : Set τ) : Prop where
  nonempty : S.Nonempty
  waiting : ∀ t ∈ S, ∃ k, waits t k ∧ ∃ other ∈ S, other ≠ t ∧ holds other k

theorem not_deadlocked_of_rank (rank : τ → Nat)
    (lower : ∀ t other k k', waits t k → holds other k → other ≠ t → waits other k' →
      rank other < rank t) : ¬ Deadlocked waits holds S := by
  intro deadlocked
  have outside : ∀ n t, rank t = n → t ∉ S := by
    intro n
    induction n using Nat.strong_induction_on with
    | _ n ih =>
      intro t ranked member
      obtain ⟨k, isWaiting, other, member', differs, held⟩ := deadlocked.waiting t member
      obtain ⟨k', isWaiting', -⟩ := deadlocked.waiting other member'
      have below := lower t other k k' isWaiting held differs isWaiting'
      rw [ranked] at below
      exact ih (rank other) below other rfl member'
  obtain ⟨t, member⟩ := deadlocked.nonempty
  exact outside (rank t) t rfl member

/-- Two transactions that wait for each other. -/
theorem deadlocked_pair {t u : τ} {k l : κ} (differs : t ≠ u) (waitsT : waits t k)
    (heldU : holds u k) (waitsU : waits u l) (heldT : holds t l) :
    Deadlocked waits holds {t, u} := by
  constructor
  · exact ⟨t, Set.mem_insert t {u}⟩
  · intro v member
    obtain rfl | rfl := member
    · exact ⟨k, waitsT, u, Set.mem_insert_of_mem _ rfl, Ne.symm differs, heldU⟩
    · exact ⟨l, waitsU, t, Set.mem_insert t _, differs, heldT⟩

end SupportPilot.Lib
