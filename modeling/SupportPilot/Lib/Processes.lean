import Mathlib.Data.List.Basic

/-! # Processes and what they hold

The processes of a concurrent system are a list; a step replaces one of them or
adds some.  `Exclusive held` says that nothing is held by two of them, for locks
as for identifiers that only one process knows.  A step keeps this when the
process that moves only acquires what nobody else holds. -/

namespace SupportPilot.Lib

variable {π α : Type*} {held : π → α → Prop} {procs : List π} {i : Nat} {p p' : π}

def Exclusive (held : π → α → Prop) (procs : List π) : Prop :=
  ∀ (i j : Nat) (p q : π) (a : α), procs[i]? = some p → procs[j]? = some q → held p a →
    held q a → i = j

theorem Exclusive.nil : Exclusive held ([] : List π) := by
  intro i j p q a found
  simp at found

/-- The process after a step of process `i`. -/
theorem getElem?_of_set {j : Nat} {q : π} (found : (procs.set i p')[j]? = some q) :
    (j = i ∧ q = p') ∨ (j ≠ i ∧ procs[j]? = some q) := by
  rw [List.getElem?_set] at found
  split at found
  next same =>
    split at found
    · exact .inl ⟨same.symm, (Option.some.inj found).symm⟩
    · cases found
  next differ => exact .inr ⟨Ne.symm differ, found⟩

theorem mem_of_set {q : π} (member : q ∈ procs.set i p') : q = p' ∨ q ∈ procs :=
  (List.mem_or_eq_of_mem_set member).symm

theorem Exclusive.set (exclusive : Exclusive held procs) (found : procs[i]? = some p)
    (acquired : ∀ a, held p' a → held p a ∨
      ∀ j q, j ≠ i → procs[j]? = some q → ¬ held q a) :
    Exclusive held (procs.set i p') := by
  -- what the moved process holds, no other process holds
  have alone : ∀ j q a, j ≠ i → procs[j]? = some q → held p' a → ¬ held q a := by
    intro j q a differs other holds
    obtain before | free := acquired a holds
    · intro shared
      exact differs (exclusive j i q p a other found shared before)
    · exact free j q differs other
  intro j k q r a first second holdsQ holdsR
  obtain ⟨rfl, rfl⟩ | ⟨other, before⟩ := getElem?_of_set first
  · obtain ⟨rfl, rfl⟩ | ⟨other', before'⟩ := getElem?_of_set second
    · rfl
    · exact absurd holdsR (alone k r a other' before' holdsQ)
  · obtain ⟨rfl, rfl⟩ | ⟨other', before'⟩ := getElem?_of_set second
    · exact absurd holdsQ (alone j q a other before holdsR)
    · exact exclusive j k q r a before before' holdsQ holdsR

/-- The process after new ones were added. -/
theorem getElem?_of_append {added : List π} {j : Nat} {q : π}
    (found : (procs ++ added)[j]? = some q) : procs[j]? = some q ∨ q ∈ added := by
  rw [List.getElem?_append] at found
  split at found
  · exact .inl found
  · exact .inr (List.mem_of_getElem? found)

/-- The process after one was added. -/
theorem getElem?_of_concat {j : Nat} {q : π} (found : (procs ++ [p'])[j]? = some q) :
    procs[j]? = some q ∨ (j = procs.length ∧ q = p') := by
  obtain ⟨bound, -⟩ := List.getElem?_eq_some_iff.mp found
  rw [List.length_append, List.length_singleton] at bound
  obtain old | new := Nat.lt_or_eq_of_le (Nat.le_of_lt_succ bound)
  · rw [List.getElem?_append_left old] at found
    exact .inl found
  · rw [new, List.getElem?_concat_length, Option.some.injEq] at found
    exact .inr ⟨new, found.symm⟩

theorem Exclusive.append_idle (exclusive : Exclusive held procs) {added : List π}
    (idle : ∀ q ∈ added, ∀ a, ¬ held q a) : Exclusive held (procs ++ added) := by
  intro j k q r a first second holdsQ holdsR
  obtain first | new := getElem?_of_append first
  · obtain second | new := getElem?_of_append second
    · exact exclusive j k q r a first second holdsQ holdsR
    · exact absurd holdsR (idle r new a)
  · exact absurd holdsQ (idle q new a)

theorem Exclusive.append (exclusive : Exclusive held procs)
    (fresh : ∀ a, held p a → ∀ q ∈ procs, ¬ held q a) : Exclusive held (procs ++ [p]) := by
  intro j k q r a first second holdsQ holdsR
  obtain old | ⟨rfl, rfl⟩ := getElem?_of_concat first
  · obtain old' | ⟨rfl, rfl⟩ := getElem?_of_concat second
    · exact exclusive j k q r a old old' holdsQ holdsR
    · exact absurd holdsQ (fresh a holdsR q (List.mem_of_getElem? old))
  · obtain old' | ⟨rfl, rfl⟩ := getElem?_of_concat second
    · exact absurd holdsR (fresh a holdsQ r (List.mem_of_getElem? old'))
    · rfl

/-- A process that had no result may get one. -/
theorem perm_filterMap_set {α β : Type} {f : α → Option β} {l : List α} {i : Nat} {a a' : α}
    (here : l[i]? = some a) (before : f a = none) :
    ((l.set i a').filterMap f).Perm ((f a').toList ++ l.filterMap f) := by
  induction l generalizing i with
  | nil => simp at here
  | cons x l ih =>
    cases i with
    | zero =>
      obtain rfl : x = a := by simpa using here
      cases after : f a' <;> simp [before, after]
    | succ i =>
      have rest := ih (by simpa using here : l[i]? = some a)
      cases first : f x with
      | none => simpa [first] using rest
      | some y => simpa [first] using (rest.cons y).trans List.perm_middle.symm

end SupportPilot.Lib
