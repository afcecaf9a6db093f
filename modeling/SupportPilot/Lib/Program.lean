import Mathlib.Logic.Basic

/-! # Programs that call a store

A program ends with a result, raises an error, or issues a command and goes on with the
answer, so what it does next may depend on everything it has been told.  `run exec s p` runs it
on a store that `exec` operates.

The rules carry a property of single commands over to whole programs: an invariant
(`run_invariant`), a relation between the store before and after (`run_relates`), the agreement of
two stores that answer alike (`run_alike`), and the agreement of two ways to operate one store
(`Agrees.bind`), and the refinement of a function on what the store stands for
(`Simulates.bind`).  `Calls ok` restricts a program to certain commands, whatever it is answered. -/

namespace SupportPilot.Lib

inductive Program (ε : Type) (answer : ε → Type) (χ α : Type) where
  | done (result : α)
  | raise (error : χ)
  | call (command : ε) (next : answer command → Program ε answer χ α)

namespace Program

variable {ε : Type} {answer : ε → Type} {χ α β σ : Type}

protected def bind : Program ε answer χ α → (α → Program ε answer χ β) → Program ε answer χ β
  | .done a, f => f a
  | .raise e, _ => .raise e
  | .call c next, f => .call c fun a => (next a).bind f

/-- `try … except`. -/
protected def tryCatch : Program ε answer χ α → (χ → Program ε answer χ α) → Program ε answer χ α
  | .done a, _ => .done a
  | .raise e, handler => handler e
  | .call c next, handler => .call c fun a => (next a).tryCatch handler

instance : Monad (Program ε answer χ) where
  pure := .done
  bind := .bind

instance : LawfulMonad (Program ε answer χ) := LawfulMonad.mk' _
  (fun p => by
    show p.bind _ = p
    induction p with
    | done a => rfl
    | raise e => rfl
    | call c next ih => exact congrArg (Program.call c) (funext ih))
  (fun _ _ => rfl)
  (fun p f g => by
    show (p.bind f).bind g = p.bind fun a => (f a).bind g
    induction p with
    | done a => rfl
    | raise e => rfl
    | call c next ih => exact congrArg (Program.call c) (funext ih))

instance : MonadExceptOf χ (Program ε answer χ) where
  throw := .raise
  tryCatch := .tryCatch

/-- Run a program on a store. -/
def run (exec : σ → (c : ε) → answer c × σ) : σ → Program ε answer χ α → Except χ α × σ
  | s, .done a => (.ok a, s)
  | s, .raise e => (.error e, s)
  | s, .call c next => run exec (exec s c).2 (next (exec s c).1)

variable {exec : σ → (c : ε) → answer c × σ} {s t : σ} {p : Program ε answer χ α}

@[simp] theorem run_pure {a : α} : run exec s (pure a : Program ε answer χ α) = (.ok a, s) := rfl

@[simp] theorem run_throw {e : χ} :
    run exec s (throw e : Program ε answer χ α) = (.error e, s) := rfl

@[simp] theorem run_call {c : ε} {next : answer c → Program ε answer χ α} :
    run exec s (.call c next) = run exec (exec s c).2 (next (exec s c).1) := rfl

/-- The first part runs, and the rest after it unless the first part raised. -/
theorem run_bind {f : α → Program ε answer χ β} :
    run exec s (p >>= f) = match run exec s p with
      | (.ok a, t) => run exec t (f a)
      | (.error e, t) => (.error e, t) := by
  show run exec s (p.bind f) = _
  induction p generalizing s with
  | done a => rfl
  | raise e => rfl
  | call c next ih => exact ih _

theorem run_tryCatch {handler : χ → Program ε answer χ α} :
    run exec s (tryCatch p handler) = match run exec s p with
      | (.ok a, t) => (.ok a, t)
      | (.error e, t) => run exec t (handler e) := by
  show run exec s (p.tryCatch handler) = _
  induction p generalizing s with
  | done a => rfl
  | raise e => rfl
  | call c next ih => exact ih _

/-! ## Programs of certain commands -/

/-- Every command that the program can issue is one of these. -/
def Calls (ok : ε → Prop) : Program ε answer χ α → Prop
  | .done _ => True
  | .raise _ => True
  | .call c next => ok c ∧ ∀ a, (next a).Calls ok

variable {ok : ε → Prop}

@[simp] theorem calls_pure {a : α} : Calls ok (pure a : Program ε answer χ α) := trivial

@[simp] theorem calls_throw {e : χ} : Calls ok (throw e : Program ε answer χ α) := trivial

theorem Calls.bind {f : α → Program ε answer χ β} (first : p.Calls ok)
    (rest : ∀ a, (f a).Calls ok) : (p >>= f).Calls ok := by
  show (p.bind f).Calls ok
  induction p with
  | done a => exact rest a
  | raise e => trivial
  | call c next ih => exact ⟨first.1, fun a => ih a (first.2 a)⟩

theorem Calls.tryCatch {handler : χ → Program ε answer χ α} (first : p.Calls ok)
    (rest : ∀ e, (handler e).Calls ok) : (tryCatch p handler).Calls ok := by
  show (p.tryCatch handler).Calls ok
  induction p with
  | done a => trivial
  | raise e => exact rest e
  | call c next ih => exact ⟨first.1, fun a => ih a (first.2 a)⟩

theorem Calls.mono {ok' : ε → Prop} (allowed : ∀ c, ok c → ok' c) (calls : p.Calls ok) :
    p.Calls ok' := by
  induction p with
  | done a => trivial
  | raise e => trivial
  | call c next ih => exact ⟨allowed c calls.1, fun a => ih a (calls.2 a)⟩

/-! ## From commands to programs -/

theorem run_invariant {I : σ → Prop} (calls : p.Calls ok)
    (preserved : ∀ s c, ok c → I s → I (exec s c).2) (start : I s) : I (run exec s p).2 := by
  induction p generalizing s with
  | done a => exact start
  | raise e => exact start
  | call c next ih => exact ih _ (calls.2 _) (preserved s c calls.1 start)

/-- A reflexive and transitive relation across every command holds across the program. -/
theorem run_relates {I : σ → Prop} {R : σ → σ → Prop} (calls : p.Calls ok)
    (reflexive : ∀ s, R s s) (transitive : ∀ s t u, R s t → R t u → R s u)
    (preserved : ∀ s c, ok c → I s → I (exec s c).2)
    (related : ∀ s c, ok c → I s → R s (exec s c).2) (start : I s) : R s (run exec s p).2 := by
  induction p generalizing s with
  | done a => exact reflexive s
  | raise e => exact reflexive s
  | call c next ih =>
    exact transitive _ _ _ (related s c calls.1 start)
      (ih _ (calls.2 _) (preserved s c calls.1 start))

/-- What only grows across commands grows across a program. -/
theorem run_grows {P : σ → Prop} (grows : ∀ s c, P s → P (exec s c).2) (start : P s) :
    P (run exec s p).2 := by
  induction p generalizing s with
  | done a => exact start
  | raise e => exact start
  | call c next ih => exact ih _ (grows s c start)

/-- Two stores that answer every command alike, and stay alike, tell a program the same.  A
command may also break one of the stores for good (`B`); then nothing is said. -/
theorem run_alike {R : σ → σ → Prop} {B : σ → Prop} (calls : p.Calls ok)
    (stays : ∀ s c, B s → B (exec s c).2)
    (alike : ∀ s t c, ok c → R s t → (exec s c).1 = (exec t c).1 ∧ R (exec s c).2 (exec t c).2 ∨
      B (exec s c).2 ∨ B (exec t c).2)
    (start : R s t) (sound : ¬ B (run exec s p).2) (sound' : ¬ B (run exec t p).2) :
    (run exec s p).1 = (run exec t p).1 ∧ R (run exec s p).2 (run exec t p).2 := by
  induction p generalizing s t with
  | done a => exact ⟨rfl, start⟩
  | raise e => exact ⟨rfl, start⟩
  | call c next ih =>
    obtain ⟨answers, stores⟩ | lost | lost := alike s t c calls.1 start
    · rw [run_call] at sound
      rw [run_call, ← answers] at sound'
      rw [run_call, run_call, ← answers]
      exact ih _ (calls.2 _) stores sound sound'
    · exact absurd (run_grows stays lost) sound
    · exact absurd (run_grows stays lost) sound'

/-- Two ways to operate a store do the same with a program. -/
def Agrees (exec exec' : σ → (c : ε) → answer c × σ) (s : σ) (p : Program ε answer χ α) : Prop :=
  run exec s p = run exec' s p

variable {exec' : σ → (c : ε) → answer c × σ}

theorem agrees_pure {a : α} : Agrees exec exec' s (pure a : Program ε answer χ α) := rfl

theorem agrees_throw {e : χ} : Agrees exec exec' s (throw e : Program ε answer χ α) := rfl

theorem agrees_call {c : ε} {next : answer c → Program ε answer χ α}
    (first : exec s c = exec' s c) (rest : Agrees exec exec' (exec s c).2 (next (exec s c).1)) :
    Agrees exec exec' s (.call c next) := by
  rw [Agrees, run_call, run_call, ← first]
  exact rest

/-- They agree on a sequence when they agree on its first part, and on the rest where the first
part ends. -/
theorem Agrees.bind {f : α → Program ε answer χ β} (first : Agrees exec exec' s p)
    (rest : ∀ a t, run exec s p = (.ok a, t) → Agrees exec exec' t (f a)) :
    Agrees exec exec' s (p >>= f) := by
  rw [Agrees, run_bind, run_bind, ← first]
  cases ran : run exec s p with
  | mk result t =>
    cases result with
    | ok a => exact rest a t ran
    | error e => rfl

theorem Agrees.tryCatch {handler : χ → Program ε answer χ α} (first : Agrees exec exec' s p)
    (rest : ∀ e t, run exec s p = (.error e, t) → Agrees exec exec' t (handler e)) :
    Agrees exec exec' s (tryCatch p handler) := by
  rw [Agrees, run_tryCatch, run_tryCatch, ← first]
  cases ran : run exec s p with
  | mk result t =>
    cases result with
    | ok a => rfl
    | error e => exact rest e t ran

/-! ## Refinement -/

variable {τ κ : Type}

/-- From `s`, the program ends with the result of `x`, in a store that stands for the state that
`x` ends in and meets the invariant; or both raise, and the errors match. -/
def Simulates (exec : σ → (c : ε) → answer c × σ) (abs : σ → τ) (I : σ → Prop)
    (blame : κ → χ → Prop) (s : σ) (p : Program ε answer χ α) (x : Except κ (α × τ)) : Prop :=
  match x with
  | .ok (a, t) => ∃ s', run exec s p = (.ok a, s') ∧ abs s' = t ∧ I s'
  | .error k => ∃ e s', run exec s p = (.error e, s') ∧ blame k e

section Simulates

variable {abs : σ → τ} {I : σ → Prop} {blame : κ → χ → Prop}

theorem simulates_pure {a : α} (holds : I s) :
    Simulates exec abs I blame s (pure a : Program ε answer χ α) (.ok (a, abs s)) :=
  ⟨s, rfl, rfl, holds⟩

theorem simulates_throw {e : χ} {k : κ} (matched : blame k e) :
    Simulates exec abs I blame s (throw e : Program ε answer χ α) (.error k) :=
  ⟨e, s, rfl, matched⟩

/-- The first part may be any program that is known to return. -/
theorem simulates_of_run {f : α → Program ε answer χ β} {a : α} {y : Except κ (β × τ)}
    (ran : run exec s p = (.ok a, t)) (rest : Simulates exec abs I blame t (f a) y) :
    Simulates exec abs I blame s (p >>= f) y := by
  unfold Simulates at rest ⊢
  simp only [run_bind, ran]
  exact rest

theorem simulates_of_raised {f : α → Program ε answer χ β} {e : χ} {k : κ}
    (ran : run exec s p = (.error e, t)) (matched : blame k e) :
    Simulates exec abs I blame s (p >>= f) (.error k) :=
  ⟨e, t, by rw [run_bind, ran], matched⟩

theorem Simulates.mono {blame' : κ → χ → Prop} {x : Except κ (α × τ)}
    (allows : ∀ k e, blame k e → blame' k e) (simulates : Simulates exec abs I blame s p x) :
    Simulates exec abs I blame' s p x := by
  cases x with
  | ok result => exact simulates
  | error k =>
    obtain ⟨e, s', ran, matched⟩ := simulates
    exact ⟨e, s', ran, allows k e matched⟩

theorem Simulates.bind {x : Except κ (α × τ)} {f : α → Program ε answer χ β}
    {g : α × τ → Except κ (β × τ)} (first : Simulates exec abs I blame s p x)
    (rest : ∀ a s', run exec s p = (.ok a, s') → I s' →
      Simulates exec abs I blame s' (f a) (g (a, abs s'))) :
    Simulates exec abs I blame s (p >>= f) (x >>= g) := by
  cases x with
  | error k =>
    obtain ⟨e, s', ran, matched⟩ := first
    refine ⟨e, s', ?_, matched⟩
    rw [run_bind, ran]
  | ok result =>
    obtain ⟨a, t⟩ := result
    obtain ⟨s', ran, rfl, holds⟩ := first
    exact simulates_of_run ran (rest a s' ran holds)

end Simulates

end Program

end SupportPilot.Lib
