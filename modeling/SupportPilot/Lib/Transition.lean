import Mathlib.Data.List.Basic

/-! # Labelled transition systems

A system is a relation `step s e t`: event `e` takes state `s` to state `t`.
`Run step s es t` is a finite run of it, read from left to right.  The rules
below turn what one step preserves into what a whole run preserves; every
safety result of the development is an instance of `Run.invariant` or of
`Run.relates`.

Systems that compute their successor (`next : σ → ε → Option σ`, with `none`
for an event that is not enabled) are run by `exec`, and `Run.of_exec` turns a
successful execution into a run. -/

namespace SupportPilot.Lib

variable {σ ε : Type*}

/-- A finite run, with its events in order. -/
inductive Run (step : σ → ε → σ → Prop) : σ → List ε → σ → Prop
  | nil {s} : Run step s [] s
  | cons {s e t es u} : step s e t → Run step t es u → Run step s (e :: es) u

namespace Run

variable {step : σ → ε → σ → Prop} {s t u : σ} {es fs : List ε}

theorem append (first : Run step s es t) (second : Run step t fs u) :
    Run step s (es ++ fs) u := by
  induction first with
  | nil => exact second
  | cons taken _ ih => exact .cons taken (ih second)

theorem single {e : ε} (taken : step s e t) : Run step s [e] t :=
  .cons taken .nil

/-- Runs of a system are runs of every system that allows more. -/
theorem mono {step' : σ → ε → σ → Prop} (allows : ∀ s e t, step s e t → step' s e t)
    (run : Run step s es t) : Run step' s es t := by
  induction run with
  | nil => exact .nil
  | cons taken _ ih => exact .cons (allows _ _ _ taken) ih

/-- An invariant that every step preserves holds at the end of every run. -/
theorem invariant {I : σ → Prop} (preserved : ∀ s e t, I s → step s e t → I t)
    (run : Run step s es t) (start : I s) : I t := by
  induction run with
  | nil => exact start
  | cons taken _ ih => exact ih (preserved _ _ _ start taken)

/-- A reflexive and transitive relation that holds across every step taken
from a state satisfying the invariant `I` holds across every run. -/
theorem relates {I : σ → Prop} {R : σ → σ → Prop} (reflexive : ∀ s, R s s)
    (transitive : ∀ s t u, R s t → R t u → R s u)
    (preserved : ∀ s e t, I s → step s e t → I t)
    (related : ∀ s e t, I s → step s e t → R s t)
    (run : Run step s es t) (start : I s) : R s t := by
  induction run with
  | nil => exact reflexive _
  | cons taken _ ih =>
    exact transitive _ _ _ (related _ _ _ start taken) (ih (preserved _ _ _ start taken))

/-- What holds at the end and not at the start was brought about on the way: where
a step makes `Q` true, `P` holds behind it. -/
theorem passes {I P Q : σ → Prop} (preserved : ∀ s e t, I s → step s e t → I t)
    (caused : ∀ s e t, I s → step s e t → Q t → Q s ∨ P t) (run : Run step s es t) (start : I s)
    (before : ¬ Q s) (after : Q t) :
    ∃ first rest u, es = first ++ rest ∧ Run step s first u ∧ Run step u rest t ∧ P u := by
  induction run with
  | nil => exact absurd after before
  | @cons s e u es t taken rest ih =>
    by_cases reached : P u
    · exact ⟨[e], es, u, rfl, .single taken, rest, reached⟩
    · have still : ¬ Q u := fun holds => (caused s e u start taken holds).elim before reached
      obtain ⟨first, later, v, whole, early, late, holds⟩ :=
        ih (preserved _ _ _ start taken) still after
      exact ⟨e :: first, later, v, by rw [whole, List.cons_append], .cons taken early, late, holds⟩

/-- Two systems that take the same steps where an invariant holds have the same runs from there. -/
theorem congr {step' : σ → ε → σ → Prop} {I : σ → Prop}
    (preserved : ∀ s e t, I s → step s e t → I t)
    (agree : ∀ s e t, I s → (step s e t ↔ step' s e t)) (start : I s) :
    Run step s es t ↔ Run step' s es t := by
  constructor
  · intro run
    induction run with
    | nil => exact .nil
    | cons taken _ ih =>
      exact .cons ((agree _ _ _ start).mp taken) (ih (preserved _ _ _ start taken))
  · intro run
    induction run with
    | nil => exact .nil
    | cons taken' _ ih =>
      have taken := (agree _ _ _ start).mpr taken'
      exact .cons taken (ih (preserved _ _ _ start taken))

/-- What a run changes, one of its steps changes. -/
theorem culprit {α : Type*} (f : σ → α) (run : Run step s es t) (changed : f t ≠ f s) :
    ∃ first e rest u v, es = first ++ e :: rest ∧ Run step s first u ∧ step u e v ∧
      Run step v rest t ∧ f v ≠ f u := by
  induction run with
  | nil => exact absurd rfl changed
  | @cons s e u es t taken rest ih =>
    by_cases same : f u = f s
    · obtain ⟨first, e', later, v, v', whole, early, taken', late, differs⟩ :=
        ih (same ▸ changed)
      exact ⟨e :: first, e', later, v, v', by rw [whole, List.cons_append], .cons taken early,
        taken', late, differs⟩
    · exact ⟨[], e, es, s, u, rfl, .nil, taken, rest, same⟩

end Run

/-- The system of a computed successor. -/
def stepOf (next : σ → ε → Option σ) (s : σ) (e : ε) (t : σ) : Prop :=
  next s e = some t

/-- Execute a list of events; `none` as soon as one of them is not enabled. -/
def exec (next : σ → ε → Option σ) : σ → List ε → Option σ
  | s, [] => some s
  | s, e :: es => (next s e).bind (exec next · es)

theorem Run.of_exec {next : σ → ε → Option σ} {s t : σ} {es : List ε}
    (executed : exec next s es = some t) : Run (stepOf next) s es t := by
  induction es generalizing s with
  | nil =>
    cases executed
    exact .nil
  | cons e es ih =>
    obtain ⟨u, taken, rest⟩ := Option.bind_eq_some_iff.mp executed
    exact .cons taken (ih rest)

/-- The steps that meet a condition on the state before them. -/
def guarded (condition : σ → ε → Bool) (next : σ → ε → Option σ) (s : σ) (e : ε) : Option σ :=
  if condition s e then next s e else none

theorem stepOf_guarded {condition : σ → ε → Bool} {next : σ → ε → Option σ} {s t : σ} {e : ε} :
    stepOf (guarded condition next) s e t ↔ condition s e = true ∧ stepOf next s e t := by
  rw [stepOf, guarded]
  split <;> simp [*, stepOf]

/-- A state that some run from `init` reaches. -/
def Reachable (step : σ → ε → σ → Prop) (init s : σ) : Prop :=
  ∃ es, Run step init es s

theorem Reachable.invariant {step : σ → ε → σ → Prop} {init s : σ} {I : σ → Prop}
    (reached : Reachable step init s) (start : I init)
    (preserved : ∀ s e t, I s → step s e t → I t) : I s := by
  obtain ⟨es, run⟩ := reached
  exact run.invariant preserved start

/-- A state reached by execution, with a check of it. -/
theorem reachable_of_exec {next : σ → ε → Option σ} {init : σ} {es : List ε} {check : σ → Bool}
    (executed : (exec next init es).any check = true) :
    ∃ s, Reachable (stepOf next) init s ∧ check s = true := by
  obtain ⟨s, ran, checked⟩ := (Option.any_eq_true _ _).mp executed
  exact ⟨s, ⟨es, .of_exec ran⟩, checked⟩

/-- Two executions, one after the other, with a check of the states they end in. -/
theorem exists_exec {next : σ → ε → Option σ} {init : σ} {es fs : List ε} {check : σ → σ → Bool}
    (executed : ((exec next init es).any fun s => (exec next s fs).any (check s)) = true) :
    ∃ s t, exec next init es = some s ∧ exec next s fs = some t ∧ check s t = true := by
  obtain ⟨s, ran, rest⟩ := (Option.any_eq_true _ _).mp executed
  obtain ⟨t, ran', checked⟩ := (Option.any_eq_true _ _).mp rest
  exact ⟨s, t, ran, ran', checked⟩

/-- A state reached by execution and one that a run from there reaches, with a check
of both. -/
theorem run_of_exec {next : σ → ε → Option σ} {init : σ} {es fs : List ε} {check : σ → σ → Bool}
    (executed : ((exec next init es).any fun s => (exec next s fs).any (check s)) = true) :
    ∃ s t, Reachable (stepOf next) init s ∧ Run (stepOf next) s fs t ∧ check s t = true := by
  obtain ⟨s, t, ran, ran', checked⟩ := exists_exec executed
  exact ⟨s, t, ⟨es, .of_exec ran⟩, .of_exec ran', checked⟩

end SupportPilot.Lib
