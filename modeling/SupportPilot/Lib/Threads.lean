import SupportPilot.Lib.Program
import SupportPilot.Lib.Transition

/-! # Programs that run at the same time

Any number of threads run programs over one store, and a step executes the next command of one of
them.  What a command does may depend on an input, such as a clock or a failure.  A thread keeps the
call that it was started for. -/

namespace SupportPilot.Lib

/-- A call, and what is left to do of it. -/
structure Thread {κ : Type} (ε : Type) (answer : ε → Type) (χ : Type) (result : κ → Type) where
  call : κ
  program : Program ε answer χ (result call)

structure Threads {κ : Type} (σ ε : Type) (answer : ε → Type) (χ : Type) (result : κ → Type) where
  store : σ
  threads : List (Thread ε answer χ result)

inductive ThreadEvent (κ ι : Type) where
  | start (call : κ)
  | step (i : Nat) (input : ι)

namespace Threads

variable {κ σ ε ι χ : Type} {answer : ε → Type} {result : κ → Type}
  (exec : ι → σ → (c : ε) → answer c × σ) (body : (call : κ) → Program ε answer χ (result call))

def next (s : Threads σ ε answer χ result) :
    ThreadEvent κ ι → Option (Threads σ ε answer χ result)
  | .start call => some { s with threads := s.threads ++ [⟨call, body call⟩] }
  | .step i input =>
    match s.threads[i]? with
    | some ⟨call, .call command rest⟩ =>
      let (a, store) := exec input s.store command
      some ⟨store, s.threads.set i ⟨call, rest a⟩⟩
    | _ => none

/-- What can happen. -/
inductive Moves (s : Threads σ ε answer χ result) :
    ThreadEvent κ ι → Threads σ ε answer χ result → Prop
  | started (call : κ) :
    Moves s (.start call) { s with threads := s.threads ++ [⟨call, body call⟩] }
  | stepped {i : Nat} {call : κ} {command : ε}
      {rest : answer command → Program ε answer χ (result call)} (input : ι)
      (here : s.threads[i]? = some ⟨call, .call command rest⟩) :
    Moves s (.step i input) ⟨(exec input s.store command).2,
      s.threads.set i ⟨call, rest (exec input s.store command).1⟩⟩

variable {exec body} {s s' : Threads σ ε answer χ result} {event : ThreadEvent κ ι}

theorem moves_of_next (taken : stepOf (next exec body) s event s') : Moves exec body s event s' := by
  cases event with
  | start call =>
    cases taken
    exact .started call
  | step i input =>
    rw [stepOf, next] at taken
    split at taken
    next call command rest here =>
      cases taken
      exact .stepped input here
    next => cases taken

end Threads

end SupportPilot.Lib
