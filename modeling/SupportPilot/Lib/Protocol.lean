import SupportPilot.Lib.Processes
import SupportPilot.Lib.Threads

/-! # Protocols that programs keep to

A protocol has phases.  It says which commands a party may issue in a phase, and in which phase an
answer leaves it.  `Keeps` is that a program does so, and ends as a postcondition says; it has the
rules of a program logic.

Where the threads of a system keep to their protocols, an invariant of the store and of the phases
that are reached is one that every allowed command keeps (`Threads.keeps_invariant`).  The phases
are bookkeeping: no program reads them. -/

namespace SupportPilot.Lib

structure Protocol (τ ε : Type) (answer : ε → Type) where
  allowed : τ → ε → Prop
  after : τ → (command : ε) → answer command → τ → Prop

namespace Program

variable {τ ε χ α β : Type} {answer : ε → Type} {protocol : Protocol τ ε answer}
  {Q Q' : Except χ α → τ → Prop} {phase : τ}

/-- What holds of a value, or of an exception. -/
def onResult (ok : α → τ → Prop) (error : χ → τ → Prop) : Except χ α → τ → Prop
  | .ok a => ok a
  | .error e => error e

@[simp] theorem onResult_ok {ok : α → τ → Prop} {error : χ → τ → Prop} {a : α} :
    onResult ok error (.ok a) = ok a := rfl

@[simp] theorem onResult_error {ok : α → τ → Prop} {error : χ → τ → Prop} {e : χ} :
    onResult ok error (.error e) = error e := rfl

def Keeps (protocol : Protocol τ ε answer) (Q : Except χ α → τ → Prop) :
    Program ε answer χ α → τ → Prop
  | .done a, phase => Q (.ok a) phase
  | .raise e, phase => Q (.error e) phase
  | .call c next, phase => protocol.allowed phase c ∧
      ∀ a phase', protocol.after phase c a phase' → (next a).Keeps protocol Q phase'

@[simp] theorem keeps_pure {a : α} :
    Keeps protocol Q (pure a : Program ε answer χ α) phase ↔ Q (.ok a) phase := Iff.rfl

@[simp] theorem keeps_throw {e : χ} :
    Keeps protocol Q (throw e : Program ε answer χ α) phase ↔ Q (.error e) phase := Iff.rfl

@[simp] theorem keeps_call {c : ε} {next : answer c → Program ε answer χ α} :
    Keeps protocol Q (.call c next) phase ↔ protocol.allowed phase c ∧
      ∀ a phase', protocol.after phase c a phase' → (next a).Keeps protocol Q phase' := Iff.rfl

variable {p : Program ε answer χ α}

@[simp] theorem keeps_bind {R : Except χ β → τ → Prop} {f : α → Program ε answer χ β} :
    (p >>= f).Keeps protocol R phase ↔ p.Keeps protocol
      (onResult (fun a => (f a).Keeps protocol R) fun e => R (.error e)) phase := by
  show (p.bind f).Keeps protocol R phase ↔ _
  induction p generalizing phase with
  | done a => rfl
  | raise e => rfl
  | call c next ih =>
    exact and_congr_right fun _ => forall_congr' fun a => forall_congr' fun phase' =>
      imp_congr_right fun _ => ih a

@[simp] theorem keeps_tryCatch {handler : χ → Program ε answer χ α} :
    (tryCatch p handler).Keeps protocol Q phase ↔ p.Keeps protocol
      (onResult (fun a => Q (.ok a)) fun e => (handler e).Keeps protocol Q) phase := by
  show (p.tryCatch handler).Keeps protocol Q phase ↔ _
  induction p generalizing phase with
  | done a => rfl
  | raise e => rfl
  | call c next ih =>
    exact and_congr_right fun _ => forall_congr' fun a => forall_congr' fun phase' =>
      imp_congr_right fun _ => ih a

theorem Keeps.mono (keeps : p.Keeps protocol Q phase)
    (weaker : ∀ result phase, Q result phase → Q' result phase) : p.Keeps protocol Q' phase := by
  induction p generalizing phase with
  | done a => exact weaker _ _ keeps
  | raise e => exact weaker _ _ keeps
  | call c next ih => exact ⟨keeps.1, fun a phase' behind => ih a (keeps.2 a phase' behind)⟩

/-- A program of commands that are allowed in every phase. -/
theorem keeps_of_calls {ok : ε → Prop} (calls : p.Calls ok)
    (allowed : ∀ phase command, ok command → protocol.allowed phase command)
    (holds : ∀ result phase, Q result phase) : p.Keeps protocol Q phase := by
  induction p generalizing phase with
  | done a => exact holds _ _
  | raise e => exact holds _ _
  | call c next ih => exact ⟨allowed _ _ calls.1, fun a phase' _ => ih a (calls.2 a)⟩

/-- A whole execution, whose answers the protocol allows. -/
inductive Ends (protocol : Protocol τ ε answer) :
    Program ε answer χ α → τ → Except χ α → τ → Prop
  | done {a : α} {phase : τ} : Ends protocol (.done a) phase (.ok a) phase
  | raise {e : χ} {phase : τ} : Ends protocol (.raise e) phase (.error e) phase
  | call {c : ε} {next : answer c → Program ε answer χ α} {a : answer c} {phase phase' last : τ}
    {result : Except χ α} (after : protocol.after phase c a phase')
    (rest : Ends protocol (next a) phase' result last) :
    Ends protocol (.call c next) phase result last

theorem ends_of_run {exec : τ → (c : ε) → answer c × τ}
    (performs : ∀ phase c, protocol.after phase c (exec phase c).1 (exec phase c).2) :
    Ends protocol p phase (run exec phase p).1 (run exec phase p).2 := by
  induction p generalizing phase with
  | done a => exact .done
  | raise e => exact .raise
  | call c next ih => exact .call (performs phase c) (ih _)

theorem Keeps.ends {result : Except χ α} {last : τ} (keeps : p.Keeps protocol Q phase)
    (ends : Ends protocol p phase result last) : Q result last := by
  induction ends with
  | done => exact keeps
  | raise => exact keeps
  | call after _ ih => exact ih (keeps.2 _ _ after)

end Program

namespace Threads

variable {κ σ ε ι χ τ : Type} {answer : ε → Type} {result : κ → Type}
  {exec : ι → σ → (c : ε) → answer c × σ} {body : (call : κ) → Program ε answer χ (result call)}
  {s s' : Threads σ ε answer χ result} {events : List (ThreadEvent κ ι)}

/-- A thread is in a phase of its call's protocol, and will end as the call should. -/
structure InPhase (protocol : κ → Protocol τ ε answer)
    (Q : (call : κ) → Except χ (result call) → τ → Prop)
    (thread : Thread ε answer χ result) (phase : κ × τ) : Prop where
  call : phase.1 = thread.call
  keeps : thread.program.Keeps (protocol thread.call) (Q thread.call) phase.2

/-- The phases of all threads. -/
structure InPhases (protocol : κ → Protocol τ ε answer)
    (Q : (call : κ) → Except χ (result call) → τ → Prop)
    (threads : List (Thread ε answer χ result)) (phases : List (κ × τ)) : Prop where
  length : phases.length = threads.length
  inPhase : ∀ (i : Nat) (thread : Thread ε answer χ result), threads[i]? = some thread →
    ∃ phase, phases[i]? = some phase ∧ InPhase protocol Q thread phase

variable {protocol : κ → Protocol τ ε answer} {Q : (call : κ) → Except χ (result call) → τ → Prop}
  {J : σ → List (κ × τ) → Prop}

theorem InPhases.thread {threads : List (Thread ε answer χ result)} {phases : List (κ × τ)} {i : Nat}
    {phase : κ × τ} (all : InPhases protocol Q threads phases) (here : phases[i]? = some phase) :
    ∃ thread, threads[i]? = some thread ∧ InPhase protocol Q thread phase := by
  obtain ⟨bound, -⟩ := List.getElem?_eq_some_iff.mp here
  rw [all.length] at bound
  obtain ⟨phase', found, inPhase⟩ := all.inPhase i _ (List.getElem?_eq_getElem bound)
  rw [here, Option.some.injEq] at found
  exact ⟨_, List.getElem?_eq_getElem bound, found ▸ inPhase⟩

theorem inPhases_nil : InPhases protocol Q ([] : List (Thread ε answer χ result)) [] :=
  ⟨rfl, fun _ _ here => absurd here (by simp)⟩

theorem InPhases.concat {threads : List (Thread ε answer χ result)} {phases : List (κ × τ)}
    {thread : Thread ε answer χ result} {phase : κ × τ} (before : InPhases protocol Q threads phases)
    (added : InPhase protocol Q thread phase) :
    InPhases protocol Q (threads ++ [thread]) (phases ++ [phase]) := by
  refine ⟨by simp [before.length], fun i other here => ?_⟩
  obtain old | ⟨rfl, rfl⟩ := getElem?_of_concat here
  · obtain ⟨phase', found, inPhase⟩ := before.inPhase i other old
    obtain ⟨bound, -⟩ := List.getElem?_eq_some_iff.mp found
    exact ⟨phase', by rw [List.getElem?_append_left bound, found], inPhase⟩
  · exact ⟨phase, by rw [← before.length, List.getElem?_concat_length], added⟩

theorem InPhases.set {threads : List (Thread ε answer χ result)} {phases : List (κ × τ)} {i : Nat}
    {thread : Thread ε answer χ result} {phase : κ × τ} (before : InPhases protocol Q threads phases)
    (moved : InPhase protocol Q thread phase) :
    InPhases protocol Q (threads.set i thread) (phases.set i phase) := by
  refine ⟨by simp [before.length], fun j other here => ?_⟩
  obtain ⟨bound, -⟩ := List.getElem?_eq_some_iff.mp here
  rw [List.length_set, ← before.length] at bound
  obtain ⟨rfl, rfl⟩ | ⟨differs, old⟩ := getElem?_of_set here
  · exact ⟨phase, List.getElem?_set_self bound, moved⟩
  · obtain ⟨phase', found, inPhase⟩ := before.inPhase j other old
    exact ⟨phase', by rw [List.getElem?_set_ne differs.symm, found], inPhase⟩

variable (protocol Q J) in
/-- The rule of invariants: `J` relates the store to the phases of the calls. -/
theorem keeps_invariant
    (starts : ∀ store phases call, .start call ∈ events → J store phases → ∃ phase,
      (body call).Keeps (protocol call) (Q call) phase ∧ J store (phases ++ [(call, phase)]))
    (steps : ∀ store phases i call phase command input, J store phases →
      phases[i]? = some (call, phase) → (protocol call).allowed phase command →
      ∃ phase', (protocol call).after phase command (exec input store command).1 phase' ∧
        J (exec input store command).2 (phases.set i (call, phase')))
    (run : Run (stepOf (next exec body)) s events s')
    (start : ∃ phases, InPhases protocol Q s.threads phases ∧ J s.store phases) :
    ∃ phases, InPhases protocol Q s'.threads phases ∧ J s'.store phases := by
  induction run with
  | nil => exact start
  | cons taken _ ih =>
    refine ih (fun store phases call later =>
      starts store phases call (List.mem_cons_of_mem _ later)) ?_
    obtain ⟨phases, threads, store⟩ := start
    cases moves_of_next taken with
    | started call =>
      obtain ⟨phase, keeps, store'⟩ := starts _ phases call List.mem_cons_self store
      exact ⟨_, threads.concat ⟨rfl, keeps⟩, store'⟩
    | @stepped i call command rest input here =>
      obtain ⟨⟨call', phase⟩, found, inPhase⟩ := threads.inPhase i _ here
      obtain rfl : call' = call := inPhase.call
      obtain ⟨allowed, behind⟩ := inPhase.keeps
      obtain ⟨phase', after, store'⟩ := steps _ _ i _ _ command input store found allowed
      exact ⟨_, threads.set ⟨rfl, behind _ _ after⟩, store'⟩

end Threads

end SupportPilot.Lib
