import SupportPilot.Storage.Refinement

/-! # Calls of the object store are atomic

Where no two calls of one key run at the same time, calls that overlap are as good as calls that
follow one another (`calls_linearizable`): in the order in which they end, they return and raise what
the map from keys to bytes says, and the disk holds the objects of that map. -/

namespace SupportPilot.Storage

open Lib Program

section Atomicity

variable {store : LocalObjectStore} {κ : Type}

abbrev ObjectThread (κ : Type) :=
  Thread Command Answer PyError (ObjectCall.Result : ObjectCall κ → Type)

abbrev ObjectSystem (κ : Type) :=
  Threads Disk Command Answer PyError (ObjectCall.Result : ObjectCall κ → Type)

/-- The call of a thread that has come to its end. -/
def ended : ObjectThread κ → Option (ObjectEvent κ)
  | ⟨call, .done a⟩ => some ⟨call, .ok a⟩
  | ⟨call, .raise error⟩ => some ⟨call, .error error⟩
  | ⟨_, .call _ _⟩ => none

/-- The thread runs a call of the key. -/
def Occupies (thread : ObjectThread κ) (key : κ) : Prop :=
  ended thread = none ∧ key ∈ thread.call.keys

/-- A call starts when no other call of its keys is running. -/
def Admits (s : ObjectSystem κ) : ThreadEvent (ObjectCall κ) Input → Prop
  | .start call => call.IsKeyed ∧ ∀ thread ∈ s.threads, ∀ key ∈ call.keys, ¬ Occupies thread key
  | .step _ _ => True

/-- A step of the calls that run, on a disk without faults. -/
def Takes (placement : Placement store κ) (s : ObjectSystem κ)
    (event : ThreadEvent (ObjectCall κ) Input) (s' : ObjectSystem κ) : Prop :=
  stepOf (Threads.next perform (ObjectCall.program placement)) s event s' ∧ Admits s event

/-- Steps are always admitted. -/
theorem run_of_steps {placement : Placement store κ} {s s' : ObjectSystem κ}
    {steps : List (Nat × Input)}
    (run : Run (stepOf (Threads.next perform (ObjectCall.program placement))) s
      (steps.map fun step => .step step.1 step.2) s') :
    Run (Takes placement) s (steps.map fun step => .step step.1 step.2) s' := by
  induction steps generalizing s with
  | nil =>
    cases run
    exact .nil
  | cons step steps ih =>
    cases run with
    | cons taken rest => exact .cons ⟨taken, trivial⟩ (ih rest)

theorem ended_program (placement : Placement store κ) {call : ObjectCall κ} (keyed : call.IsKeyed) :
    ended (⟨call, call.program placement⟩ : ObjectThread κ) = none := by
  cases call with
  | deleteStaleStaging => cases keyed
  | write => rw [ObjectCall.program, LocalObjectStore.write, placement.path]; rfl
  | read => rw [ObjectCall.program, LocalObjectStore.read, placement.path]; rfl
  | stat => rw [ObjectCall.program, LocalObjectStore.stat, placement.path]; rfl
  | move => rw [ObjectCall.program, LocalObjectStore.move, placement.path, placement.path]; rfl
  | delete => rw [ObjectCall.program, LocalObjectStore.delete, placement.path]; rfl

/-- What nobody occupies behind a step, and is no key of the call, nobody occupied before it. -/
theorem unoccupied_of_set {s : ObjectSystem κ} {i : Nat} {call : ObjectCall κ}
    {program program' : StoreM call.Result} {key : κ}
    (here : s.threads[i]? = some ⟨call, program⟩) (foreign : key ∉ call.keys)
    (unoccupied : ∀ thread ∈ s.threads.set i ⟨call, program'⟩, ¬ Occupies thread key) :
    ∀ thread ∈ s.threads, ¬ Occupies thread key := by
  intro thread member occupies
  obtain ⟨j, there⟩ := List.getElem?_of_mem member
  by_cases same : j = i
  · subst same
    rw [here, Option.some.injEq] at there
    subst there
    exact foreign occupies.2
  · exact unoccupied thread (List.mem_of_getElem?
      (by rw [List.getElem?_set_ne (Ne.symm same), there])) occupies

variable [DecidableEq κ]

/-- The calls that have ended did so one after the other, and the disk holds their objects, but for
keys whose calls still run. -/
structure Explains (placement : Placement store κ) (start : Objects κ) (s : ObjectSystem κ)
    (history : List (ObjectEvent κ)) (objects : Objects κ) : Prop where
  run : Run (Effects placement) start history objects
  ended : history.Perm (s.threads.filterMap ended)
  stored : ∃ current, Holds placement s.store current ∧
    ∀ key, (∀ thread ∈ s.threads, ¬ Occupies thread key) → current key = objects key

/-- A running call sees its keys as it has left them, and will have its effect on the objects of the
calls that have ended. -/
structure Linearized (placement : Placement store κ) (start : Objects κ) (s : ObjectSystem κ)
    (history : List (ObjectEvent κ)) (objects : Objects κ) : Prop
    extends Explains placement start s history objects where
  running : ∀ (i : Nat) (thread : ObjectThread κ), s.threads[i]? = some thread →
    Storage.ended thread = none → ∃ disk, Agree placement thread.call.keys disk s.store ∧
      thread.program.Keeps (sharing placement thread.call.keys)
        (EffectOn placement objects thread.call) disk
  exclusive : Exclusive Occupies s.threads

variable {placement : Placement store κ} {disk : Disk} {start objects objects' : Objects κ}
  {s s' : ObjectSystem κ} {history : List (ObjectEvent κ)} {call : ObjectCall κ}
  {result : Except PyError call.Result} {events events' : List (ThreadEvent (ObjectCall κ) Input)}

/-- Only the objects of the call's own keys count. -/
theorem EffectOn.congr (effect : EffectOn placement objects call result disk)
    (same : ∀ key ∈ call.keys, objects' key = objects key) :
    EffectOn placement objects' call result disk := by
  obtain ⟨after, effect, own⟩ := effect
  obtain ⟨after', effect', same'⟩ := effect.only_keys same
  exact ⟨after', effect', fun key isKey => (own key isKey).trans (same' key isKey).symm⟩

/-- A new call has seen the disk as it is. -/
theorem Linearized.start_call (lin : Linearized placement start s history objects)
    (admits : Admits s (.start call)) :
    Linearized placement start
      { s with threads := s.threads ++ [⟨call, call.program placement⟩] } history objects := by
  obtain ⟨keyed, free⟩ := admits
  have runs := ended_program placement keyed
  obtain ⟨current, holds, quiet⟩ := lin.stored
  refine ⟨⟨lin.run, ?_, current, holds, fun key unoccupied => quiet key fun thread member =>
    unoccupied thread (List.mem_append_left _ member)⟩, fun i thread here running => ?_,
    lin.exclusive.append fun key occupies thread member => free thread member key occupies.2⟩
  · simpa [runs] using lin.ended
  · obtain old | ⟨-, rfl⟩ := getElem?_of_concat here
    · exact lin.running i thread old running
    · refine ⟨s.store, .refl, (shares_program holds keyed).mono fun result disk effect => ?_⟩
      exact effect.congr fun key own => (quiet key fun thread member => free thread member key own).symm

/-- A call that has come to its end has its effect. -/
theorem effect_of_ended {program : StoreM call.Result} {event : ObjectEvent κ}
    (now : ended (⟨call, program⟩ : ObjectThread κ) = some event)
    (keeps : program.Keeps (sharing placement call.keys) (EffectOn placement objects call) disk) :
    ∃ result : Except PyError call.Result, event = ⟨call, result⟩ ∧
      EffectOn placement objects call result disk := by
  cases program with
  | done a => exact ⟨.ok a, (Option.some.inj now).symm, keeps⟩
  | raise error => exact ⟨.error error, (Option.some.inj now).symm, keeps⟩
  | call command rest => cases now

/-- Keys of other running calls are not those of this one. -/
theorem Linearized.foreign (lin : Linearized placement start s history objects) {i j : Nat}
    {thread other : ObjectThread κ} (here : s.threads[i]? = some thread)
    (running : Storage.ended thread = none) (differs : j ≠ i) (there : s.threads[j]? = some other)
    (running' : Storage.ended other = none) : other.call.keys ⊆ thread.call.keysᶜ := by
  intro key own shared
  exact differs (lin.exclusive j i other thread key there here ⟨running', own⟩ ⟨running, shared⟩)

/-- A step of one call leaves the others where they are. -/
theorem Linearized.step_call (lin : Linearized placement start s history objects) {i : Nat}
    {command : Command} {rest : Answer command → StoreM call.Result} (input : Input)
    (here : s.threads[i]? = some ⟨call, .call command rest⟩) :
    ∃ more objects', Linearized placement start ⟨(perform input s.store command).2,
      s.threads.set i ⟨call, rest (perform input s.store command).1⟩⟩ (history ++ more) objects' := by
  obtain ⟨disk, agree, allowed, behind⟩ := lin.running i _ here rfl
  obtain ⟨current, holds, quiet⟩ := lin.stored
  obtain ⟨⟨current', holds'⟩, others⟩ := allowed input s.store agree ⟨current, holds⟩
  have keeps : (rest (perform input s.store command).1).Keeps (sharing placement call.keys)
      (EffectOn placement objects call) (perform input s.store command).2 :=
    behind _ _ ⟨input, s.store, agree, ⟨current, holds⟩, rfl⟩
  generalize (perform input s.store command).1 = answer at keeps ⊢
  generalize (perform input s.store command).2 = store' at keeps others holds' ⊢
  have before : ∀ key, key ∉ call.keys →
      (∀ thread ∈ s.threads.set i ⟨call, rest answer⟩, ¬ Occupies thread key) →
      current' key = objects key := by
    intro key outside unoccupied
    rw [others.object holds holds' outside]
    exact quiet key (unoccupied_of_set here outside unoccupied)
  have sets := @perm_filterMap_set _ _ ended _ _ _ ⟨call, rest answer⟩ here rfl
  cases now : ended (⟨call, rest answer⟩ : ObjectThread κ) with
  | none =>
    rw [now] at sets
    refine ⟨[], objects, ⟨?_, ?_, current', holds', fun key unoccupied => before key ?_ unoccupied⟩,
      fun j other there running => ?_, ?_⟩
    · rw [List.append_nil]
      exact lin.run
    · rw [List.append_nil]
      exact lin.ended.trans sets.symm
    · intro own
      exact unoccupied _ (List.mem_of_getElem? (List.getElem?_set_self
        (List.getElem?_eq_some_iff.mp here).1)) ⟨now, own⟩
    · obtain ⟨-, rfl⟩ | ⟨differs, old⟩ := getElem?_of_set there
      · exact ⟨store', .refl, keeps⟩
      · obtain ⟨disk', agree', keeps'⟩ := lin.running j other old running
        exact ⟨disk', agree'.trans (others.mono (lin.foreign here rfl differs old running)), keeps'⟩
    · exact lin.exclusive.set here fun key occupies => .inl ⟨rfl, occupies.2⟩
  | some event =>
    obtain ⟨result, rfl, after, effect, own⟩ := effect_of_ended now keeps
    rw [now] at sets
    refine ⟨[⟨call, result⟩], after, ⟨lin.run.append (.single effect), ?_, current', holds',
      fun key unoccupied => ?_⟩, fun j other there running => ?_, ?_⟩
    · exact (List.perm_append_comm.trans (lin.ended.cons _)).trans sets.symm
    · by_cases isKey : key ∈ call.keys
      · rw [← holds'.object, own key isKey]
      · rw [before key isKey unoccupied, effect.frame isKey]
    · obtain ⟨-, rfl⟩ | ⟨differs, old⟩ := getElem?_of_set there
      · rw [now] at running
        cases running
      · obtain ⟨disk', agree', keeps'⟩ := lin.running j other old running
        have foreign := lin.foreign here rfl differs old running
        refine ⟨disk', agree'.trans (others.mono foreign), keeps'.mono fun result disk effect' => ?_⟩
        exact effect'.congr fun key own => effect.frame (foreign own)
    · refine lin.exclusive.set here fun key occupies => ?_
      rw [Occupies, now] at occupies
      cases occupies.1

theorem Linearized.takes (lin : Linearized placement start s history objects)
    {event : ThreadEvent (ObjectCall κ) Input} (taken : Takes placement s event s') :
    ∃ more objects', Linearized placement start s' (history ++ more) objects' := by
  obtain ⟨taken, admits⟩ := taken
  cases Threads.moves_of_next taken with
  | started call =>
    refine ⟨[], objects, ?_⟩
    rw [List.append_nil]
    exact lin.start_call admits
  | stepped input here => exact lin.step_call input here

theorem Linearized.of_run (lin : Linearized placement start s history objects)
    (run : Run (Takes placement) s events s') :
    ∃ more objects', Linearized placement start s' (history ++ more) objects' := by
  induction run generalizing history objects with
  | nil => exact ⟨[], objects, by rwa [List.append_nil]⟩
  | cons taken _ ih =>
    obtain ⟨more, objects', lin⟩ := lin.takes taken
    obtain ⟨more', objects'', lin⟩ := ih lin
    exact ⟨more ++ more', objects'', by rwa [← List.append_assoc]⟩

/-- Calls that overlap, but not with another call of their keys, are as good as calls that follow one
another.  What has ended before a call ends comes before it. -/
theorem calls_linearizable (holds : Holds placement disk start)
    (run : Run (Takes placement) ⟨disk, []⟩ events s)
    (later : Run (Takes placement) s events' s') :
    ∃ history more objects objects', Explains placement start s history objects ∧
      Explains placement start s' (history ++ more) objects' := by
  have initial : Linearized placement start ⟨disk, []⟩ [] start :=
    ⟨⟨.nil, .refl _, start, holds, fun _ _ => rfl⟩, fun i thread here => absurd here (by simp), .nil⟩
  obtain ⟨history, objects, lin⟩ := initial.of_run run
  obtain ⟨more, objects', lin'⟩ := lin.of_run later
  rw [List.nil_append] at lin lin'
  exact ⟨history, more, objects, objects', lin.toExplains, lin'.toExplains⟩

end Atomicity

/-! Two uploads at the same time; the first one ends while the second one still runs. -/

section Sample

def otherKey : {key : ObjectKey // Sound key} := ⟨.staging 1 5, by decide, by decide⟩

def sampleWrites : List (ObjectCall {key : ObjectKey // Sound key}) :=
  [.write stagedKey ⟨[[1]], none⟩, .write otherKey ⟨[[2]], none⟩]

def sampleOverlap : ObjectSystem {key : ObjectKey // Sound key} :=
  ⟨sampleDisk, sampleWrites.map fun call => ⟨call, call.program (objectKeys sampleStore)⟩⟩

def sampleSteps (turns : List Nat) :
    List (ThreadEvent (ObjectCall {key : ObjectKey // Sound key}) Input) :=
  (turns.map fun i => (i, (⟨i, ⟨0, 0⟩, none⟩ : Input))).map fun step => .step step.1 step.2

def afterTurns (s : ObjectSystem {key : ObjectKey // Sound key}) (turns : List Nat) :
    ObjectSystem {key : ObjectKey // Sound key} :=
  (exec (Threads.next perform (ObjectCall.program (objectKeys sampleStore))) s
    (sampleSteps turns)).getD s

def sampleMiddle : ObjectSystem {key : ObjectKey // Sound key} :=
  afterTurns sampleOverlap [0, 1, 0, 1, 0, 1, 0, 1, 0, 1, 0]

theorem run_starts : Run (Takes (objectKeys sampleStore)) ⟨sampleDisk, []⟩
    (sampleWrites.map .start) sampleOverlap := by
  refine .cons ⟨rfl, trivial, by simp⟩ (.cons ⟨rfl, trivial, ?_⟩ .nil)
  intro thread member key own occupies
  rw [List.nil_append, List.mem_singleton] at member
  subst member
  have differs : otherKey ≠ stagedKey := by decide
  exact differs (own.symm.trans occupies.2)

theorem run_afterTurns {s : ObjectSystem {key : ObjectKey // Sound key}} {turns : List Nat}
    (executed : (exec (Threads.next perform (ObjectCall.program (objectKeys sampleStore))) s
      (sampleSteps turns)).isSome = true) :
    Run (Takes (objectKeys sampleStore)) s (sampleSteps turns) (afterTurns s turns) := by
  obtain ⟨s', ran⟩ := Option.isSome_iff_exists.mp executed
  rw [afterTurns, ran]
  exact run_of_steps (.of_exec ran)

theorem calls_linearizable_sample : ∃ history more objects objects',
    Explains (objectKeys sampleStore) (fun _ => none) sampleMiddle history objects ∧
      Explains (objectKeys sampleStore) (fun _ => none) (afterTurns sampleMiddle [1])
        (history ++ more) objects' := by
  have made : (⟨[], []⟩ : Disk).makeDirectories sampleStore.root = .ok sampleDisk := rfl
  have first : Run (Takes (objectKeys sampleStore)) sampleOverlap _ sampleMiddle :=
    run_afterTurns (by decide)
  exact calls_linearizable (holds_init made (objectKeys_below sampleStore))
    (run_starts.append first) (run_afterTurns (by decide))

end Sample

end SupportPilot.Storage
