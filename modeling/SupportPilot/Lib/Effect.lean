/-! # Programs that change a state and may raise

Programs of `EStateM`, where an exception keeps the state it was raised in.
`Ends x s Q E` says that `x`, started in `s`, returns with `Q` or raises with
`E`.  Every program ends, so these are rules for total correctness; there is one
for each way of building a program, and `Ends.bind` and `Ends.mono` put results
about parts together. -/

namespace SupportPilot.Lib

variable {ε σ α β : Type}

def Ends (x : EStateM ε σ α) (s : σ) (Q : α → σ → Prop) (E : ε → σ → Prop) : Prop :=
  match x s with
  | .ok a t => Q a t
  | .error e t => E e t

variable {x : EStateM ε σ α} {s : σ} {Q R : α → σ → Prop} {E F : ε → σ → Prop}

theorem Ends.mono (ends : Ends x s Q E) (returned : ∀ a t, Q a t → R a t)
    (raised : ∀ e t, E e t → F e t) : Ends x s R F := by
  unfold Ends at ends ⊢
  cases result : x s with
  | ok a t => exact returned a t (by simpa only [result] using ends)
  | error e t => exact raised e t (by simpa only [result] using ends)

@[simp] theorem ends_pure {a : α} : Ends (pure a) s Q E ↔ Q a s := Iff.rfl

@[simp] theorem ends_throw {e : ε} : Ends (throw e : EStateM ε σ α) s Q E ↔ E e s := Iff.rfl

@[simp] theorem ends_bind {f : α → EStateM ε σ β} {Q : β → σ → Prop} :
    Ends (x >>= f) s Q E ↔ Ends x s (fun a t => Ends (f a) t Q E) E := by
  simp only [Ends, bind, EStateM.bind]
  cases x s <;> rfl

@[simp] theorem ends_tryCatch {handler : ε → EStateM ε σ α} :
    Ends (tryCatch x handler) s Q E ↔ Ends x s Q fun e t => Ends (handler e) t Q E := by
  simp only [Ends, tryCatch, tryCatchThe, MonadExceptOf.tryCatch]
  delta EStateM.tryCatch
  dsimp only
  cases x s <;> rfl

@[simp] theorem ends_get {Q : σ → σ → Prop} : Ends (get : EStateM ε σ σ) s Q E ↔ Q s s := Iff.rfl

@[simp] theorem ends_modify {f : σ → σ} {Q : Unit → σ → Prop} :
    Ends (modify f : EStateM ε σ Unit) s Q E ↔ Q () (f s) := Iff.rfl

theorem ends_ite {c : Prop} [Decidable c] {y : EStateM ε σ α} :
    Ends (if c then x else y) s Q E ↔ (c → Ends x s Q E) ∧ (¬ c → Ends y s Q E) := by
  by_cases holds : c <;> simp [holds]

/-- Sequencing: what `x` establishes is what the rest starts from. -/
theorem Ends.bind {f : α → EStateM ε σ β} {Q : β → σ → Prop} (first : Ends x s R E)
    (rest : ∀ a t, R a t → Ends (f a) t Q E) : Ends (x >>= f) s Q E :=
  ends_bind.2 (first.mono rest fun _ _ raised => raised)

/-- A check that raises unless `c` holds. -/
def require (c : Prop) [Decidable c] (e : ε) : EStateM ε σ Unit :=
  if c then pure () else throw e

@[simp] theorem ends_require {c : Prop} [Decidable c] {e : ε} {Q : Unit → σ → Prop} :
    Ends (require c e) s Q E ↔ (c → Q () s) ∧ (¬ c → E e s) := by
  rw [require, ends_ite, ends_pure, ends_throw]

@[simp] theorem ends_ofExcept {result : Except ε α} :
    Ends (MonadExcept.ofExcept result : EStateM ε σ α) s Q E ↔
      (∀ a, result = .ok a → Q a s) ∧ ∀ e, result = .error e → E e s := by
  cases result <;> simp [MonadExcept.ofExcept]

end SupportPilot.Lib
