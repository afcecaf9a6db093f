import SupportPilot.Lib.Related

/-! # Programs that may raise

Rules for code in the `Except` monad: what a successful sequence, a successful
`mapM` and a successful `foldlM` tell about their parts, and when a fold cannot
fail.  The fold rules carry a motive over the items already consumed. -/

namespace SupportPilot.Lib

variable {ε α β σ : Type}

theorem bind_eq_ok {x : Except ε α} {f : α → Except ε β} {b : β} :
    x >>= f = .ok b ↔ ∃ a, x = .ok a ∧ f a = .ok b := by
  cases x with
  | error e => simp [bind, Except.bind]
  | ok a => simp [bind, Except.bind]

theorem bind_eq_error {x : Except ε α} {f : α → Except ε β} {e : ε} :
    x >>= f = .error e ↔ x = .error e ∨ ∃ a, x = .ok a ∧ f a = .error e := by
  cases x with
  | error e' => simp [bind, Except.bind]
  | ok a => simp [bind, Except.bind]

/-- A computation that does not raise returns. -/
theorem exists_ok {x : Except ε α} (never : ∀ e, x ≠ .error e) : ∃ a, x = .ok a := by
  cases x with
  | error e => exact absurd rfl (never e)
  | ok a => exact ⟨a, rfl⟩

theorem eq_ok_of_toOption {x : Except ε α} {a : α} (some : x.toOption = some a) : x = .ok a := by
  cases x with
  | error e => cases some
  | ok b =>
    cases some
    rfl

theorem mapM_eq_ok {f : α → Except ε β} {items : List α} {results : List β} :
    items.mapM f = .ok results ↔ List.Forall₂ (fun a b => f a = .ok b) items results := by
  induction items generalizing results with
  | nil =>
    simp only [List.mapM_nil, pure, Except.pure, Except.ok.injEq, List.forall₂_nil_left_iff]
    exact eq_comm
  | cons a items ih =>
    simp only [List.mapM_cons, bind_eq_ok, ih, pure, Except.pure, Except.ok.injEq,
      List.forall₂_cons_left_iff]
    constructor
    · rintro ⟨b, first, rest, others, rfl⟩
      exact ⟨b, rest, first, others, rfl⟩
    · rintro ⟨b, rest, first, others, rfl⟩
      exact ⟨b, first, rest, others, rfl⟩

/-- Where every call succeeds, `mapM` maps. -/
theorem mapM_of_ok {f : α → Except ε β} {g : α → β} {items : List α}
    (total : ∀ a ∈ items, f a = .ok (g a)) : items.mapM f = .ok (items.map g) := by
  rw [mapM_eq_ok, List.forall₂_map_right_iff, List.forall₂_same]
  exact total

/-- `mapM` succeeds when every call does, and relates items to results as the
calls do. -/
theorem exists_mapM {f : α → Except ε β} {P : α → β → Prop} (items : List α)
    (total : ∀ a ∈ items, ∃ b, f a = .ok b ∧ P a b) :
    ∃ results, items.mapM f = .ok results ∧ List.Forall₂ P items results := by
  induction items with
  | nil => exact ⟨[], rfl, .nil⟩
  | cons a items ih =>
    obtain ⟨b, called, holds⟩ := total a List.mem_cons_self
    obtain ⟨results, mapped, related⟩ := ih fun a member => total a (.tail _ member)
    exact ⟨b :: results, mapM_eq_ok.2 (.cons called (mapM_eq_ok.1 mapped)),
      .cons holds related⟩

/-- The items of a successful `mapM` come from successful calls. -/
theorem mem_mapM {f : α → Except ε β} {items : List α} {results : List β}
    (mapped : items.mapM f = .ok results) {b : β} (member : b ∈ results) :
    ∃ a ∈ items, f a = .ok b :=
  exists_of_mem_forall₂ (mapM_eq_ok.1 mapped) member

/-- A motive over the consumed items that every successful step preserves holds
after a successful fold. -/
theorem foldlM_ok {motive : List α → σ → Prop} {f : σ → α → Except ε σ} {items : List α}
    {s t : σ} (start : motive [] s)
    (step : ∀ done a s t, done ++ [a] <+: items → motive done s → f s a = .ok t →
      motive (done ++ [a]) t)
    (folded : items.foldlM f s = .ok t) : motive items t := by
  suffices general : ∀ done rest s, done ++ rest = items → motive done s →
      rest.foldlM f s = .ok t → motive items t from general [] items s rfl start folded
  intro done rest
  induction rest generalizing done with
  | nil =>
    intro s whole holds folded
    cases folded
    simpa [← whole] using holds
  | cons a rest ih =>
    intro s whole holds folded
    rw [List.foldlM_cons, bind_eq_ok] at folded
    obtain ⟨u, first, others⟩ := folded
    have whole' : (done ++ [a]) ++ rest = items := by simpa using whole
    exact ih (done ++ [a]) u whole' (step done a s u ⟨rest, whole'⟩ holds first) others

/-- `mapM` raises what one of the calls raises. -/
theorem mapM_error {f : α → Except ε β} {items : List α} {e : ε}
    (raised : items.mapM f = .error e) : ∃ a ∈ items, f a = .error e := by
  induction items with
  | nil => simp [pure, Except.pure] at raised
  | cons a items ih =>
    rw [List.mapM_cons, bind_eq_error] at raised
    obtain first | ⟨b, -, raised⟩ := raised
    · exact ⟨a, List.mem_cons_self, first⟩
    · rw [bind_eq_error] at raised
      obtain others | ⟨results, -, raised⟩ := raised
      · obtain ⟨a', member, called⟩ := ih others
        exact ⟨a', .tail _ member, called⟩
      · simp [pure, Except.pure] at raised

/-- A fold that raises has consumed some items, and raises at the next one. -/
theorem foldlM_error {motive : List α → σ → Prop} {f : σ → α → Except ε σ} {items : List α}
    {s : σ} {e : ε} (start : motive [] s)
    (step : ∀ done a s t, done ++ [a] <+: items → motive done s → f s a = .ok t →
      motive (done ++ [a]) t)
    (raised : items.foldlM f s = .error e) :
    ∃ done a t, done ++ [a] <+: items ∧ motive done t ∧ f t a = .error e := by
  suffices general : ∀ done rest s, done ++ rest = items → motive done s →
      rest.foldlM f s = .error e → ∃ done a t, done ++ [a] <+: items ∧ motive done t ∧
        f t a = .error e from general [] items s rfl start raised
  intro done rest
  induction rest generalizing done with
  | nil =>
    intro s whole holds raised
    simp [pure, Except.pure] at raised
  | cons a rest ih =>
    intro s whole holds raised
    have whole' : (done ++ [a]) ++ rest = items := by simpa using whole
    rw [List.foldlM_cons, bind_eq_error] at raised
    obtain first | ⟨u, called, others⟩ := raised
    · exact ⟨done, a, s, ⟨rest, whole'⟩, holds, first⟩
    · exact ih (done ++ [a]) u whole' (step done a s u ⟨rest, whole'⟩ holds called) others

/-- A fold succeeds when every step does from a state that satisfies the
motive. -/
theorem foldlM_total (items : List α) {motive : List α → σ → Prop} {f : σ → α → Except ε σ}
    {s : σ} (start : motive [] s)
    (step : ∀ done a s, done ++ [a] <+: items → motive done s →
      ∃ t, f s a = .ok t ∧ motive (done ++ [a]) t) :
    ∃ t, items.foldlM f s = .ok t ∧ motive items t := by
  suffices general : ∀ done rest s, done ++ rest = items → motive done s →
      ∃ t, rest.foldlM f s = .ok t ∧ motive items t from general [] items s rfl start
  intro done rest
  induction rest generalizing done with
  | nil =>
    intro s whole holds
    exact ⟨s, rfl, by simpa [← whole] using holds⟩
  | cons a rest ih =>
    intro s whole holds
    have whole' : (done ++ [a]) ++ rest = items := by simpa using whole
    obtain ⟨u, first, holds'⟩ := step done a s ⟨rest, whole'⟩ holds
    obtain ⟨t, others, final⟩ := ih (done ++ [a]) u whole' holds'
    exact ⟨t, by rw [List.foldlM_cons, bind_eq_ok]; exact ⟨u, first, others⟩, final⟩

/-- A fold whose steps each compute a list and fold over it is one fold over
all lists. -/
theorem foldlM_foldlM_eq_ok {g : α → Except ε (List β)} {f : σ → β → Except ε σ} {items : List α}
    {s t : σ} :
    items.foldlM (fun s a => g a >>= fun list => list.foldlM f s) s = .ok t ↔
      ∃ lists, items.mapM g = .ok lists ∧ lists.flatten.foldlM f s = .ok t := by
  induction items generalizing s with
  | nil => simp [pure, Except.pure]
  | cons a items ih =>
    simp only [List.foldlM_cons, List.mapM_cons, bind_eq_ok, ih, pure, Except.pure, Except.ok.injEq]
    constructor
    · rintro ⟨u, ⟨list, called, folded⟩, lists, others, rest⟩
      refine ⟨list :: lists, ⟨list, called, lists, others, rfl⟩, ?_⟩
      rw [List.flatten_cons, List.foldlM_append, bind_eq_ok]
      exact ⟨u, folded, rest⟩
    · rintro ⟨_, ⟨list, called, lists, others, rfl⟩, folded⟩
      rw [List.flatten_cons, List.foldlM_append, bind_eq_ok] at folded
      obtain ⟨u, first, rest⟩ := folded
      exact ⟨u, ⟨list, called, first⟩, lists, others, rest⟩

end SupportPilot.Lib
