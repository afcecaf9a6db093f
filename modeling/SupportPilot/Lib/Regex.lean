import Mathlib.Data.List.Basic
import Mathlib.Data.List.TakeWhile

/-! # Backtracking regular expressions

The semantics of a backtracking matcher such as Python's `re`: `run r c` lists
every way of matching `r` at the cursor `c`, in the order in which the matcher
tries them, so that the match it reports is the head of the list.  A cursor is
the text still to be read, together with the captured groups.

`run_star` is the unrolling equation of a repetition, `consumed_of_mem_run`
says what a match consumes, and `run_truncate` that cutting text off behind a
match does not change it, for expressions that do not look ahead. -/

namespace SupportPilot.Lib

inductive Regex where
  | char (accepts : Char → Bool)
  | seq (first second : Regex)
  | alt (left right : Regex)
  | star (greedy : Bool) (body : Regex)
  | group (index : Nat) (body : Regex)
  | lookahead (body : Regex)
  | atEnd

@[ext] structure Cursor where
  rest : List Char
  groups : List (Nat × List Char)
  deriving DecidableEq

namespace Regex

/-- The results that consumed something. -/
def progress (c : Cursor) (results : List Cursor) : List Cursor :=
  results.filter fun d => d.rest.length < c.rest.length

/-- Repeat `step` as often as it makes progress, at most `fuel` times. -/
def iterate (greedy : Bool) (step : Cursor → List Cursor) : Nat → Cursor → List Cursor
  | 0, c => [c]
  | fuel + 1, c =>
    let more := (progress c (step c)).flatMap (iterate greedy step fuel)
    if greedy then more ++ [c] else c :: more

/-- All matches of the expression at a cursor, in order of preference.  `$` is
Python's without `MULTILINE`: at the end, or before a final newline. -/
def run : Regex → Cursor → List Cursor
  | .char accepts, c =>
    match c.rest with
    | [] => []
    | x :: rest => if accepts x then [{ c with rest := rest }] else []
  | .seq first second, c => (run first c).flatMap (run second)
  | .alt left right, c => run left c ++ run right c
  | .star greedy body, c => iterate greedy (run body) c.rest.length c
  | .group index body, c => (run body c).map fun d =>
      { d with groups := (index, c.rest.take (c.rest.length - d.rest.length)) :: d.groups }
  | .lookahead body, c =>
    match run body c with
    | [] => []
    | d :: _ => [{ c with groups := d.groups }]
  | .atEnd, c => if c.rest = [] ∨ c.rest = ['\n'] then [c] else []

/-! The equations of the matcher; `run_star` below is that of a repetition. -/

theorem progress_eq (c : Cursor) (results : List Cursor) :
    progress c results = results.filter fun d => d.rest.length < c.rest.length := rfl

theorem iterate_zero (greedy : Bool) (step : Cursor → List Cursor) (c : Cursor) :
    iterate greedy step 0 c = [c] := rfl

theorem iterate_succ (greedy : Bool) (step : Cursor → List Cursor) (fuel : Nat) (c : Cursor) :
    iterate greedy step (fuel + 1) c =
      if greedy then (progress c (step c)).flatMap (iterate greedy step fuel) ++ [c]
      else c :: (progress c (step c)).flatMap (iterate greedy step fuel) := rfl

theorem run_char (accepts : Char → Bool) (c : Cursor) :
    run (.char accepts) c =
      match c.rest with
      | [] => []
      | x :: rest => if accepts x then [{ c with rest := rest }] else [] := rfl

theorem run_seq (first second : Regex) (c : Cursor) :
    run (.seq first second) c = (run first c).flatMap (run second) := rfl

theorem run_alt (left right : Regex) (c : Cursor) :
    run (.alt left right) c = run left c ++ run right c := rfl

theorem run_group (index : Nat) (body : Regex) (c : Cursor) :
    run (.group index body) c = (run body c).map fun d =>
      { d with groups := (index, c.rest.take (c.rest.length - d.rest.length)) :: d.groups } := rfl

theorem run_lookahead (body : Regex) (c : Cursor) :
    run (.lookahead body) c =
      match run body c with
      | [] => []
      | d :: _ => [{ c with groups := d.groups }] := rfl

theorem run_atEnd (c : Cursor) :
    run .atEnd c = if c.rest = [] ∨ c.rest = ['\n'] then [c] else [] := rfl

def plus (body : Regex) : Regex := .seq body (.star true body)

/-- Nothing. -/
def empty : Regex := .star true (.char fun _ => false)

/-- `{0,n}`. -/
def upTo (body : Regex) : Nat → Regex
  | 0 => empty
  | n + 1 => .alt (.seq body (upTo body n)) empty

/-- The captured groups of `match`. -/
def captures (r : Regex) (text : List Char) : Option (List (Nat × List Char)) :=
  (run r ⟨text, []⟩).head?.map Cursor.groups

/-- The length of the match at the head of the text. -/
def matchLength (r : Regex) (text : List Char) : Option Nat :=
  (run r ⟨text, []⟩).head?.map fun d => text.length - d.rest.length

theorem mem_progress {c d : Cursor} {results : List Cursor} :
    d ∈ progress c results ↔ d ∈ results ∧ d.rest.length < c.rest.length := by
  simp [progress_eq]

/-- More fuel than characters changes nothing. -/
theorem iterate_fuel {greedy : Bool} {step : Cursor → List Cursor} {fuel fuel' : Nat} {c : Cursor}
    (enough : c.rest.length ≤ fuel) (enough' : c.rest.length ≤ fuel') :
    iterate greedy step fuel c = iterate greedy step fuel' c := by
  -- where no character is left, nothing makes progress
  have stuck : c.rest.length = 0 → progress c (step c) = [] := by
    intro empty
    simp [progress_eq, empty]
  induction fuel generalizing fuel' c with
  | zero =>
    cases fuel' with
    | zero => rfl
    | succ => simp [iterate_zero, iterate_succ, stuck (by omega)]
  | succ fuel ih =>
    cases fuel' with
    | zero => simp [iterate_zero, iterate_succ, stuck (by omega)]
    | succ fuel' =>
      have agree : (progress c (step c)).flatMap (iterate greedy step fuel) =
          (progress c (step c)).flatMap (iterate greedy step fuel') := by
        refine List.flatMap_congr fun d member => ?_
        have less := (mem_progress.1 member).2
        exact ih (by omega) (by omega) (by intro empty; simp [progress_eq, empty])
      simp only [iterate_succ, agree]

/-- The unrolling equation of a repetition. -/
theorem run_star (greedy : Bool) (body : Regex) (c : Cursor) :
    run (.star greedy body) c =
      if greedy then (progress c (run body c)).flatMap (run (.star greedy body)) ++ [c]
      else c :: (progress c (run body c)).flatMap (run (.star greedy body)) := by
  have unrolled : (progress c (run body c)).flatMap (run (.star greedy body)) =
      (progress c (run body c)).flatMap (iterate greedy (run body) c.rest.length) :=
    List.flatMap_congr fun d member =>
      iterate_fuel (Nat.le_refl _) (Nat.le_of_lt (mem_progress.1 member).2)
  have once : run (.star greedy body) c = iterate greedy (run body) (c.rest.length + 1) c :=
    iterate_fuel (Nat.le_refl _) (Nat.le_succ _)
  rw [once, unrolled]
  rfl

theorem mem_run_star {greedy : Bool} {body : Regex} {c d : Cursor} :
    d ∈ run (.star greedy body) c ↔
      d = c ∨ ∃ e ∈ progress c (run body c), d ∈ run (.star greedy body) e := by
  rw [run_star]
  split <;> simp [or_comm]

/-! ## What a match consumes -/

/-- Every character class of the expression lies within `p`; look-ahead reads
without consuming. -/
def Over (p : Char → Bool) : Regex → Prop
  | .char accepts => ∀ x, accepts x = true → p x = true
  | .seq first second => Over p first ∧ Over p second
  | .alt left right => Over p left ∧ Over p right
  | .star _ body => Over p body
  | .group _ body => Over p body
  | .lookahead _ => True
  | .atEnd => True

/-- A match consumes a prefix of the text, all of it within the classes of the
expression. -/
theorem consumed_of_mem_run {p : Char → Bool} {r : Regex} (inClass : Over p r) :
    ∀ {c d : Cursor}, d ∈ run r c →
      ∃ consumed, c.rest = consumed ++ d.rest ∧ ∀ x ∈ consumed, p x = true := by
  induction r with
  | char accepts =>
    intro c d member
    simp only [run_char] at member
    split at member
    · cases member
    next x rest text =>
      split at member
      next accepted =>
        rw [List.mem_singleton] at member
        subst member
        exact ⟨[x], text, by simpa using inClass x accepted⟩
      · cases member
  | seq first second ihFirst ihSecond =>
    intro c d member
    obtain ⟨e, left, right⟩ := List.mem_flatMap.mp member
    obtain ⟨u, textU, allU⟩ := ihFirst inClass.1 left
    obtain ⟨v, textV, allV⟩ := ihSecond inClass.2 right
    refine ⟨u ++ v, by rw [textU, textV, List.append_assoc], fun x inside => ?_⟩
    exact (List.mem_append.mp inside).elim (allU x) (allV x)
  | alt left right ihLeft ihRight =>
    intro c d member
    exact (List.mem_append.mp member).elim (ihLeft inClass.1) (ihRight inClass.2)
  | star greedy body ih =>
    -- induction on the text still to be read
    intro c
    induction length : c.rest.length using Nat.strong_induction_on generalizing c with
    | _ n shorter =>
      subst length
      intro d member
      rcases mem_run_star.1 member with rfl | ⟨e, inside, rest⟩
      · exact ⟨[], rfl, by simp⟩
      · obtain ⟨found, less⟩ := mem_progress.1 inside
        obtain ⟨u, textU, allU⟩ := ih inClass found
        obtain ⟨v, textV, allV⟩ := shorter _ less rfl rest
        refine ⟨u ++ v, by rw [textU, textV, List.append_assoc], fun x inside => ?_⟩
        exact (List.mem_append.mp inside).elim (allU x) (allV x)
  | group index body ih =>
    intro c d member
    obtain ⟨e, found, rfl⟩ := List.mem_map.mp member
    have consumed := ih inClass found
    exact consumed
  | lookahead body _ =>
    intro c d member
    simp only [run_lookahead] at member
    split at member
    · cases member
    · rw [List.mem_singleton] at member
      subst member
      exact ⟨[], rfl, by simp⟩
  | atEnd =>
    intro c d member
    simp only [run_atEnd] at member
    split at member
    · rw [List.mem_singleton] at member
      subst member
      exact ⟨[], rfl, by simp⟩
    · cases member

theorem over_any (r : Regex) : Over (fun _ => true) r := by
  induction r with
  | char => exact fun _ _ => rfl
  | seq _ _ left right => exact ⟨left, right⟩
  | alt _ _ left right => exact ⟨left, right⟩
  | star _ _ body | group _ _ body => exact body
  | lookahead | atEnd => trivial

theorem length_le_of_mem_run {r : Regex} {c d : Cursor} (member : d ∈ run r c) :
    d.rest.length ≤ c.rest.length := by
  obtain ⟨consumed, text, -⟩ := consumed_of_mem_run (over_any r) member
  simp [text]

/-- Every match of the expression reads at least one character. -/
def Consumes : Regex → Prop
  | .char _ => True
  | .seq first second => Consumes first ∨ Consumes second
  | .alt left right => Consumes left ∧ Consumes right
  | .star _ _ => False
  | .group _ body => Consumes body
  | .lookahead _ => False
  | .atEnd => False

theorem length_lt_of_mem_run {r : Regex} (consumes : Consumes r) :
    ∀ {c d : Cursor}, d ∈ run r c → d.rest.length < c.rest.length := by
  induction r with
  | char accepts =>
    intro c d member
    simp only [run_char] at member
    split at member
    · cases member
    next x rest text =>
      split at member
      · rw [List.mem_singleton] at member
        simp [member, text]
      · cases member
  | seq first second ihFirst ihSecond =>
    intro c d member
    obtain ⟨e, left, right⟩ := List.mem_flatMap.mp member
    have := length_le_of_mem_run left
    have := length_le_of_mem_run right
    -- one of the two reads a character, and the other one gives none back
    rcases consumes with reads | reads
    · have := ihFirst reads left
      omega
    · have := ihSecond reads right
      omega
  | alt left right ihLeft ihRight =>
    intro c d member
    exact (List.mem_append.mp member).elim (ihLeft consumes.1) (ihRight consumes.2)
  | group index body ih =>
    intro c d member
    obtain ⟨e, found, rfl⟩ := List.mem_map.mp member
    have reads := ih consumes found
    exact reads
  | star | lookahead | atEnd => cases consumes

/-! ## Greedy runs of a character class -/

section Greedy

variable {p : Char → Bool} {after : Regex} {groups : List (Nat × List Char)}

theorem run_star_char_cons {x : Char} (accepted : p x = true) (rest : List Char) :
    run (.star true (.char p)) ⟨x :: rest, groups⟩ =
      run (.star true (.char p)) ⟨rest, groups⟩ ++ [⟨x :: rest, groups⟩] := by
  rw [run_star]
  simp [run_char, accepted, progress_eq]

theorem run_star_char_end {rest : List Char} (stops : ∀ x ∈ rest.head?, p x = false) :
    run (.star true (.char p)) ⟨rest, groups⟩ = [⟨rest, groups⟩] := by
  rw [run_star]
  cases rest with
  | nil => simp [run_char, progress_eq]
  | cons x rest => simp [run_char, progress_eq, stops x rfl]

/-- The longest run of the class is tried first. -/
theorem head_greedy {u rest : List Char} (all : ∀ x ∈ u, p x = true)
    (stops : ∀ x ∈ rest.head?, p x = false) {d : Cursor}
    (head : (run after ⟨rest, groups⟩).head? = some d) :
    (run (.seq (.star true (.char p)) after) ⟨u ++ rest, groups⟩).head? = some d := by
  induction u with
  | nil => simpa [run_seq, run_star_char_end stops] using head
  | cons x u ih =>
    have inner := ih fun y member => all y (.tail _ member)
    rw [run_seq] at inner ⊢
    rw [List.cons_append, run_star_char_cons (all x List.mem_cons_self), List.flatMap_append,
      List.head?_append, inner, Option.some_or]

/-- No match, if what follows the run matches behind no part of it. -/
theorem greedy_eq_nil {u rest : List Char} (all : ∀ x ∈ u, p x = true)
    (stops : ∀ x ∈ rest.head?, p x = false)
    (fails : ∀ v, v <:+ u → run after ⟨v ++ rest, groups⟩ = []) :
    run (.seq (.star true (.char p)) after) ⟨u ++ rest, groups⟩ = [] := by
  induction u with
  | nil => simpa [run_seq, run_star_char_end stops] using fails [] (List.suffix_refl _)
  | cons x u ih =>
    have inner := ih (fun y member => all y (.tail _ member))
      fun v isSuffix => fails v (isSuffix.trans (List.suffix_cons x u))
    have whole := fails (x :: u) (List.suffix_refl _)
    rw [run_seq] at inner ⊢
    rw [List.cons_append, run_star_char_cons (all x List.mem_cons_self), List.flatMap_append, inner]
    simpa using whole

theorem run_seq_char {x : Char} (accepted : p x = true) (rest : List Char) :
    run (.seq (.char p) after) ⟨x :: rest, groups⟩ = run after ⟨rest, groups⟩ := by
  simp [run_seq, run_char, accepted]

theorem run_plus_char {x : Char} (accepted : p x = true) (rest : List Char) :
    run (.seq (plus (.char p)) after) ⟨x :: rest, groups⟩ =
      run (.seq (.star true (.char p)) after) ⟨rest, groups⟩ := by
  simp [run_seq, run_char, plus, accepted]

theorem run_plus_char_end {rest : List Char} (stops : ∀ x ∈ rest.head?, p x = false) :
    run (.seq (plus (.char p)) after) ⟨rest, groups⟩ = [] := by
  cases rest with
  | nil => simp [run_seq, run_char, plus]
  | cons x rest => simp [run_seq, run_char, plus, stops x rfl]

theorem run_empty (c : Cursor) : run empty c = [c] := by
  rw [empty, run_star]
  cases rest : c.rest <;> simp [run_char, rest, progress_eq]

/-- A repetition of the class, before what does not start with it. -/
theorem flatMap_greedy {β : Type*} {f : Cursor → List β} {u rest : List Char}
    (all : ∀ x ∈ u, p x = true) (stops : ∀ x ∈ rest.head?, p x = false)
    (fails : ∀ x text, p x = true → f ⟨x :: text, groups⟩ = []) :
    (run (.star true (.char p)) ⟨u ++ rest, groups⟩).flatMap f = f ⟨rest, groups⟩ := by
  induction u with
  | nil => simp [run_star_char_end stops]
  | cons x u ih =>
    have inner := ih fun y member => all y (.tail _ member)
    have accepted := all x List.mem_cons_self
    rw [List.cons_append, run_star_char_cons accepted, List.flatMap_append, inner]
    simp [fails x _ accepted]

theorem flatMap_upTo {β : Type*} {f : Cursor → List β} {n : Nat} {u rest : List Char}
    (all : ∀ x ∈ u, p x = true) (stops : ∀ x ∈ rest.head?, p x = false)
    (fails : ∀ x text, p x = true → f ⟨x :: text, groups⟩ = []) :
    (run (upTo (.char p) n) ⟨u ++ rest, groups⟩).flatMap f =
      if u.length ≤ n then f ⟨rest, groups⟩ else [] := by
  induction n generalizing u with
  | zero =>
    rw [upTo, run_empty]
    cases u with
    | nil => simp
    | cons x u => simp [fails x _ (all x List.mem_cons_self)]
  | succ n ih =>
    rw [upTo, run_alt, run_empty, List.flatMap_append]
    cases u with
    | nil =>
      have none : run (.seq (.char p) (upTo (.char p) n)) ⟨rest, groups⟩ = [] := by
        cases rest with
        | nil => rfl
        | cons x rest => simp [run_seq, run_char, stops x rfl]
      simp [none]
    | cons x u =>
      have accepted := all x List.mem_cons_self
      have inner := ih fun y member => all y (.tail _ member)
      have step : run (.seq (.char p) (upTo (.char p) n)) ⟨x :: (u ++ rest), groups⟩ =
          run (upTo (.char p) n) ⟨u ++ rest, groups⟩ := by simp [run_seq, run_char, accepted]
      rw [List.cons_append, step, inner]
      simp [fails x _ accepted]

theorem head?_run_star {u rest : List Char} (all : ∀ x ∈ u, p x = true)
    (stops : ∀ x ∈ rest.head?, p x = false) :
    (run (.star true (.char p)) ⟨u ++ rest, groups⟩).head? = some ⟨rest, groups⟩ := by
  induction u with
  | nil => simp [run_star_char_end stops]
  | cons x u ih =>
    have inner := ih fun y member => all y (.tail _ member)
    rw [List.cons_append, run_star_char_cons (all x List.mem_cons_self), List.head?_append, inner,
      Option.some_or]

/-- A greedy repetition gives back what it has to. -/
theorem head?_backtrack {u v rest : List Char} {x : Char} {d : Cursor}
    (all : ∀ y ∈ u, p y = true) (accepted : p x = true) (all' : ∀ y ∈ v, p y = true)
    (stops : ∀ y ∈ rest.head?, p y = false)
    (fails : ∀ w, w <:+ v → run after ⟨w ++ rest, groups⟩ = [])
    (head : (run after ⟨x :: (v ++ rest), groups⟩).head? = some d) :
    (run (.seq (.star true (.char p)) after) ⟨u ++ x :: (v ++ rest), groups⟩).head? = some d := by
  induction u with
  | nil =>
    have behind := greedy_eq_nil all' stops fails
    rw [run_seq] at behind ⊢
    rw [List.nil_append, run_star_char_cons accepted, List.flatMap_append, behind]
    simpa using head
  | cons y u ih =>
    have inner := ih fun z member => all z (.tail _ member)
    rw [run_seq] at inner ⊢
    rw [List.cons_append, run_star_char_cons (all y List.mem_cons_self), List.flatMap_append,
      List.head?_append, inner, Option.some_or]

/-- A lazy repetition takes the least behind which the rest matches. -/
theorem head?_lazy {β : Type*} {f : Cursor → List β} {u rest : List Char}
    (all : ∀ x ∈ u, p x = true)
    (fails : ∀ v, v <:+ u → v ≠ [] → f ⟨v ++ rest, groups⟩ = [])
    (succeeds : f ⟨rest, groups⟩ ≠ []) :
    ((run (.star false (.char p)) ⟨u ++ rest, groups⟩).flatMap f).head? =
      (f ⟨rest, groups⟩).head? := by
  induction u with
  | nil =>
    obtain ⟨b, more, shape⟩ := List.exists_cons_of_ne_nil succeeds
    rw [List.nil_append, run_star, if_neg (by decide), List.flatMap_cons, shape]
    rfl
  | cons x u ih =>
    have inner := ih (fun y member => all y (.tail _ member))
      fun v isSuffix => fails v (isSuffix.trans (List.suffix_cons x u))
    have whole := fails (x :: u) (List.suffix_refl _) (List.cons_ne_nil _ _)
    have step : progress ⟨x :: (u ++ rest), groups⟩ (run (.char p) ⟨x :: (u ++ rest), groups⟩) =
        [⟨u ++ rest, groups⟩] := by
      simp [run_char, all x List.mem_cons_self, progress_eq]
    rw [List.cons_append, run_star, if_neg (by decide), step, List.flatMap_cons,
      ← List.cons_append, whole]
    simpa using inner

/-- What a repetition of a class can leave. -/
theorem mem_run_star_char {greedy : Bool} {text : List Char} {d : Cursor} :
    d ∈ run (.star greedy (.char p)) ⟨text, groups⟩ ↔
      ∃ u rest, text = u ++ rest ∧ (∀ x ∈ u, p x = true) ∧ d = ⟨rest, groups⟩ := by
  induction text with
  | nil =>
    rw [mem_run_star]
    simp [run_char, progress_eq]
  | cons x text ih =>
    rw [mem_run_star]
    cases accepted : p x with
    | false =>
      simp only [run_char, accepted, progress_eq, Bool.false_eq_true, if_false, List.filter_nil,
        List.not_mem_nil, false_and, exists_false, or_false]
      constructor
      · intro same
        exact ⟨[], x :: text, rfl, by simp, same⟩
      · -- the repetition cannot go past a character outside the class
        intro found
        obtain ⟨u, rest, shape, all, rfl⟩ := found
        cases u with
        | nil => rw [shape, List.nil_append]
        | cons y u =>
          have same := (List.cons.inj shape).1
          rw [same, all y List.mem_cons_self] at accepted
          cases accepted
    | true =>
      have step : progress ⟨x :: text, groups⟩ (run (.char p) ⟨x :: text, groups⟩) =
          [⟨text, groups⟩] := by simp [run_char, accepted, progress_eq]
      rw [step]
      simp only [List.mem_singleton, exists_eq_left, ih]
      constructor
      · intro found
        obtain rfl | ⟨u, rest, rfl, all, rfl⟩ := found
        · exact ⟨[], x :: text, rfl, by simp, rfl⟩
        · exact ⟨x :: u, rest, rfl, by simpa [accepted] using all, rfl⟩
      · intro found
        obtain ⟨u, rest, shape, all, rfl⟩ := found
        cases u with
        | nil => exact .inl (by rw [shape, List.nil_append])
        | cons y u =>
          exact .inr ⟨u, rest, (List.cons.inj shape).2, fun z member => all z (.tail _ member), rfl⟩

theorem mem_run_seq_star {greedy : Bool} {text : List Char} {d : Cursor} :
    d ∈ run (.seq (.star greedy (.char p)) after) ⟨text, groups⟩ ↔
      ∃ u rest, text = u ++ rest ∧ (∀ x ∈ u, p x = true) ∧ d ∈ run after ⟨rest, groups⟩ := by
  rw [run_seq, List.mem_flatMap]
  constructor
  · intro found
    obtain ⟨e, left, behind⟩ := found
    obtain ⟨u, rest, shape, all, rfl⟩ := mem_run_star_char.1 left
    exact ⟨u, rest, shape, all, behind⟩
  · intro found
    obtain ⟨u, rest, shape, all, behind⟩ := found
    exact ⟨_, mem_run_star_char.2 ⟨u, rest, shape, all, rfl⟩, behind⟩

end Greedy

/-! ## Cutting off the text behind a match -/

/-- No look-ahead and no anchor. -/
def Local : Regex → Prop
  | .char _ => True
  | .seq first second => Local first ∧ Local second
  | .alt left right => Local left ∧ Local right
  | .star _ body => Local body
  | .group _ body => Local body
  | .lookahead _ => False
  | .atEnd => False

/-- `Truncates t full cut`: `cut` is `full` with `t` taken off the end of every
remaining text, and without the results that had read into `t`. -/
inductive Truncates (t : List Char) : List Cursor → List Cursor → Prop
  | nil : Truncates t [] []
  | keep {u groups full cut} : Truncates t full cut →
      Truncates t (⟨u ++ t, groups⟩ :: full) (⟨u, groups⟩ :: cut)
  | drop {d full cut} : d.rest.length < t.length → Truncates t full cut →
      Truncates t (d :: full) cut

namespace Truncates

variable {t : List Char} {full cut full' cut' : List Cursor}

theorem append (first : Truncates t full cut) (second : Truncates t full' cut') :
    Truncates t (full ++ full') (cut ++ cut') := by
  induction first with
  | nil => exact second
  | keep _ ih => exact .keep ih
  | drop short _ ih => exact .drop short ih

theorem of_short (short : ∀ d ∈ full, d.rest.length < t.length) : Truncates t full [] := by
  induction full with
  | nil => exact .nil
  | cons d full ih =>
    exact .drop (short d List.mem_cons_self) (ih fun e member => short e (.tail _ member))

theorem flatMap {f : Cursor → List Cursor} (truncates : Truncates t full cut)
    (kept : ∀ u groups, (⟨u, groups⟩ : Cursor) ∈ cut → Truncates t (f ⟨u ++ t, groups⟩) (f ⟨u, groups⟩))
    (short : ∀ d, d.rest.length < t.length → ∀ e ∈ f d, e.rest.length < t.length) :
    Truncates t (full.flatMap f) (cut.flatMap f) := by
  induction truncates with
  | nil => exact .nil
  | keep _ ih =>
    rw [List.flatMap_cons, List.flatMap_cons]
    exact (kept _ _ List.mem_cons_self).append
      (ih fun u groups member => kept u groups (.tail _ member))
  | drop isShort _ ih =>
    rw [List.flatMap_cons, ← List.nil_append (List.flatMap f _)]
    exact (of_short (short _ isShort)).append (ih kept)

theorem progress (s : List Char) (groups : List (Nat × List Char))
    (truncates : Truncates t full cut) :
    Truncates t (progress ⟨s ++ t, groups⟩ full) (progress ⟨s, groups⟩ cut) := by
  induction truncates with
  | nil => exact .nil
  | @keep u groups' full cut _ ih =>
    simp only [progress_eq, List.filter_cons, List.length_append] at ih ⊢
    by_cases less : u.length < s.length
    · simpa [less] using Truncates.keep ih
    · simpa [less] using ih
  | @drop d full cut isShort _ ih =>
    simp only [progress_eq, List.filter_cons, List.length_append] at ih ⊢
    split
    · exact .drop isShort ih
    · exact ih

theorem map_group {index : Nat} {s : List Char} (truncates : Truncates t full cut)
    (within : ∀ d ∈ cut, d.rest.length ≤ s.length) :
    Truncates t
      (full.map fun d => ⟨d.rest, (index, (s ++ t).take ((s ++ t).length - d.rest.length)) :: d.groups⟩)
      (cut.map fun d => ⟨d.rest, (index, s.take (s.length - d.rest.length)) :: d.groups⟩) := by
  induction truncates with
  | nil => exact .nil
  | @keep u groups' full cut _ ih =>
    have same : (s ++ t).take ((s ++ t).length - (u ++ t).length) = s.take (s.length - u.length) := by
      rw [List.length_append, List.length_append, Nat.add_sub_add_right, List.take_append_of_le_length]
      omega
    simp only [List.map_cons, same]
    exact .keep (ih fun d member => within d (.tail _ member))
  | drop isShort _ ih => exact .drop isShort (ih within)

end Truncates

/-- Cutting text off behind the matches leaves the matches of the rest, in the
same order. -/
theorem run_truncate {r : Regex} (isLocal : Local r) (s t : List Char)
    (groups : List (Nat × List Char)) :
    Truncates t (run r ⟨s ++ t, groups⟩) (run r ⟨s, groups⟩) := by
  have short : ∀ (r : Regex) d, d.rest.length < t.length → ∀ e ∈ run r d,
      e.rest.length < t.length :=
    fun r d isShort e member => Nat.lt_of_le_of_lt (length_le_of_mem_run member) isShort
  induction r generalizing s groups with
  | char accepts =>
    cases s with
    | nil =>
      refine Truncates.of_short fun d member => ?_
      cases t with
      | nil => cases member
      | cons x t =>
        simp only [run_char, List.nil_append] at member
        split at member
        · rw [List.mem_singleton] at member
          simp [member]
        · cases member
    | cons x s =>
      simp only [run_char, List.cons_append]
      split
      · exact .keep .nil
      · exact .nil
  | seq first second ihFirst ihSecond =>
    exact (ihFirst isLocal.1 s groups).flatMap
      (fun u groups' _ => ihSecond isLocal.2 u groups') (short second)
  | alt left right ihLeft ihRight =>
    exact (ihLeft isLocal.1 s groups).append (ihRight isLocal.2 s groups)
  | star greedy body ih =>
    -- induction on the text still to be read
    induction length : s.length using Nat.strong_induction_on generalizing s groups with
    | _ n shorter =>
      subst length
      have more := ((ih isLocal s groups).progress s groups).flatMap
        (f := run (.star greedy body))
        (fun u groups' member => shorter _ (mem_progress.1 member).2 u groups' rfl)
        (short (.star greedy body))
      rw [run_star, run_star]
      split
      · exact more.append (.keep .nil)
      · exact .keep more
  | group index body ih =>
    exact (ih isLocal s groups).map_group fun d member => length_le_of_mem_run member
  | lookahead | atEnd => cases isLocal

theorem Truncates.head {t u : List Char} {groups : List (Nat × List Char)}
    {full cut : List Cursor} (truncates : Truncates t full cut)
    (head : full.head? = some ⟨u ++ t, groups⟩) : cut.head? = some ⟨u, groups⟩ := by
  cases truncates with
  | nil => cases head
  | keep =>
    simp only [List.head?_cons, Option.some.injEq, Cursor.mk.injEq] at head
    simp [List.append_cancel_right head.1, head.2]
  | drop isShort =>
    simp only [List.head?_cons, Option.some.injEq] at head
    simp only [head, List.length_append] at isShort
    omega

/-! ## The first match -/

theorem matchLength_eq_some {r : Regex} {text : List Char} {n : Nat}
    (matched : matchLength r text = some n) :
    n ≤ text.length ∧ ∃ groups, (run r ⟨text, []⟩).head? = some ⟨text.drop n, groups⟩ := by
  obtain ⟨d, head, rfl⟩ := Option.map_eq_some_iff.mp matched
  obtain ⟨consumed, whole, -⟩ := consumed_of_mem_run (over_any r) (List.mem_of_head? head)
  refine ⟨Nat.sub_le _ _, d.groups, ?_⟩
  have length : text.length - d.rest.length = consumed.length := by
    dsimp only at whole
    simp [whole]
  rw [head, length]
  dsimp only at whole
  simp [whole]

theorem matchLength_eq_none {r : Regex} {text : List Char} :
    matchLength r text = none ↔ run r ⟨text, []⟩ = [] := by
  simp [matchLength]

theorem matchLength_of_head {r : Regex} {text : List Char} {n : Nat}
    (groups : List (Nat × List Char)) (within : n ≤ text.length)
    (head : (run r ⟨text, []⟩).head? = some ⟨text.drop n, groups⟩) :
    matchLength r text = some n := by
  simp only [matchLength, head, Option.map_some, List.length_drop, Option.some.injEq]
  omega

/-- The expression does not match the empty text. -/
def NonEmpty (r : Regex) : Prop :=
  ∀ text n, matchLength r text = some n → 0 < n

theorem nonEmpty_of_consumes {r : Regex} (consumes : Consumes r) : NonEmpty r := by
  intro text n matched
  obtain ⟨within, groups, head⟩ := matchLength_eq_some matched
  have less := length_lt_of_mem_run consumes (List.mem_of_head? head)
  simp only [List.length_drop] at less
  omega

theorem matchLength_alt (left right : Regex) (text : List Char) :
    matchLength (.alt left right) text = (matchLength left text).or (matchLength right text) := by
  simp only [matchLength, run_alt, List.head?_append]
  cases (run left ⟨text, []⟩).head? <;> rfl

theorem matchLength_char (accepts : Char → Bool) (c : Char) (rest : List Char) :
    matchLength (.char accepts) (c :: rest) = if accepts c then some 1 else none := by
  simp only [matchLength, run_char]
  split <;> simp

/-- The characters of a match lie in the classes of the expression. -/
theorem over_of_matchLength {p : Char → Bool} {r : Regex} (inClass : Over p r) {text : List Char}
    {n : Nat} (matched : matchLength r text = some n) : ∀ x ∈ text.take n, p x = true := by
  obtain ⟨within, groups, head⟩ := matchLength_eq_some matched
  obtain ⟨consumed, whole, all⟩ := consumed_of_mem_run inClass (List.mem_of_head? head)
  dsimp only at whole
  have same : text.take n = consumed := by
    have split := List.take_append_drop n text
    exact List.append_cancel_right (split.trans whole)
  rwa [same]

/-- Cutting text off behind the first match does not change it. -/
theorem matchLength_take {r : Regex} (isLocal : Local r) {text : List Char} {n k : Nat}
    (matched : matchLength r text = some n) (within : n ≤ k) :
    matchLength r (text.take k) = some n := by
  obtain ⟨bound, groups, head⟩ := matchLength_eq_some matched
  have truncates := run_truncate isLocal (text.take k) (text.drop k) []
  rw [List.take_append_drop] at truncates
  have rest : text.drop n = (text.take k).drop n ++ text.drop k := by
    have split := congrArg (List.drop n) (List.take_append_drop k text)
    by_cases short : k ≤ text.length
    · rw [← split, List.drop_append_of_le_length (by simp; omega)]
    · rw [List.take_of_length_le (by omega), List.drop_eq_nil_of_le (by omega : text.length ≤ k),
        List.append_nil]
  refine matchLength_of_head groups (by simp; omega) (truncates.head (rest ▸ head))

theorem matchLength_take_none {r : Regex} (isLocal : Local r) {text : List Char} (k : Nat)
    (unmatched : matchLength r text = none) : matchLength r (text.take k) = none := by
  have truncates := run_truncate isLocal (text.take k) (text.drop k) []
  rw [List.take_append_drop, matchLength_eq_none.1 unmatched] at truncates
  rw [matchLength_eq_none]
  generalize run r ⟨text.take k, []⟩ = cut at truncates
  cases truncates
  rfl

end Regex

end SupportPilot.Lib
