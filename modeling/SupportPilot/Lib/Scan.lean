import Mathlib.Data.List.Pairwise
import SupportPilot.Lib.Regex
import SupportPilot.Lib.Text

/-! # Scanning a text for matches

`finditer r text` reports the matches of an expression from left to right, as
Python's `re.finditer` does for an expression that does not match the empty
text.  `finditer_induction` follows the scanner: it skips a character where
nothing matches and jumps over a match where something does.

The result on which the users rely is `finditer_between`: scanning a slice that
cuts no match gives the matches of the whole text that lie in it. -/

namespace SupportPilot.Lib

/-- A match: what it reads, and the positions `start ≤ i < stop` it covers. -/
@[ext] structure Span where
  text : List Char
  start : Nat
  stop : Nat
  deriving DecidableEq, Repr

namespace Span

def shift (k : Nat) (x : Span) : Span := ⟨x.text, x.start + k, x.stop + k⟩

@[simp] theorem shift_text (k : Nat) (x : Span) : (x.shift k).text = x.text := rfl
@[simp] theorem shift_start (k : Nat) (x : Span) : (x.shift k).start = x.start + k := rfl
@[simp] theorem shift_stop (k : Nat) (x : Span) : (x.shift k).stop = x.stop + k := rfl

@[simp] theorem shift_zero : shift 0 = id := rfl

theorem shift_shift (j k : Nat) : shift j ∘ shift k = shift (k + j) := by
  funext x
  simp [shift, Nat.add_assoc]

/-- The span lies within `a ≤ i < b`. -/
def inside (a b : Nat) (x : Span) : Bool := a ≤ x.start && x.stop ≤ b

theorem inside_iff {a b : Nat} {x : Span} : x.inside a b = true ↔ a ≤ x.start ∧ x.stop ≤ b := by
  simp [inside]

theorem shift_injective (k : Nat) : Function.Injective (shift k) := by
  intro x y same
  obtain ⟨text, start, stop⟩ := Span.mk.inj same
  exact Span.ext text (by omega) (by omega)

end Span

namespace Regex

/-- Scan `text`, whose head is at position `pos`; the first `skip` characters
belong to the match reported last. -/
def scan (r : Regex) : Nat → Nat → List Char → List Span
  | _, _, [] => []
  | pos, skip + 1, _ :: rest => scan r (pos + 1) skip rest
  | pos, 0, c :: rest =>
    match matchLength r (c :: rest) with
    | some (n + 1) => ⟨(c :: rest).take (n + 1), pos, pos + (n + 1)⟩ :: scan r (pos + 1) n rest
    | _ => scan r (pos + 1) 0 rest

theorem scan_skipped (r : Regex) (pos skip : Nat) (c : Char) (rest : List Char) :
    scan r pos (skip + 1) (c :: rest) = scan r (pos + 1) skip rest := rfl

theorem scan_cons (r : Regex) (pos : Nat) (c : Char) (rest : List Char) :
    scan r pos 0 (c :: rest) =
      match matchLength r (c :: rest) with
      | some (n + 1) => ⟨(c :: rest).take (n + 1), pos, pos + (n + 1)⟩ :: scan r (pos + 1) n rest
      | _ => scan r (pos + 1) 0 rest := rfl

def finditer (r : Regex) (text : List Char) : List Span := scan r 0 0 text

/-- The text from `pos` on, with the spans replaced. -/
def replaceSpans (replacement text : List Char) : Nat → List Span → List Char
  | pos, [] => text.drop pos
  | pos, x :: rest => slice pos x.start text ++ replacement ++
      replaceSpans replacement text x.stop rest

@[simp] theorem replaceSpans_nil (replacement text : List Char) (pos : Nat) :
    replaceSpans replacement text pos [] = text.drop pos := rfl

theorem replaceSpans_cons (replacement text : List Char) (pos : Nat) (x : Span) (rest : List Span) :
    replaceSpans replacement text pos (x :: rest) =
      slice pos x.start text ++ replacement ++ replaceSpans replacement text x.stop rest := rfl

/-- `re.sub`, for an expression that does not match the empty text. -/
def sub (r : Regex) (replacement text : List Char) : List Char :=
  replaceSpans replacement text 0 (finditer r text)

/-- The text from `pos` on, cut at the spans. -/
def splitSpans (text : List Char) : Nat → List Span → List (List Char)
  | pos, [] => [text.drop pos]
  | pos, x :: rest => slice pos x.start text :: splitSpans text x.stop rest

@[simp] theorem splitSpans_nil (text : List Char) (pos : Nat) :
    splitSpans text pos [] = [text.drop pos] := rfl

theorem splitSpans_cons (text : List Char) (pos : Nat) (x : Span) (rest : List Span) :
    splitSpans text pos (x :: rest) = slice pos x.start text :: splitSpans text x.stop rest := rfl

/-- `re.split`, for an expression that has no groups and does not match the empty text. -/
def split (r : Regex) (text : List Char) : List (List Char) :=
  splitSpans text 0 (finditer r text)

variable {r : Regex} {text : List Char}

theorem scan_shift (k pos skip : Nat) :
    scan r (pos + k) skip text = (scan r pos skip text).map (Span.shift k) := by
  induction text generalizing pos skip with
  | nil => cases skip <;> rfl
  | cons c rest ih =>
    have next : ∀ skip, scan r (pos + k + 1) skip rest =
        (scan r (pos + 1) skip rest).map (Span.shift k) := by
      intro skip
      rw [← ih, Nat.add_right_comm]
    cases skip with
    | succ skip => exact next skip
    | zero =>
      simp only [scan_cons]
      split
      · simp only [List.map_cons, next, Span.shift, Nat.add_right_comm]
      · exact next 0

theorem scan_skip (pos skip : Nat) :
    scan r pos skip text = scan r (pos + skip) 0 (text.drop skip) := by
  induction skip generalizing pos text with
  | zero => rfl
  | succ skip ih =>
    cases text with
    | nil => rfl
    | cons c rest => simp only [scan_skipped, List.drop_succ_cons, ih, Nat.add_right_comm, Nat.add_assoc]

theorem scan_eq (pos skip : Nat) :
    scan r pos skip text = (finditer r (text.drop skip)).map (Span.shift (pos + skip)) := by
  rw [scan_skip, finditer, ← scan_shift, Nat.zero_add]

@[simp] theorem finditer_nil : finditer r [] = [] := rfl

theorem finditer_unmatched {c : Char} {rest : List Char}
    (unmatched : matchLength r (c :: rest) = none) :
    finditer r (c :: rest) = (finditer r rest).map (Span.shift 1) := by
  simp only [finditer, scan_cons, unmatched]
  exact scan_eq 1 0

theorem finditer_matched {n : Nat} (positive : 0 < n) (matched : matchLength r text = some n) :
    finditer r text = ⟨text.take n, 0, n⟩ :: (finditer r (text.drop n)).map (Span.shift n) := by
  obtain ⟨within, -⟩ := matchLength_eq_some matched
  obtain ⟨n, rfl⟩ := Nat.exists_eq_succ_of_ne_zero (Nat.ne_of_gt positive)
  cases text with
  | nil => simp at within
  | cons c rest =>
    -- the scanner reports the match and jumps over its other characters
    simp only [finditer, scan_cons, matched, Nat.zero_add, Nat.succ_eq_add_one, List.drop_succ_cons]
    rw [scan_eq, Nat.add_comm 1 n, finditer]

/-- Replacing works on the rest of the text as on the rest of the spans. -/
theorem replaceSpans_shift (replacement text : List Char) (k pos : Nat) (spans : List Span) :
    replaceSpans replacement text (pos + k) (spans.map (Span.shift k)) =
      replaceSpans replacement (text.drop k) pos spans := by
  induction spans generalizing pos with
  | nil => simp [Nat.add_comm]
  | cons x spans ih =>
    simp only [List.map_cons, replaceSpans_cons, Span.shift_start, Span.shift_stop, ih]
    rw [slice_eq_take_drop, slice_eq_take_drop, List.drop_drop, Nat.add_sub_add_right,
      Nat.add_comm pos k]

@[simp] theorem sub_nil (replacement : List Char) : sub r replacement [] = [] := rfl

theorem sub_unmatched {c : Char} {rest : List Char} (replacement : List Char)
    (unmatched : matchLength r (c :: rest) = none) :
    sub r replacement (c :: rest) = c :: sub r replacement rest := by
  have shifted := replaceSpans_shift replacement (c :: rest) 1 0 (finditer r rest)
  rw [sub, finditer_unmatched unmatched, sub]
  cases found : finditer r rest with
  | nil => simp
  | cons x spans =>
    rw [found] at shifted
    simp only [List.map_cons, replaceSpans_cons, Span.shift_start, Span.shift_stop,
      List.drop_succ_cons, List.drop_zero, Nat.zero_add] at shifted ⊢
    -- the text before the first match starts one character earlier
    have first : slice 0 (x.start + 1) (c :: rest) = c :: slice 0 x.start rest := by
      simp [slice]
    have later : slice 1 (x.start + 1) (c :: rest) = slice 0 x.start rest := by
      simp [slice]
    rw [later, List.append_assoc, List.append_assoc, List.append_cancel_left_eq,
      List.append_cancel_left_eq] at shifted
    rw [first, shifted]
    rfl

theorem sub_matched {n : Nat} (replacement : List Char) (positive : 0 < n)
    (matched : matchLength r text = some n) :
    sub r replacement text = replacement ++ sub r replacement (text.drop n) := by
  have shifted := replaceSpans_shift replacement text n 0 (finditer r (text.drop n))
  rw [Nat.zero_add] at shifted
  rw [sub, finditer_matched positive matched, replaceSpans_cons, shifted, sub]
  simp [slice]

theorem splitSpans_shift (text : List Char) (k pos : Nat) (spans : List Span) :
    splitSpans text (pos + k) (spans.map (Span.shift k)) = splitSpans (text.drop k) pos spans := by
  induction spans generalizing pos with
  | nil => simp [Nat.add_comm]
  | cons x spans ih =>
    simp only [List.map_cons, splitSpans_cons, Span.shift_start, Span.shift_stop, ih]
    rw [slice_eq_take_drop, slice_eq_take_drop, List.drop_drop, Nat.add_sub_add_right,
      Nat.add_comm pos k]

@[simp] theorem split_nil : split r [] = [[]] := rfl

theorem split_ne_nil : split r text ≠ [] := by
  rw [split]
  cases finditer r text <;> simp [splitSpans_cons]

theorem split_unmatched {c : Char} {rest : List Char}
    (unmatched : matchLength r (c :: rest) = none) :
    split r (c :: rest) = (split r rest).modifyHead (c :: ·) := by
  have shifted := splitSpans_shift (c :: rest) 1 0 (finditer r rest)
  rw [split, finditer_unmatched unmatched, split]
  cases found : finditer r rest with
  | nil => simp
  | cons x spans =>
    rw [found] at shifted
    -- only the piece before the first match starts at another position
    simp only [List.map_cons, splitSpans_cons, Span.shift_start, Span.shift_stop, List.drop_succ_cons,
      List.drop_zero, Nat.zero_add, List.cons.injEq] at shifted
    simp [splitSpans_cons, slice, shifted.2]

theorem split_matched {n : Nat} (positive : 0 < n) (matched : matchLength r text = some n) :
    split r text = [] :: split r (text.drop n) := by
  have shifted := splitSpans_shift text n 0 (finditer r (text.drop n))
  rw [Nat.zero_add] at shifted
  rw [split, finditer_matched positive matched, splitSpans_cons, shifted, split]
  simp [slice]

/-- Where nothing matches, nothing is cut. -/
theorem split_append {u rest : List Char}
    (unmatched : ∀ v, v <:+ u → v ≠ [] → matchLength r (v ++ rest) = none) :
    split r (u ++ rest) = (split r rest).modifyHead (u ++ ·) := by
  induction u with
  | nil =>
    rw [List.nil_append]
    cases split r rest <;> rfl
  | cons c u ih =>
    have inner := ih fun v isSuffix => unmatched v (isSuffix.trans (List.suffix_cons c u))
    have whole : matchLength r (c :: (u ++ rest)) = none :=
      unmatched (c :: u) (List.suffix_refl _) (List.cons_ne_nil _ _)
    rw [List.cons_append, split_unmatched whole, inner, List.modifyHead_modifyHead]
    rfl

/-- A run of a class matches as far as the class goes. -/
theorem matchLength_plus (p : Char → Bool) (c : Char) (rest : List Char) :
    matchLength (plus (.char p)) (c :: rest) =
      if p c then some (1 + (rest.takeWhile p).length) else none := by
  cases first : p c with
  | false => simp [matchLength, plus, run, first]
  | true =>
    have whole := List.takeWhile_append_dropWhile (p := p) (l := rest)
    have step : run (plus (.char p)) ⟨c :: rest, []⟩ = run (.star true (.char p)) ⟨rest, []⟩ := by
      simp [plus, run, first]
    have greedy : (run (.star true (.char p)) ⟨rest.takeWhile p ++ rest.dropWhile p, []⟩).head? =
        some ⟨rest.dropWhile p, []⟩ :=
      head?_run_star (fun _ => List.mem_takeWhile_imp) (stops_dropWhile p rest)
    have size := congrArg List.length whole
    simp only [List.length_append] at size
    rw [whole] at greedy
    rw [matchLength, step, greedy]
    simp only [Option.map_some, List.length_cons, if_true, Option.some.injEq]
    omega

/-- Follow the scanner: past a character where nothing matches, and past a
match. -/
theorem finditer_induction (nonEmpty : NonEmpty r) {motive : List Char → Prop}
    (nil : motive [])
    (unmatched : ∀ c rest, matchLength r (c :: rest) = none → motive rest → motive (c :: rest))
    (matched : ∀ text n, 0 < n → n ≤ text.length → matchLength r text = some n →
      motive (text.drop n) → motive text)
    (text : List Char) : motive text := by
  induction length : text.length using Nat.strong_induction_on generalizing text with
  | _ size shorter =>
    subst length
    cases found : matchLength r text with
    | none =>
      cases text with
      | nil => exact nil
      | cons c rest => exact unmatched c rest found (shorter _ (Nat.lt_succ_self _) rest rfl)
    | some n =>
      have positive := nonEmpty text n found
      have within := (matchLength_eq_some found).1
      exact matched text n positive within found
        (shorter _ (by rw [List.length_drop]; omega) (text.drop n) rfl)

/-- `re.split` only takes characters away. -/
theorem split_sublist (nonEmpty : NonEmpty r) (text : List Char) :
    (split r text).flatten.Sublist text := by
  induction text using finditer_induction nonEmpty with
  | nil => exact List.Sublist.refl []
  | unmatched c rest unmatched ih =>
    obtain ⟨first, more, shape⟩ := List.exists_cons_of_ne_nil (@split_ne_nil r rest)
    rw [split_unmatched unmatched, shape, List.modifyHead_cons, List.flatten_cons, List.cons_append]
    rw [shape, List.flatten_cons] at ih
    exact ih.cons_cons c
  | matched text n positive within matched ih =>
    rw [split_matched positive matched, List.flatten_cons, List.nil_append]
    exact ih.trans (List.drop_sublist n text)

/-- The scanner passes over a part in which nothing matches. -/
theorem finditer_skip {u rest : List Char}
    (fails : ∀ v, v ≠ [] → v <:+ u → matchLength r (v ++ rest) = none) :
    finditer r (u ++ rest) = (finditer r rest).map (Span.shift u.length) := by
  induction u with
  | nil => simp
  | cons x u ih =>
    have inner := ih fun v nonempty isSuffix =>
      fails v nonempty (isSuffix.trans (List.suffix_cons x u))
    have first := fails (x :: u) (by simp) (List.suffix_refl _)
    rw [List.cons_append] at first ⊢
    rw [finditer_unmatched first, inner, List.map_map, Span.shift_shift, List.length_cons]

/-! ## The matches of a text -/

/-- `span` names a non-empty slice of the text. -/
structure Names (text : List Char) (span : Span) : Prop where
  nonempty : span.start < span.stop
  within : span.stop ≤ text.length
  slice : span.text = slice span.start span.stop text

theorem Names.shift {k : Nat} {span : Span} (names : Names (text.drop k) span)
    (within : k ≤ text.length) : Names text (span.shift k) := by
  obtain ⟨nonempty, bound, same⟩ := names
  rw [List.length_drop] at bound
  refine ⟨Nat.add_lt_add_right nonempty k, by simp only [Span.shift_stop]; omega, ?_⟩
  rw [Span.shift_text, same]
  simp only [slice_eq_take_drop, Span.shift_start, Span.shift_stop, List.drop_drop]
  congr 1
  · omega
  · rw [Nat.add_comm]

theorem names_of_mem_finditer (nonEmpty : NonEmpty r) :
    ∀ {span}, span ∈ finditer r text → Names text span := by
  induction text using finditer_induction nonEmpty with
  | nil => simp
  | unmatched c rest found ih =>
    intro span member
    rw [finditer_unmatched found] at member
    obtain ⟨inner, present, rfl⟩ := List.mem_map.mp member
    exact Names.shift (k := 1) (ih present) (by simp)
  | matched text n positive within found ih =>
    intro span member
    rw [finditer_matched positive found] at member
    rcases List.mem_cons.mp member with rfl | later
    · exact ⟨positive, within, rfl⟩
    · obtain ⟨inner, present, rfl⟩ := List.mem_map.mp later
      exact (ih present).shift within

/-- Matches come from left to right and do not overlap. -/
theorem finditer_sorted (nonEmpty : NonEmpty r) (text : List Char) :
    (finditer r text).Pairwise fun x y => x.stop ≤ y.start := by
  have moved : ∀ {k spans}, List.Pairwise (fun x y : Span => x.stop ≤ y.start) spans →
      List.Pairwise (fun x y : Span => x.stop ≤ y.start) (spans.map (Span.shift k)) := by
    intro k spans sorted
    exact List.pairwise_map.mpr (sorted.imp fun before => Nat.add_le_add_right before k)
  induction text using finditer_induction nonEmpty with
  | nil => exact .nil
  | unmatched c rest found ih =>
    rw [finditer_unmatched found]
    exact moved ih
  | matched text n positive within found ih =>
    rw [finditer_matched positive found]
    refine List.pairwise_cons.mpr ⟨fun y member => ?_, moved ih⟩
    obtain ⟨inner, -, rfl⟩ := List.mem_map.mp member
    exact Nat.le_add_left n inner.start

theorem finditer_ordered (nonEmpty : NonEmpty r) {x y : Span} (left : x ∈ finditer r text)
    (right : y ∈ finditer r text) (differ : x ≠ y) : x.stop ≤ y.start ∨ y.stop ≤ x.start := by
  have : Std.Symm fun x y : Span => x.stop ≤ y.start ∨ y.stop ≤ x.start := ⟨fun _ _ => Or.symm⟩
  have apart : (finditer r text).Pairwise fun x y => x.stop ≤ y.start ∨ y.stop ≤ x.start :=
    (finditer_sorted nonEmpty text).imp Or.inl
  exact apart.forall left right differ

/-! ## Cutting the text between matches -/

/-- No match goes across position `k`. -/
def Boundary (r : Regex) (text : List Char) (k : Nat) : Prop :=
  ∀ x ∈ finditer r text, x.stop ≤ k ∨ k ≤ x.start

theorem boundary_of_shift {j k : Nat} {spans : List Span}
    (boundary : ∀ x ∈ spans.map (Span.shift j), x.stop ≤ j + k ∨ j + k ≤ x.start) :
    ∀ x ∈ spans, x.stop ≤ k ∨ k ≤ x.start := by
  intro x member
  have := boundary _ (List.mem_map_of_mem member)
  simp only [Span.shift_stop, Span.shift_start] at this
  omega

theorem finditer_split (isLocal : Local r) (nonEmpty : NonEmpty r) {k : Nat}
    (boundary : Boundary r text k) :
    finditer r text =
      finditer r (text.take k) ++ (finditer r (text.drop k)).map (Span.shift k) := by
  induction text using finditer_induction nonEmpty generalizing k with
  | nil => simp
  | unmatched c rest found ih =>
    cases k with
    | zero => simp
    | succ k =>
      -- the cut stays a boundary of the rest of the text
      have inner : Boundary r rest k := by
        refine boundary_of_shift (j := 1) ?_
        rw [← finditer_unmatched found, Nat.add_comm]
        exact boundary
      have cut : matchLength r (c :: rest.take k) = none :=
        matchLength_take_none isLocal (k + 1) found
      rw [finditer_unmatched found, ih inner, List.take_succ_cons, List.drop_succ_cons,
        finditer_unmatched cut, List.map_append, List.map_map, Span.shift_shift]
  | matched text n positive within found ih =>
    cases k with
    | zero => simp
    | succ k =>
      have whole := finditer_matched positive found
      -- the match does not go over the cut
      have first : n ≤ k + 1 := by
        have := boundary ⟨text.take n, 0, n⟩ (by simp [whole])
        simp only at this
        omega
      have inner : Boundary r (text.drop n) (k + 1 - n) := by
        refine boundary_of_shift (j := n) fun x member => ?_
        rw [Nat.add_sub_cancel' first]
        exact boundary x (by rw [whole]; exact .tail _ member)
      have cut := finditer_matched positive (matchLength_take isLocal found first)
      rw [whole, ih inner, cut, List.map_append, List.map_map, Span.shift_shift,
        Nat.sub_add_cancel first, List.drop_drop, Nat.add_sub_cancel' first, List.drop_take,
        List.take_take, Nat.min_eq_left first, List.cons_append]

theorem boundary_take (isLocal : Local r) (nonEmpty : NonEmpty r) {a b : Nat}
    (left : Boundary r text a) (right : Boundary r text b) : Boundary r (text.take b) a := by
  intro x member
  refine left x ?_
  rw [finditer_split isLocal nonEmpty right]
  exact List.mem_append_left _ member

/-- Scanning a slice that cuts no match. -/
theorem finditer_between (isLocal : Local r) (nonEmpty : NonEmpty r) {a b : Nat} (le : a ≤ b)
    (left : Boundary r text a) (right : Boundary r text b) :
    finditer r text = finditer r (text.take a) ++
      (finditer r (slice a b text)).map (Span.shift a) ++
      (finditer r (text.drop b)).map (Span.shift b) := by
  rw [finditer_split isLocal nonEmpty right,
    finditer_split isLocal nonEmpty (boundary_take isLocal nonEmpty left right),
    List.take_take, Nat.min_eq_left le]
  rfl

/-- The matches of a slice that cuts no match are the matches of the text that
lie in it. -/
theorem finditer_slice (isLocal : Local r) (nonEmpty : NonEmpty r) {a b : Nat} (le : a ≤ b)
    (left : Boundary r text a) (right : Boundary r text b) :
    (finditer r (slice a b text)).map (Span.shift a) = (finditer r text).filter (Span.inside a b) := by
  have before : ∀ x ∈ finditer r (text.take a), ¬ x.inside a b = true := by
    intro x member
    obtain ⟨nonempty, bound, -⟩ := names_of_mem_finditer nonEmpty member
    rw [List.length_take] at bound
    rw [Span.inside_iff]
    omega
  have after : ∀ x ∈ (finditer r (text.drop b)).map (Span.shift b), ¬ x.inside a b = true := by
    intro x member
    obtain ⟨inner, present, rfl⟩ := List.mem_map.mp member
    have := (names_of_mem_finditer nonEmpty present).nonempty
    rw [Span.inside_iff, Span.shift_stop]
    omega
  have between : ∀ x ∈ (finditer r (slice a b text)).map (Span.shift a), x.inside a b = true := by
    intro x member
    obtain ⟨inner, present, rfl⟩ := List.mem_map.mp member
    obtain ⟨nonempty, bound, -⟩ := names_of_mem_finditer nonEmpty present
    rw [length_slice] at bound
    rw [Span.inside_iff, Span.shift_start, Span.shift_stop]
    omega
  rw [finditer_between isLocal nonEmpty le left right, List.filter_append, List.filter_append,
    List.filter_eq_nil_iff.mpr before, List.filter_eq_nil_iff.mpr after, List.nil_append,
    List.append_nil, List.filter_eq_self.mpr between]

theorem boundary_start (nonEmpty : NonEmpty r) {x : Span} (member : x ∈ finditer r text) :
    Boundary r text x.start := by
  intro y present
  have := (names_of_mem_finditer nonEmpty member).nonempty
  by_cases same : y = x
  · exact .inr (by rw [same])
  · rcases finditer_ordered nonEmpty present member same with before | after
    · exact .inl before
    · exact .inr (by omega)

theorem boundary_stop (nonEmpty : NonEmpty r) {x : Span} (member : x ∈ finditer r text) :
    Boundary r text x.stop := by
  intro y present
  have := (names_of_mem_finditer nonEmpty member).nonempty
  by_cases same : y = x
  · exact .inl (by rw [same])
  · rcases finditer_ordered nonEmpty present member same with before | after
    · exact .inl (by omega)
    · exact .inr after

/-! ## Runs of consecutive matches -/

/-- Consecutive matches are the matches between the start of the first and the
end of the last. -/
theorem filter_inside_run (nonEmpty : NonEmpty r) {run : List Span}
    (consecutive : run <:+: finditer r text) (some : run ≠ []) :
    (finditer r text).filter (Span.inside (run.head some).start (run.getLast some).stop) = run := by
  obtain ⟨before, after, whole⟩ := consecutive
  have sorted := finditer_sorted nonEmpty text
  have names : ∀ {x}, x ∈ finditer r text → x.start < x.stop :=
    fun member => (names_of_mem_finditer nonEmpty member).nonempty
  rw [← whole] at sorted names ⊢
  simp only [List.pairwise_append, List.mem_append] at sorted names
  obtain ⟨⟨-, inRun, ahead⟩, -, behind⟩ := sorted
  have first := List.head_mem some
  have last := List.getLast_mem some
  -- matches before and behind the run stick out of it, since they are not empty
  have early : ∀ x ∈ before, ¬ x.inside (run.head some).start (run.getLast some).stop = true := by
    intro x member
    have := ahead x member _ first
    have := names (.inl (.inl member))
    rw [Span.inside_iff]
    omega
  have late : ∀ x ∈ after, ¬ x.inside (run.head some).start (run.getLast some).stop = true := by
    intro x member
    have := behind _ (.inr last) x member
    have := names (.inr member)
    rw [Span.inside_iff]
    omega
  have within : ∀ x ∈ run, x.inside (run.head some).start (run.getLast some).stop = true := by
    intro x member
    have positive := names (.inl (.inr member))
    have start : (run.head some).start ≤ x.start := by
      cases run with
      | nil => cases member
      | cons y rest =>
        rcases List.mem_cons.mp member with rfl | later
        · exact Nat.le_refl _
        · have := List.rel_of_pairwise_cons inRun later
          have := names (.inl (.inr List.mem_cons_self))
          simp only [List.head_cons]
          omega
    have stop : x.stop ≤ (run.getLast some).stop := by
      have split := List.dropLast_append_getLast some
      rw [← split, List.pairwise_append] at inRun
      rw [← split, List.mem_append, List.mem_singleton] at member
      rcases member with earlier | rfl
      · have := inRun.2.2 x earlier _ (List.mem_singleton_self _)
        have := names (.inl (.inr last))
        omega
      · exact Nat.le_refl _
    exact Span.inside_iff.2 ⟨start, stop⟩
  rw [List.filter_append, List.filter_append, List.filter_eq_nil_iff.mpr early,
    List.filter_eq_nil_iff.mpr late, List.filter_eq_self.mpr within, List.nil_append,
    List.append_nil]

/-- Scanning the slice that consecutive matches cover gives these matches. -/
theorem finditer_run (isLocal : Local r) (nonEmpty : NonEmpty r) {run : List Span}
    (consecutive : run <:+: finditer r text) (some : run ≠ []) :
    (finditer r (slice (run.head some).start (run.getLast some).stop text)).map
      (Span.shift (run.head some).start) = run := by
  have first := consecutive.subset (List.head_mem some)
  have last := consecutive.subset (List.getLast_mem some)
  have exact := filter_inside_run nonEmpty consecutive some
  have le : (run.head some).start ≤ (run.getLast some).stop := by
    have kept : ∀ x ∈ run, x.inside (run.head some).start (run.getLast some).stop = true := by
      intro x member
      rw [← exact] at member
      exact (List.mem_filter.mp member).2
    have inside := Span.inside_iff.1 (kept _ (List.head_mem some))
    have := (names_of_mem_finditer nonEmpty first).nonempty
    omega
  rw [finditer_slice isLocal nonEmpty le (boundary_start nonEmpty first)
    (boundary_stop nonEmpty last), exact]

/-- The matches of a slice that cuts no match are consecutive. -/
theorem slice_consecutive (isLocal : Local r) (nonEmpty : NonEmpty r) {a b : Nat} (le : a ≤ b)
    (left : Boundary r text a) (right : Boundary r text b) :
    (finditer r (slice a b text)).map (Span.shift a) <:+: finditer r text :=
  ⟨_, _, (finditer_between isLocal nonEmpty le left right).symm⟩

end Regex

end SupportPilot.Lib
