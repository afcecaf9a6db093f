import SupportPilot.Domain
import SupportPilot.Lib.Scan

/-! # The chunk tokenizer

`packages/rag/tokenizer.py`.  Tokens are words, with apostrophes inside them,
and single characters that are neither word characters nor whitespace. -/

namespace SupportPilot.Rag

open Lib Lib.Regex

/-- `['\u2019]`. -/
def isApostrophe (c : Char) : Bool := c = '\'' || c.toNat = 0x2019

theorem isSpace_of_isApostrophe {c : Char} (apostrophe : isApostrophe c = true) :
    isSpace c = false := by
  simp only [isApostrophe, Bool.or_eq_true, decide_eq_true_eq] at apostrophe
  rcases apostrophe with rfl | code
  · rfl
  · simp [isSpace, code]

variable [WordChars]

/-- `\w+(?:['\u2019]\w+)*`. -/
def wordPattern : Regex :=
  .seq (plus (.char isWord)) (.star true (.seq (.char isApostrophe) (plus (.char isWord))))

/-- `[^\w\s]`. -/
def symbolPattern : Regex := .char fun c => !isWord c && !isSpace c

/-- `_TOKEN_PATTERN`. -/
def tokenPattern : Regex := .alt wordPattern symbolPattern

abbrev TokenSpan := Span

namespace ChunkTokenizer

def spans (text : Text) : List TokenSpan := finditer tokenPattern text

def count (text : Text) : Nat := (spans text).length

end ChunkTokenizer

open ChunkTokenizer

/-! ## The pattern -/

theorem tokenPattern_local : Local tokenPattern := by
  simp [tokenPattern, wordPattern, symbolPattern, plus, Local]

theorem tokenPattern_nonEmpty : NonEmpty tokenPattern :=
  nonEmpty_of_consumes (by simp [tokenPattern, wordPattern, symbolPattern, plus, Consumes])

theorem wordPattern_none {c : Char} {rest : Text} :
    matchLength wordPattern (c :: rest) = none ↔ isWord c = false := by
  rw [matchLength_eq_none]
  cases word : isWord c with
  | false => simp [wordPattern, plus, run, word]
  | true =>
    have read : (⟨rest, []⟩ : Cursor) ∈ run (.char isWord) ⟨c :: rest, []⟩ := by
      simp [run, word]
    have matched : (⟨rest, []⟩ : Cursor) ∈ run wordPattern ⟨c :: rest, []⟩ :=
      List.mem_flatMap.mpr ⟨_, List.mem_flatMap.mpr ⟨_, read, mem_run_star.2 (.inl rfl)⟩,
        mem_run_star.2 (.inl rfl)⟩
    simp [List.ne_nil_of_mem matched]

/-- Tokens start at every character that is not whitespace, unless one has
started before it. -/
theorem tokenPattern_none {c : Char} {rest : Text} :
    matchLength tokenPattern (c :: rest) = none ↔ isSpace c = true := by
  simp only [tokenPattern, symbolPattern, matchLength_alt, matchLength_char, Option.or_eq_none_iff,
    wordPattern_none]
  have := WordChars.not_space c
  cases word : isWord c <;> cases space : isSpace c <;> simp_all

/-- A token is a run of word characters and apostrophes, or one other character
that is not whitespace. -/
theorem token_cases {text : Text} {n : Nat} (matched : matchLength tokenPattern text = some n) :
    (∀ c ∈ text.take n, isWord c = true ∨ isApostrophe c = true) ∨
      n = 1 ∧ ∀ c ∈ text.take n, isSpace c = false := by
  rw [tokenPattern, matchLength_alt, Option.or_eq_some_iff] at matched
  rcases matched with word | ⟨-, symbol⟩
  · left
    have inClass : Over (fun c => isWord c || isApostrophe c) wordPattern := by
      simp +contextual [wordPattern, plus, Over]
    simpa using over_of_matchLength inClass word
  · right
    have inClass : Over (fun c => !isSpace c) symbolPattern := by
      simp [symbolPattern, Over]
    refine ⟨?_, by simpa using over_of_matchLength inClass symbol⟩
    cases text with
    | nil => simp [symbolPattern, matchLength, run] at symbol
    | cons c rest =>
      rw [symbolPattern, matchLength_char] at symbol
      split at symbol
      · exact (Option.some.inj symbol).symm
      · cases symbol

/-! ## The tokens of a text -/

variable {text : Text} {token : TokenSpan}

theorem names_token (member : token ∈ spans text) : Names text token :=
  names_of_mem_finditer tokenPattern_nonEmpty member

/-- Every character that is not whitespace lies in a token. -/
theorem exists_token {i : Nat} {c : Char} (read : text[i]? = some c) (visible : isSpace c = false) :
    ∃ token ∈ spans text, token.start ≤ i ∧ i < token.stop := by
  unfold spans
  induction text using finditer_induction tokenPattern_nonEmpty generalizing i with
  | nil => simp at read
  | unmatched d rest found ih =>
    cases i with
    | zero =>
      cases read
      rw [tokenPattern_none.1 found] at visible
      cases visible
    | succ i =>
      obtain ⟨token, member, start, stop⟩ := ih read
      rw [finditer_unmatched found]
      exact ⟨_, List.mem_map_of_mem member, Nat.succ_le_succ start, Nat.succ_lt_succ stop⟩
  | matched text n positive within found ih =>
    rw [finditer_matched positive found]
    by_cases first : i < n
    · exact ⟨_, List.mem_cons_self, Nat.zero_le i, first⟩
    · rw [← Nat.add_sub_cancel' (Nat.le_of_not_lt first), ← List.getElem?_drop] at read
      obtain ⟨token, member, start, stop⟩ := ih read
      refine ⟨_, .tail _ (List.mem_map_of_mem member), ?_, ?_⟩ <;>
        simp only [Span.shift_start, Span.shift_stop] <;> omega

theorem spans_ne_nil {c : Char} (member : c ∈ text) (visible : isSpace c = false) :
    spans text ≠ [] := by
  obtain ⟨i, read⟩ := List.mem_iff_getElem?.mp member
  obtain ⟨token, present, -⟩ := exists_token read visible
  exact List.ne_nil_of_mem present

/-- Tokens contain no whitespace. -/
theorem token_visible (member : token ∈ spans text) : ∀ c ∈ token.text, isSpace c = false := by
  unfold spans at member
  induction text using finditer_induction tokenPattern_nonEmpty generalizing token with
  | nil => simp at member
  | unmatched d rest found ih =>
    rw [finditer_unmatched found] at member
    obtain ⟨inner, present, rfl⟩ := List.mem_map.mp member
    have visible := ih present
    exact visible
  | matched text n positive within found ih =>
    rw [finditer_matched positive found] at member
    rcases List.mem_cons.mp member with rfl | later
    · rcases token_cases found with word | ⟨-, symbol⟩
      · intro c inside
        rcases word c inside with isWord | isApostrophe
        · exact WordChars.not_space c isWord
        · exact isSpace_of_isApostrophe isApostrophe
      · exact symbol
    · obtain ⟨inner, present, rfl⟩ := List.mem_map.mp later
      have visible := ih present
      exact visible

theorem spans_blank (blank : ∀ c ∈ text, isSpace c = true) : spans text = [] := by
  refine List.eq_nil_iff_forall_not_mem.mpr fun token member => ?_
  obtain ⟨nonempty, within, same⟩ := names_token member
  have visible := token_visible member
  rw [same] at visible
  have some : slice token.start token.stop text ≠ [] := by
    rw [← List.length_pos_iff, length_slice]
    omega
  have head := List.head_mem some
  have space := blank _ ((isInfix_slice _ _ _).subset head)
  rw [visible _ head] at space
  cases space

/-- A character that is neither a word character nor an apostrophe is a token of
its own. -/
theorem token_of_symbol {i : Nat} {c : Char} (member : token ∈ spans text)
    (start : token.start ≤ i) (stop : i < token.stop) (read : text[i]? = some c)
    (notWord : isWord c = false) (notApostrophe : isApostrophe c = false) :
    token.start = i ∧ token.stop = i + 1 := by
  unfold spans at member
  induction text using finditer_induction tokenPattern_nonEmpty generalizing i token with
  | nil => simp at read
  | unmatched d rest found ih =>
    rw [finditer_unmatched found] at member
    obtain ⟨inner, present, rfl⟩ := List.mem_map.mp member
    simp only [Span.shift_start, Span.shift_stop] at start stop ⊢
    obtain ⟨i, rfl⟩ := Nat.exists_eq_add_of_le' (Nat.le_of_add_left_le start)
    have := ih present (by omega) (by omega) read
    omega
  | matched text n positive within found ih =>
    rw [finditer_matched positive found] at member
    rcases List.mem_cons.mp member with rfl | later
    · simp only at start stop ⊢
      have inside : c ∈ text.take n := by
        rw [List.mem_iff_getElem?]
        exact ⟨i, by rw [List.getElem?_take_of_lt stop, read]⟩
      -- a token with the symbol in it is no word, so it is one character
      rcases token_cases found with word | ⟨rfl, -⟩
      · have := word c inside
        simp [notWord, notApostrophe] at this
      · omega
    · obtain ⟨inner, present, rfl⟩ := List.mem_map.mp later
      simp only [Span.shift_start, Span.shift_stop] at start stop ⊢
      rw [← Nat.add_sub_cancel' (by omega : n ≤ i), ← List.getElem?_drop] at read
      have := ih present (by omega) (by omega) read
      omega

/-- A character in a token is not whitespace. -/
theorem visible_of_inside {i : Nat} {c : Char} (member : token ∈ spans text)
    (start : token.start ≤ i) (stop : i < token.stop) (read : text[i]? = some c) :
    isSpace c = false := by
  have inside : token.text[i - token.start]? = some c := by
    rw [(names_token member).slice, getElem?_slice (by omega), Nat.add_sub_cancel' start, read]
  exact token_visible member c (List.mem_of_getElem? inside)

/-! ## Texts joined by whitespace -/

theorem boundary_of_space {i : Nat} {c : Char} (read : text[i]? = some c) (space : isSpace c = true) :
    Boundary tokenPattern text i ∧ Boundary tokenPattern text (i + 1) := by
  have outside : ∀ token ∈ spans text, token.stop ≤ i ∨ i + 1 ≤ token.start := by
    intro token member
    by_contra covers
    have visible := visible_of_inside member (by omega) (by omega) read
    rw [space] at visible
    cases visible
  constructor <;> intro token member <;> have := outside token member <;> omega

/-- The tokens of two texts with whitespace between them. -/
theorem spans_append {a w b : Text} (nonempty : w ≠ []) (blank : ∀ c ∈ w, isSpace c = true) :
    spans (a ++ w ++ b) = spans a ++ (spans b).map (Span.shift (a ++ w).length) := by
  have positive := List.length_pos_of_ne_nil nonempty
  have first : (a ++ w ++ b)[a.length]? = some (w.head nonempty) := by
    rw [List.append_assoc, List.getElem?_append_right (Nat.le_refl _), Nat.sub_self,
      List.getElem?_append_left positive, ← List.head?_eq_getElem?, List.head?_eq_some_head nonempty]
  have last : (a ++ w ++ b)[(a ++ w).length - 1]? = some (w.getLast nonempty) := by
    rw [List.getElem?_append_left (by simp; omega), ← List.getLast?_eq_getElem?,
      List.getLast?_append_of_ne_nil _ nonempty, List.getLast?_eq_some_getLast nonempty]
  have left := (boundary_of_space first (blank _ (List.head_mem nonempty))).1
  have right := (boundary_of_space last (blank _ (List.getLast_mem nonempty))).2
  rw [Nat.sub_add_cancel (by simp; omega)] at right
  have whole := finditer_between tokenPattern_local tokenPattern_nonEmpty (by simp) left right
  have middle : slice a.length (a ++ w).length (a ++ w ++ b) = w := by
    rw [slice, List.take_left, List.drop_left]
  have none : finditer tokenPattern w = [] := spans_blank blank
  rw [middle, none, List.map_nil, List.append_nil, List.drop_left, List.append_assoc a,
    List.take_left] at whole
  rw [spans, List.append_assoc]
  exact whole

theorem count_append {a w b : Text} (nonempty : w ≠ []) (blank : ∀ c ∈ w, isSpace c = true) :
    count (a ++ w ++ b) = count a + count b := by
  rw [count, spans_append nonempty blank, List.length_append, List.length_map, count, count]

/-- The tokens of a text are slices of it in increasing order, apart from each other, and hold the
characters that are not whitespace.  Texts with whitespace between them have the tokens of both. -/
theorem spans_partition (text a w b : Text) :
    (∀ token ∈ spans text, Names text token) ∧
      ((spans text).Pairwise fun x y => x.stop ≤ y.start) ∧
      (∀ i c, text[i]? = some c →
        ((∃ token ∈ spans text, token.start ≤ i ∧ i < token.stop) ↔ isSpace c = false)) ∧
      (w ≠ [] → (∀ c ∈ w, isSpace c = true) →
        spans (a ++ w ++ b) = spans a ++ (spans b).map (Span.shift (a ++ w).length) ∧
          count (a ++ w ++ b) = count a + count b) := by
  refine ⟨fun token => names_token, finditer_sorted tokenPattern_nonEmpty text, ?_, ?_⟩
  · intro i c read
    constructor
    · intro covered
      obtain ⟨token, member, start, stop⟩ := covered
      exact visible_of_inside member start stop read
    · exact exists_token read
  · intro nonempty blank
    exact ⟨spans_append nonempty blank, count_append nonempty blank⟩

end SupportPilot.Rag
