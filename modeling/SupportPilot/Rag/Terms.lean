import SupportPilot.Rag.Lexical

/-! # The terms of a text

A match of `_TERM_PATTERN` takes word characters, and a joiner with a word character behind
it, as long as there are some (`matchLength_term`).  `lexical_terms` and `_identifiers` scan
different texts: `termGroups` lists the terms of the first, each as the terms of the second
that it consists of. -/

namespace SupportPilot.Rag

open Lib Lib.Regex

section Pattern

variable [TermTables]

/-- What a term takes of a text behind a word character. -/
def termLength : Text → Nat
  | [] => 0
  | c :: rest =>
    if isWord c || (isJoiner c && rest.head?.any isWord) then termLength rest + 1 else 0

/-- `(?:[-_.'][\w]+)*`. -/
def joinedWords : Regex := .star true (.seq (.char isJoiner) (plus (.char isWord)))

theorem termLength_le (text : Text) : termLength text ≤ text.length := by
  induction text with
  | nil => exact Nat.le_refl 0
  | cons c rest ih =>
    rw [termLength]
    split
    · exact Nat.succ_le_succ ih
    · exact Nat.zero_le _

theorem termLength_word {u rest : Text} (all : ∀ c ∈ u, isWord c = true) :
    termLength (u ++ rest) = u.length + termLength rest := by
  induction u with
  | nil => simp
  | cons c u ih =>
    have inner := ih fun d member => all d (.tail _ member)
    rw [List.cons_append, termLength, all c List.mem_cons_self, inner]
    simp
    omega

/-- A joiner and what it joins, if a word follows. -/
theorem run_joined {j : Char} {rest : Text} {groups : List (Nat × List Char)} :
    run (.seq (.char isJoiner) (plus (.char isWord))) ⟨j :: rest, groups⟩ =
      if isJoiner j && rest.head?.any isWord then
        run (.star true (.char isWord)) ⟨rest.tail, groups⟩
      else [] := by
  cases rest with
  | nil => cases joins : isJoiner j <;> simp [run, plus, joins]
  | cons w rest =>
    cases joins : isJoiner j <;> cases word : isWord w <;> simp [run, plus, joins, word]

/-- The matcher tries first what takes the most. -/
theorem head_joinedWords (text : Text) (groups : List (Nat × List Char)) :
    (run (.seq (.star true (.char isWord)) joinedWords) ⟨text, groups⟩).head? =
      some ⟨text.drop (termLength text), groups⟩ := by
  induction length : text.length using Nat.strong_induction_on generalizing text with
  | _ n shorter =>
    subst length
    obtain ⟨u, rest, rfl, all, ends⟩ := exists_run isWord text
    rw [termLength_word all, ← List.drop_drop, List.drop_left]
    apply head_greedy all ends
    rw [joinedWords, run_star]
    cases rest with
    | nil => rfl
    | cons j rest =>
      have notWord := ends j rfl
      simp only [if_true, termLength, notWord, Bool.false_or, run_joined]
      cases joins : isJoiner j && rest.head?.any isWord with
      | false =>
        -- nothing joins: the repetition ends here
        simp [progress]
      | true =>
        obtain ⟨-, follows⟩ := (Bool.and_eq_true _ _).mp joins
        cases rest with
        | nil => cases follows
        | cons w rest =>
          have word : isWord w = true := by simpa using follows
          have consumes : progress ⟨j :: w :: rest, groups⟩
              (run (.star true (.char isWord)) ⟨rest, groups⟩) =
                run (.star true (.char isWord)) ⟨rest, groups⟩ := by
            apply List.filter_eq_self.mpr
            intro d member
            have := length_le_of_mem_run member
            simp only [List.length_cons, decide_eq_true_eq] at this ⊢
            omega
          have inner := shorter rest.length (by simp; omega) rest rfl
          have longer : termLength (w :: rest) = termLength rest + 1 := by simp [termLength, word]
          rw [run_seq, joinedWords] at inner
          rw [if_pos rfl, if_pos rfl, List.tail_cons, consumes, List.head?_append, inner, longer]
          rfl

/-- A term starts at a word character. -/
theorem matchLength_term (c : Char) (rest : Text) :
    matchLength termPattern (c :: rest) =
      if isWord c then some (termLength (c :: rest)) else none := by
  have head := head_joinedWords rest []
  rw [matchLength, termPattern]
  cases word : isWord c with
  | false =>
    have none : run (.seq (plus (.char isWord)) joinedWords) ⟨c :: rest, []⟩ = [] :=
      run_plus_char_end (by simpa using word)
    rw [joinedWords] at none
    rw [none]
    rfl
  | true =>
    rw [joinedWords] at head
    rw [run_plus_char word, head]
    have within := termLength_le rest
    simp only [Option.map_some, List.length_drop, List.length_cons, termLength, word,
      Bool.true_or, if_true, Option.some.injEq]
    omega

theorem termPattern_nonEmpty : NonEmpty termPattern :=
  nonEmpty_of_consumes (.inl (.inl trivial))

/-- The terms of a text, as it is written. -/
def termTexts (text : Text) : List Text := (finditer termPattern text).map Span.text

@[simp] theorem termTexts_nil : termTexts [] = [] := rfl

theorem termTexts_skip {c : Char} (rest : Text) (notWord : isWord c = false) :
    termTexts (c :: rest) = termTexts rest := by
  have unmatched : matchLength termPattern (c :: rest) = none := by simp [matchLength_term, notWord]
  rw [termTexts, finditer_unmatched unmatched, List.map_map]
  rfl

theorem termTexts_word {c : Char} (rest : Text) (word : isWord c = true) :
    termTexts (c :: rest) = (c :: rest).take (termLength (c :: rest)) ::
      termTexts ((c :: rest).drop (termLength (c :: rest))) := by
  have matched : matchLength termPattern (c :: rest) = some (termLength (c :: rest)) := by
    simp [matchLength_term, word]
  rw [termTexts, finditer_matched (termPattern_nonEmpty _ _ matched) matched, List.map_cons,
    List.map_map]
  rfl

end Pattern

/-! ## Apostrophes -/

/-- U+2019. -/
def typographic : Char := '\u2019'

/-- The parts of a text between typographic apostrophes. -/
def parts (text : Text) : List Text := text.splitOn typographic

/-- `str.casefold` maps every code point by itself, and U+2019 is no word character. -/
class UnicodeTerms [TermTables] : Prop where
  casefold_append : ∀ a b : Text,
    TermTables.casefold (a ++ b) = TermTables.casefold a ++ TermTables.casefold b
  apostrophe : isWord typographic = false

theorem straightened_cons (c : Char) (rest : Text) :
    straightened (c :: rest) = (if c = typographic then '\'' else c) :: straightened rest := by
  have same : c.toNat = 0x2019 ↔ c = typographic :=
    ⟨fun number => Char.ext (UInt32.toNat_inj.mp number), fun char => char ▸ rfl⟩
  simp only [straightened, List.map_cons, same]

@[simp] theorem straightened_nil : straightened [] = [] := rfl

theorem straightened_append (a b : Text) :
    straightened (a ++ b) = straightened a ++ straightened b := List.map_append

@[simp] theorem length_straightened (text : Text) : (straightened text).length = text.length :=
  List.length_map _

theorem straightened_take (n : Nat) (text : Text) :
    straightened (text.take n) = (straightened text).take n := List.map_take

theorem straightened_drop (n : Nat) (text : Text) :
    straightened (text.drop n) = (straightened text).drop n := List.map_drop

theorem straightened_eq_self {text : Text} (plain : typographic ∉ text) :
    straightened text = text := by
  induction text with
  | nil => rfl
  | cons c rest ih =>
    rw [List.mem_cons, not_or] at plain
    rw [straightened_cons, if_neg (Ne.symm plain.1), ih plain.2]

theorem mem_parts {text part : Text} (member : part ∈ parts text) :
    typographic ∉ part ∧ part <:+: text := mem_splitOn member

section Terms

variable [TermTables] [UnicodeTerms]

theorem isWord_straight (c : Char) :
    isWord (if c = typographic then '\'' else c) = isWord c := by
  split
  next same =>
    rw [same, UnicodeTerms.apostrophe]
    exact WordChars.ascii _ (by decide)
  · rfl

/-- Behind a term of the text, the straightened text goes on with an apostrophe or not at
all. -/
theorem termLength_straightened (text : Text) :
    termLength (straightened text) = termLength text +
      match text.drop (termLength text) with
      | c :: rest =>
        if c = typographic ∧ rest.head?.any isWord then termLength (straightened rest) + 1 else 0
      | [] => 0 := by
  induction text with
  | nil => rfl
  | cons c rest ih =>
    have head : (straightened rest).head?.any isWord = rest.head?.any isWord := by
      cases rest with
      | nil => rfl
      | cons d rest => simp [straightened_cons, isWord_straight]
    have notJoiner : isJoiner typographic = false := by decide
    rw [straightened_cons, termLength, termLength, isWord_straight, head]
    by_cases same : c = typographic
    · -- only the straightened apostrophe joins
      have joiner : isJoiner '\'' = true := by decide
      subst same
      cases joins : rest.head?.any isWord <;>
        simp [UnicodeTerms.apostrophe, notJoiner, joiner, joins]
    · rw [if_neg same]
      cases taken : isWord c || (isJoiner c && rest.head?.any isWord) with
      | true =>
        rw [if_pos rfl, if_pos rfl, ih, List.drop_succ_cons]
        omega
      | false => simp [same]

theorem typographic_not_mem_term (text : Text) :
    typographic ∉ text.take (termLength text) := by
  have notJoiner : isJoiner typographic = false := by decide
  induction text with
  | nil => simp
  | cons c rest ih =>
    rw [termLength]
    split
    next taken =>
      rw [List.take_succ_cons, List.mem_cons, not_or]
      refine ⟨fun same => ?_, ih⟩
      rw [← same] at taken
      simp [UnicodeTerms.apostrophe, notJoiner] at taken
    · simp

/-- What the straightened text takes as one term is written as several. -/
theorem termTexts_parts {c : Char} (rest : Text) (word : isWord c = true) :
    termTexts (c :: rest) =
      parts ((c :: rest).take (termLength (straightened (c :: rest)))) ++
        termTexts ((c :: rest).drop (termLength (straightened (c :: rest)))) := by
  induction length : rest.length using Nat.strong_induction_on generalizing c rest with
  | _ n shorter =>
    subst length
    have plain := typographic_not_mem_term (c :: rest)
    have positive : 0 < termLength (c :: rest) := by simp [termLength, word]
    rw [termTexts_word rest word, termLength_straightened]
    generalize termLength (c :: rest) = m at plain positive ⊢
    cases behind : (c :: rest).drop m with
    | nil => simp [parts, List.splitOn_eq_singleton plain, behind]
    | cons d others =>
      dsimp only
      split
      next joins =>
        -- the straightened term goes on behind the apostrophe
        obtain ⟨rfl, follows⟩ := joins
        cases others with
        | nil => cases follows
        | cons e others =>
          have wordE : isWord e = true := by simpa using follows
          have size := congrArg List.length behind
          simp only [List.length_drop, List.length_cons] at size
          have inner := shorter others.length (by omega) others wordE rfl
          rw [List.take_add, ← List.drop_drop, behind, termTexts_skip _ UnicodeTerms.apostrophe,
            inner, List.take_succ_cons, List.drop_succ_cons, parts, parts,
            List.splitOn_append_cons_self_of_not_mem plain, List.cons_append]
      next => simp [parts, List.splitOn_eq_singleton plain, behind]

/-- The straightened terms, each as it is written. -/
def termSlices (text : Text) : List Text :=
  (finditer termPattern (straightened text)).map fun x => slice x.start x.stop text

omit [UnicodeTerms] in
@[simp] theorem termSlices_nil : termSlices [] = [] := rfl

omit [TermTables] [UnicodeTerms] in
theorem termSlices_shift {n : Nat} {text : Text} {spans : List Span} :
    (spans.map (Span.shift n)).map (fun x => slice x.start x.stop text) =
      spans.map fun x => slice x.start x.stop (text.drop n) := by
  rw [List.map_map]
  apply List.map_congr_left
  intro x _
  simp only [Function.comp_apply, Span.shift_start, Span.shift_stop, slice_eq_take_drop,
    List.drop_drop, Nat.add_comm, Nat.add_sub_add_left]

theorem termSlices_skip {c : Char} (rest : Text) (notWord : isWord c = false) :
    termSlices (c :: rest) = termSlices rest := by
  have unmatched : matchLength termPattern (straightened (c :: rest)) = none := by
    simp [straightened_cons, matchLength_term, isWord_straight, notWord]
  rw [straightened_cons] at unmatched
  rw [termSlices, straightened_cons, finditer_unmatched unmatched, termSlices_shift]
  rfl

theorem termSlices_word {c : Char} (rest : Text) (word : isWord c = true) :
    termSlices (c :: rest) = (c :: rest).take (termLength (straightened (c :: rest))) ::
      termSlices ((c :: rest).drop (termLength (straightened (c :: rest)))) := by
  have matched : matchLength termPattern (straightened (c :: rest)) =
      some (termLength (straightened (c :: rest))) := by
    simp [straightened_cons, matchLength_term, isWord_straight, word]
  rw [termSlices, finditer_matched (termPattern_nonEmpty _ _ matched) matched, List.map_cons,
    termSlices_shift, slice_zero, termSlices, straightened_drop]

/-- The terms of a text are the parts of its straightened terms. -/
theorem termTexts_eq (text : Text) : termTexts text = (termSlices text).flatMap parts := by
  induction length : text.length using Nat.strong_induction_on generalizing text with
  | _ n shorter =>
    subst length
    cases text with
    | nil => rfl
    | cons c rest =>
      cases word : isWord c with
      | false =>
        rw [termTexts_skip rest word, termSlices_skip rest word]
        exact shorter rest.length (Nat.lt_succ_self _) rest rfl
      | true =>
        have positive : 0 < termLength (straightened (c :: rest)) := by
          simp [straightened_cons, termLength, isWord_straight, word]
        rw [termTexts_parts rest word, termSlices_word rest word, List.flatMap_cons]
        congr 1
        exact shorter _ (by rw [List.length_drop]; simp only [List.length_cons]; omega) _ rfl

omit [UnicodeTerms] in
/-- The straightened terms are the terms of the straightened text. -/
theorem map_straightened_termSlices (text : Text) :
    (termSlices text).map straightened = termTexts (straightened text) := by
  rw [termSlices, termTexts, List.map_map]
  apply List.map_congr_left
  intro x member
  rw [Function.comp_apply, (names_of_mem_finditer termPattern_nonEmpty member).slice, slice, slice,
    straightened_drop, straightened_take]

/-! ## Identifiers and lexical terms -/

omit [UnicodeTerms] in
theorem identifiers_eq (text : Text) :
    identifiers text = ((termTexts text).map TermTables.casefold).filter isIdentifier := by
  have nonempty : ∀ value : Text, (!value.isEmpty && isIdentifier value) = isIdentifier value := by
    intro value
    cases value <;> rfl
  rw [identifiers, termTexts, List.map_map]
  simp only [nonempty]
  rfl

omit [UnicodeTerms] in
theorem lexicalTerms_eq (text : Text) :
    lexicalTerms text = (termSlices text).flatMap fun written =>
      if stopWords.contains (TermTables.casefold (straightened written)) then []
      else variants (TermTables.casefold (straightened written)) := by
  have same := map_straightened_termSlices text
  rw [termTexts] at same
  have folded : (termSlices text).flatMap (fun written =>
      if stopWords.contains (TermTables.casefold (straightened written)) then []
      else variants (TermTables.casefold (straightened written))) =
        ((termSlices text).map straightened).flatMap fun term =>
          if stopWords.contains (TermTables.casefold term) then []
          else variants (TermTables.casefold term) := by rw [List.flatMap_map]
  rw [folded, same, List.flatMap_map]
  rfl

omit [UnicodeTerms] in
/-- No stop word is an identifier. -/
theorem isIdentifier_stopWord {term : Text} (stop : term ∈ stopWords) :
    isIdentifier term = false := by
  have checked : (stopWords.all fun word => word.all fun c => c.toNat < 128 && !c.isDigit &&
      !(c = '-' || c = '_' || c = '.')) = true := by decide +kernel
  have letters : ∀ c ∈ term, c.toNat < 128 ∧ c.isDigit = false ∧
      (c = '-' || c = '_' || c = '.') = false := by
    intro c member
    have letter := List.all_eq_true.mp (List.all_eq_true.mp checked term stop) c member
    simpa [and_assoc] using letter
  rw [isIdentifier, Bool.or_eq_false_iff, List.any_eq_false, List.any_eq_false]
  constructor
  · intro c member
    obtain ⟨ascii, digit, -⟩ := letters c member
    rw [TermTables.isDigit_ascii c ascii, digit]
    exact Bool.false_ne_true
  · intro c member
    exact Bool.eq_false_iff.mp (letters c member).2.2

omit [UnicodeTerms] in
theorem variants_identifier {term : Text} (isId : isIdentifier term = true) :
    variants term = [term] := by
  rw [variants, if_pos isId]

/-- A term with an identifier among its parts is one. -/
theorem isIdentifier_part {written part : Text} (member : part ∈ parts written)
    (isId : isIdentifier (TermTables.casefold part) = true) :
    isIdentifier (TermTables.casefold (straightened written)) = true := by
  obtain ⟨plain, before, after, whole⟩ := mem_parts member
  rw [← whole, straightened_append, straightened_append, straightened_eq_self plain,
    UnicodeTerms.casefold_append, UnicodeTerms.casefold_append]
  simp only [isIdentifier, List.any_append, Bool.or_eq_true] at isId ⊢
  tauto

omit [UnicodeTerms] in
theorem mem_lexicalTerms {text written : Text} (isSlice : written ∈ termSlices text)
    (isId : isIdentifier (TermTables.casefold (straightened written)) = true) :
    TermTables.casefold (straightened written) ∈ lexicalTerms text := by
  have kept : ¬ stopWords.contains (TermTables.casefold (straightened written)) = true := by
    intro stop
    rw [isIdentifier_stopWord (List.contains_iff_mem.mp stop)] at isId
    cases isId
  rw [lexicalTerms_eq]
  refine List.mem_flatMap.mpr ⟨written, isSlice, ?_⟩
  rw [if_neg kept, variants_identifier isId]
  exact List.mem_singleton_self _

/-- An identifier of the text lies in an identifier among the terms. -/
theorem exists_identifier {text value : Text} (member : value ∈ identifiers text) :
    ∃ written ∈ termSlices text,
      isIdentifier (TermTables.casefold (straightened written)) = true ∧
        TermTables.casefold (straightened written) ∈ lexicalTerms text := by
  rw [identifiers_eq, List.mem_filter, List.mem_map] at member
  obtain ⟨⟨part, isTerm, rfl⟩, isId⟩ := member
  rw [termTexts_eq] at isTerm
  obtain ⟨written, isSlice, isPart⟩ := List.mem_flatMap.mp isTerm
  have whole := isIdentifier_part isPart isId
  exact ⟨written, isSlice, whole, mem_lexicalTerms isSlice whole⟩

end Terms

end SupportPilot.Rag
