import SupportPilot.Lib.Runs
import SupportPilot.Rag.BlockCollector

/-! # Plain text

`_parse_plain_text`.  The text is split at `_BLANK_LINES`, an expression that also takes what is
before and between the line feeds of blank lines.  Each run of lines with text becomes a
paragraph (`stored_split`). -/

namespace SupportPilot.Rag

open Lib Lib.Regex

def isNewline (c : Char) : Bool := c = '\n'

/-- `_BLANK_LINES`: `\n\s*\n+`. -/
def blankLinesPattern : Regex :=
  .seq (.char isNewline) (.seq (.star true (.char isSpace)) (plus (.char isNewline)))

/-- The calls of `_parse_plain_text`. -/
def plainTextCalls (text : Text) : List AddCall :=
  (split blankLinesPattern (unixLines text)).map fun paragraph => ⟨.paragraph, paragraph, none, none⟩

/-- `_parse_plain_text`. -/
def parsePlainText (text : Text) : Except PyError BlockCollector :=
  BlockCollector.collect (plainTextCalls text)

/-! ## Where the text is split -/

theorem nonEmpty_blankLinesPattern : NonEmpty blankLinesPattern :=
  nonEmpty_of_consumes (by simp [blankLinesPattern, Consumes])

theorem not_newline {c : Char} (notSpace : isSpace c = false) : isNewline c = false := by
  cases newline : isNewline c with
  | false => rfl
  | true =>
    rw [of_decide_eq_true newline] at notSpace
    cases notSpace

theorem matchLength_other {c : Char} (rest : Text) (other : isNewline c = false) :
    matchLength blankLinesPattern (c :: rest) = none := by
  simp [matchLength, blankLinesPattern, run, other]

theorem run_newlines_eq_nil {text : Text} {groups : List (Nat × Text)}
    (other : ∀ c ∈ text.head?, isNewline c = false) : run (plus (.char isNewline)) ⟨text, groups⟩ = [] := by
  cases text with
  | nil => simp [plus, run]
  | cons c rest => simp [plus, run, other c rfl]

theorem head_other {u rest w : Text} (oneLine : ∀ c ∈ u, isNewline c = false)
    (stops : ∀ c ∈ rest.head?, isSpace c = false) (isSuffix : w <:+ u) :
    ∀ c ∈ (w ++ rest).head?, isNewline c = false := by
  intro c first
  cases w with
  | nil => exact not_newline (stops c first)
  | cons d w =>
    obtain rfl : d = c := by simpa using first
    exact oneLine d (isSuffix.subset List.mem_cons_self)

/-- A line feed before a line with text is kept. -/
theorem matchLength_text {text : Text} (oneLine : ∀ c ∈ text.takeWhile isSpace, isNewline c = false) :
    matchLength blankLinesPattern ('\n' :: text) = none := by
  have whole := List.takeWhile_append_dropWhile (p := isSpace) (l := text)
  have stops := stops_dropWhile isSpace text
  have others : ∀ w, w <:+ text.takeWhile isSpace →
      run (plus (.char isNewline)) ⟨w ++ text.dropWhile isSpace, []⟩ = [] := fun w isSuffix =>
    run_newlines_eq_nil (head_other oneLine stops isSuffix)
  have none := greedy_eq_nil (fun _ => List.mem_takeWhile_imp) stops others
  rw [whole] at none
  rw [matchLength_eq_none, blankLinesPattern, run_seq_char rfl, none]

/-- Blank lines are taken up to the last line feed. -/
theorem matchLength_blank {blank text : Text} (spaces : ∀ c ∈ blank, isSpace c = true)
    (oneLine : ∀ c ∈ text.takeWhile isSpace, isNewline c = false) :
    matchLength blankLinesPattern ('\n' :: (blank ++ '\n' :: text)) = some (blank.length + 2) := by
  have whole := List.takeWhile_append_dropWhile (p := isSpace) (l := text)
  have stops := stops_dropWhile isSpace text
  have others : ∀ w, w <:+ text.takeWhile isSpace →
      run (plus (.char isNewline)) ⟨w ++ text.dropWhile isSpace, []⟩ = [] := fun w isSuffix =>
    run_newlines_eq_nil (head_other oneLine stops isSuffix)
  have behind : (run (plus (.char isNewline)) ⟨'\n' :: (text.takeWhile isSpace ++
      text.dropWhile isSpace), []⟩).head? = some ⟨text, []⟩ := by
    rw [plus, run_seq_char rfl,
      run_star_char_end (head_other oneLine stops (List.suffix_refl _)), whole]
    rfl
  have head := head?_backtrack spaces rfl (fun _ => List.mem_takeWhile_imp) stops others behind
  rw [whole] at head
  rw [matchLength, blankLinesPattern, run_seq_char rfl, head]
  simp only [Option.map_some, List.length_cons, List.length_append, Option.some.injEq]
  omega

/-! ## Lines -/

/-- A line that is not only whitespace. -/
def hasText (line : Text) : Bool := line.any fun c => !isSpace c

/-- `"\n".join(lines)`. -/
def joinLines (lines : List Text) : Text := ['\n'].intercalate lines

theorem hasText_eq_false {line : Text} : hasText line = false ↔ visible line = [] := by
  rw [visible_eq_nil, hasText, List.any_eq_false]
  simp

@[simp] theorem joinLines_singleton (line : Text) : joinLines [line] = line := by
  simp [joinLines]

theorem joinLines_cons (line : Text) {lines : List Text} (some : lines ≠ []) :
    joinLines (line :: lines) = line ++ '\n' :: joinLines lines := by
  cases lines with
  | nil => exact absurd rfl some
  | cons next lines => simp [joinLines, List.intercalate_cons_cons]

theorem joinLines_append {lines lines' : List Text} (some : lines ≠ []) (some' : lines' ≠ []) :
    joinLines (lines ++ lines') = joinLines lines ++ '\n' :: joinLines lines' := by
  induction lines with
  | nil => exact absurd rfl some
  | cons line lines ih =>
    cases lines with
    | nil => simp [joinLines_cons line some']
    | cons next lines =>
      have inner := ih (List.cons_ne_nil _ _)
      rw [List.cons_append, joinLines_cons line (by simp), inner, joinLines_cons line (by simp),
        List.append_assoc, List.cons_append]

theorem visible_joinLines (lines : List Text) : visible (joinLines lines) = lines.flatMap visible := by
  induction lines with
  | nil => rfl
  | cons line lines ih =>
    cases lines with
    | nil => simp
    | cons next lines =>
      have newline : visible ['\n'] = [] := rfl
      rw [joinLines_cons line (by simp), visible_append, List.flatMap_cons, ← ih,
        ← List.singleton_append, visible_append, newline, List.nil_append]

theorem visible_run {lines : List Text} (some : lines ≠ [])
    (text : ∀ line ∈ lines, hasText line = true) : visible (joinLines lines) ≠ [] := by
  obtain ⟨line, member⟩ := List.exists_mem_of_ne_nil lines some
  rw [visible_joinLines, ne_eq, List.flatMap_eq_nil_iff]
  intro blank
  have lineText := text line member
  rw [hasText_eq_false.2 (blank line member)] at lineText
  cases lineText

/-- The whitespace at the head of a text that starts with a line. -/
theorem takeWhile_line {line : Text} (text : hasText line = true) (rest : Text) :
    (line ++ rest).takeWhile isSpace = line.takeWhile isSpace := by
  rw [List.takeWhile_append]
  split
  next whole =>
    -- a line with text is not only whitespace
    have all : line.takeWhile isSpace = line :=
      (List.takeWhile_prefix isSpace).eq_of_length whole
    have blank := hasText_eq_false.2 (visible_eq_nil.2 (List.takeWhile_eq_self_iff.mp all))
    rw [blank] at text
    cases text
  · rfl

theorem newline_of_mem {line : Text} (oneLine : '\n' ∉ line) : ∀ c ∈ line, isNewline c = false := by
  intro c member
  rw [isNewline, decide_eq_false_iff_not]
  rintro rfl
  exact oneLine member

theorem head_joinLines {line : Text} (more : List Text) (behind : Text) (oneLine : '\n' ∉ line)
    (text : hasText line = true) :
    ∀ c ∈ (joinLines (line :: more) ++ behind).takeWhile isSpace, isNewline c = false := by
  have starts : ∃ rest, joinLines (line :: more) ++ behind = line ++ rest := by
    cases more with
    | nil => exact ⟨behind, by rw [joinLines_singleton]⟩
    | cons next more => exact ⟨_, by rw [joinLines_cons line (by simp), List.append_assoc]⟩
  obtain ⟨rest, shape⟩ := starts
  intro c first
  rw [shape, takeWhile_line text] at first
  exact newline_of_mem oneLine c ((List.takeWhile_prefix isSpace).subset first)

/-- Inside a run of lines with text, nothing is split off. -/
theorem matchLength_inside {lines : List Text} (rest : Text) (oneLine : ∀ line ∈ lines, '\n' ∉ line)
    (text : ∀ line ∈ lines, hasText line = true) {v : Text} (isSuffix : v <:+ joinLines lines)
    (some : v ≠ []) : matchLength blankLinesPattern (v ++ rest) = none := by
  induction lines with
  | nil => exact absurd (List.suffix_nil.mp isSuffix) some
  | cons line lines ih =>
    have others := newline_of_mem (oneLine line List.mem_cons_self)
    have inLine : ∀ w : Text, w <:+ line → w ≠ [] → ∀ behind : Text,
        matchLength blankLinesPattern (w ++ behind) = none := by
      intro w isSuffix some behind
      cases w with
      | nil => exact absurd rfl some
      | cons c w => exact matchLength_other _ (others c (isSuffix.subset List.mem_cons_self))
    by_cases last : lines = []
    · subst last
      exact inLine v (by simpa using isSuffix) some rest
    · rw [joinLines_cons line last] at isSuffix
      obtain ⟨next, more, rfl⟩ := List.exists_cons_of_ne_nil last
      -- the line feed is followed by a line with text
      have kept : matchLength blankLinesPattern ('\n' :: (joinLines (next :: more) ++ rest)) =
          none := by
        have member : next ∈ line :: next :: more := by simp
        exact matchLength_text (head_joinLines more rest (oneLine next member) (text next member))
      have later : v <:+ '\n' :: joinLines (next :: more) →
          matchLength blankLinesPattern (v ++ rest) = none := by
        intro isSuffix
        obtain rfl | inside := List.suffix_cons_iff.mp isSuffix
        · exact kept
        · exact ih (fun line member => oneLine line (.tail _ member))
            (fun line member => text line (.tail _ member)) inside
      obtain ⟨w, whole⟩ := isSuffix
      obtain ⟨a, inside, rfl⟩ | ⟨a, -, shape⟩ := List.append_eq_append_iff.mp whole
      · by_cases nothing : a = []
        · subst nothing
          exact later (List.suffix_refl _)
        · rw [List.append_assoc]
          exact inLine a ⟨w, inside.symm⟩ nothing _
      · exact later ⟨a, shape.symm⟩

theorem visible_blankLines {blank : List Text} (isBlank : ∀ line ∈ blank, visible line = []) :
    visible (joinLines blank) = [] := by
  rw [visible_joinLines, List.flatMap_eq_nil_iff]
  exact isBlank

/-- Blank lines before a line with text are one match. -/
theorem matchLength_blankLines {blank : List Text} {text : Text}
    (isBlank : ∀ line ∈ blank, visible line = [])
    (oneLine : ∀ c ∈ text.takeWhile isSpace, isNewline c = false) :
    matchLength blankLinesPattern ('\n' :: (joinLines blank ++ '\n' :: text)) =
      Option.some ((joinLines blank).length + 2) := by
  apply matchLength_blank _ oneLine
  exact visible_eq_nil.1 (visible_blankLines isBlank)

/-- The paragraphs that are stored. -/
def stored (paragraphs : List Text) : List Text :=
  (paragraphs.map normalizeBlockText).filter fun text => text ≠ []

@[simp] theorem stored_cons_blank {paragraph : Text} (rest : List Text) (blank : visible paragraph = []) :
    stored (paragraph :: rest) = stored rest := by
  have nothing := normalizeBlockText_eq_nil.2 blank
  simp [stored, nothing]

theorem stored_cons_text {paragraph : Text} (rest : List Text) (some : visible paragraph ≠ []) :
    stored (paragraph :: rest) = normalizeBlockText paragraph :: stored rest := by
  have kept := mt normalizeBlockText_eq_nil.1 some
  simp [stored, kept]

theorem stored_modifyHead {blank : Text} (isBlank : visible blank = []) (paragraphs : List Text) :
    stored (paragraphs.modifyHead (blank ++ ·)) = stored paragraphs := by
  cases paragraphs with
  | nil => rfl
  | cons paragraph rest => simp [stored, normalizeBlockText_blank_append _ isBlank]

/-- What is split off is whitespace. -/
theorem visible_split (text : Text) :
    (split blankLinesPattern text).flatMap visible = visible text := by
  have inClass : Over isSpace blankLinesPattern := by
    have newline : ∀ c, isNewline c = true → isSpace c = true := by
      intro c newline
      rw [of_decide_eq_true newline]
      rfl
    simpa [blankLinesPattern, plus, Over] using newline
  induction text using finditer_induction nonEmpty_blankLinesPattern with
  | nil => rfl
  | unmatched c rest unmatched ih =>
    have single := visible_append [c] rest
    rw [split_unmatched unmatched, ← List.singleton_append, single, ← ih]
    obtain ⟨first, more, shape⟩ := List.exists_cons_of_ne_nil (@split_ne_nil blankLinesPattern rest)
    have piece := visible_append [c] first
    rw [shape, List.modifyHead_cons, List.flatMap_cons, List.flatMap_cons, ← List.singleton_append,
      piece, List.append_assoc]
  | matched text n positive within matched ih =>
    have blank : visible (text.take n) = [] :=
      visible_eq_nil.2 (over_of_matchLength inClass matched)
    have whole := visible_append (text.take n) (text.drop n)
    rw [List.take_append_drop, blank, List.nil_append] at whole
    rw [split_matched positive matched, List.flatMap_cons, ih, whole]
    rfl

theorem stored_eq_nil {paragraphs : List Text} (blank : paragraphs.flatMap visible = []) :
    stored paragraphs = [] := by
  rw [List.flatMap_eq_nil_iff] at blank
  simp only [stored, List.filter_eq_nil_iff, List.mem_map]
  intro value found
  obtain ⟨paragraph, member, rfl⟩ := found
  simp [normalizeBlockText_eq_nil.2 (blank paragraph member)]

/-- The runs of lines with text. -/
def textRuns (lines : List Text) : List (List Text) :=
  (runs hasText lines).filter fun run => run.any hasText

theorem textRuns_blank {blank : List Text} (rest : List Text)
    (isBlank : ∀ line ∈ blank, hasText line = false) : textRuns (blank ++ rest) = textRuns rest := by
  induction blank with
  | nil => rfl
  | cons line blank ih =>
    have first := isBlank line List.mem_cons_self
    rw [List.cons_append, textRuns, runs_cons first, List.filter_cons]
    simpa [first, textRuns] using ih fun line member => isBlank line (.tail _ member)

theorem textRuns_append {u rest : List Text} (some : u ≠ []) (all : ∀ line ∈ u, hasText line = true)
    (ends : ∀ line ∈ rest.head?, hasText line = false) : textRuns (u ++ rest) = u :: textRuns rest := by
  obtain ⟨line, more, rfl⟩ := List.exists_cons_of_ne_nil some
  rw [textRuns, runs_append some all ends, List.filter_cons, List.any_cons,
    all line List.mem_cons_self, Bool.true_or, if_pos rfl, textRuns]

theorem split_blankLines {blank : List Text} {line : Text} (more : List Text)
    (isBlank : ∀ line ∈ blank, visible line = []) (oneLine : '\n' ∉ line)
    (text : hasText line = true) :
    split blankLinesPattern ('\n' :: (joinLines blank ++ '\n' :: joinLines (line :: more))) =
      [] :: split blankLinesPattern (joinLines (line :: more)) := by
  have head := head_joinLines more [] oneLine text
  rw [List.append_nil] at head
  have matched := matchLength_blankLines isBlank head
  have behind : ('\n' :: (joinLines blank ++ '\n' :: joinLines (line :: more))).drop
      ((joinLines blank).length + 2) = joinLines (line :: more) := by
    have shape : '\n' :: (joinLines blank ++ '\n' :: joinLines (line :: more)) =
        ('\n' :: (joinLines blank ++ ['\n'])) ++ joinLines (line :: more) := by simp
    rw [shape, List.drop_left' (by simp)]
  rw [split_matched (by omega) matched, behind]

theorem split_line {line : Text} (rest : Text) (oneLine : '\n' ∉ line) :
    split blankLinesPattern (line ++ rest) =
      (split blankLinesPattern rest).modifyHead (line ++ ·) := by
  apply split_append
  intro v isSuffix some
  cases v with
  | nil => exact absurd rfl some
  | cons c v =>
    exact matchLength_other _ (newline_of_mem oneLine c (isSuffix.subset List.mem_cons_self))

/-- Blank lines before the first line with text do not matter. -/
theorem stored_blank_append {blank : List Text} {line : Text} (more : List Text) (some : blank ≠ [])
    (isBlank : ∀ line ∈ blank, visible line = []) (oneLines : ∀ line ∈ blank, '\n' ∉ line)
    (oneLine : '\n' ∉ line) (text : hasText line = true) :
    stored (split blankLinesPattern (joinLines blank ++ '\n' :: joinLines (line :: more))) =
      stored (split blankLinesPattern (joinLines (line :: more))) := by
  obtain ⟨first, blank, rfl⟩ := List.exists_cons_of_ne_nil some
  have firstBlank := isBlank first List.mem_cons_self
  by_cases single : blank = []
  · -- the line feed behind a single blank line is kept
    have head := head_joinLines more [] oneLine text
    rw [List.append_nil] at head
    rw [single, joinLines_singleton, split_line _ (oneLines first List.mem_cons_self),
      split_unmatched (matchLength_text head), stored_modifyHead firstBlank]
    have newline : visible ['\n'] = [] := rfl
    exact stored_modifyHead newline _
  · rw [joinLines_cons first single, List.append_assoc, List.cons_append,
      split_line _ (oneLines first List.mem_cons_self),
      split_blankLines more (fun line member => isBlank line (.tail _ member)) oneLine text,
      List.modifyHead_cons, stored_cons_blank _ (by simpa using firstBlank)]

theorem stored_blank {blank : List Text} (isBlank : ∀ line ∈ blank, visible line = []) :
    stored (split blankLinesPattern (joinLines blank)) = [] := by
  apply stored_eq_nil
  rw [visible_split, visible_blankLines isBlank]

/-- Nothing is split inside lines with text. -/
theorem split_textLines {u : List Text} (oneLines : ∀ line ∈ u, '\n' ∉ line)
    (all : ∀ line ∈ u, hasText line = true) (behind : Text) :
    split blankLinesPattern (joinLines u ++ behind) =
      (split blankLinesPattern behind).modifyHead (joinLines u ++ ·) :=
  split_append fun _ isSuffix some => matchLength_inside behind oneLines all isSuffix some

/-- The last lines with text are a paragraph, whatever blank follows them. -/
theorem stored_textLines {u : List Text} (some : u ≠ []) (oneLines : ∀ line ∈ u, '\n' ∉ line)
    (all : ∀ line ∈ u, hasText line = true) {behind : Text} (blank : visible behind = []) :
    stored (split blankLinesPattern (joinLines u ++ behind)) =
      [normalizeBlockText (joinLines u)] := by
  obtain ⟨piece, pieces, isSplit⟩ := List.exists_cons_of_ne_nil
    (@split_ne_nil blankLinesPattern behind)
  have pieceBlank := visible_split behind
  rw [isSplit, blank, List.flatMap_cons, List.append_eq_nil_iff] at pieceBlank
  have text : visible (joinLines u ++ piece) ≠ [] := by
    rw [visible_append, pieceBlank.1, List.append_nil]
    exact visible_run some all
  rw [split_textLines oneLines all, isSplit, List.modifyHead_cons, stored_cons_text _ text,
    normalizeBlockText_append_blank _ pieceBlank.1, stored_eq_nil pieceBlank.2]

theorem joinLines_append_blank {u blank : List Text} (some : u ≠ [])
    (isBlank : ∀ line ∈ blank, visible line = []) :
    ∃ behind, visible behind = [] ∧ joinLines (u ++ blank) = joinLines u ++ behind := by
  by_cases none : blank = []
  · exact ⟨[], rfl, by simp [none]⟩
  · refine ⟨_, ?_, joinLines_append some none⟩
    have whole := visible_append ['\n'] (joinLines blank)
    rw [visible_blankLines isBlank] at whole
    exact whole

/-- Every run of lines with text becomes a paragraph. -/
theorem stored_split {lines : List Text} (some : lines ≠ []) (oneLine : ∀ line ∈ lines, '\n' ∉ line) :
    stored (split blankLinesPattern (joinLines lines)) =
      (textRuns lines).map fun run => normalizeBlockText (joinLines run) := by
  induction length : lines.length using Nat.strong_induction_on generalizing lines with
  | _ n shorter =>
    subst length
    obtain ⟨u, behind, rfl, all, ends⟩ := exists_run hasText lines
    obtain ⟨blank, rest, rfl, isBlank, starts⟩ := exists_run (fun line => !hasText line) behind
    simp only [Bool.not_eq_true', Bool.not_eq_false'] at isBlank starts
    have blankVisible : ∀ line ∈ blank, visible line = [] := fun line member =>
      hasText_eq_false.1 (isBlank line member)
    have uLines : ∀ line ∈ u, '\n' ∉ line := fun line member => oneLine line (by simp [member])
    cases rest with
    | nil =>
      have none : textRuns blank = [] := by
        rw [← List.append_nil blank, textRuns_blank [] isBlank]
        rfl
      rw [List.append_nil] at ends ⊢
      by_cases noText : u = []
      · -- all lines are blank
        rw [noText, List.nil_append, none, stored_blank blankVisible]
        rfl
      · obtain ⟨behind, blankBehind, shape⟩ := joinLines_append_blank noText blankVisible
        rw [shape, stored_textLines noText uLines all blankBehind, textRuns_append noText all ends,
          none]
        rfl
    | cons line more =>
      have text := starts line rfl
      have someBlank : blank ≠ [] := by
        rintro rfl
        rw [ends line rfl] at text
        cases text
      have lineOne : '\n' ∉ line := oneLine line (by simp)
      have blankOne : ∀ line ∈ blank, '\n' ∉ line := fun line member =>
        oneLine line (by simp [member])
      have next := shorter (line :: more).length (by
        have positive := List.length_pos_of_ne_nil someBlank
        simp only [List.length_append]
        omega) (List.cons_ne_nil line more) (fun line member => oneLine line (by
          simp only [List.mem_append, member, or_true])) rfl
      by_cases noText : u = []
      · subst noText
        rw [List.nil_append, joinLines_append someBlank (by simp), textRuns_blank _ isBlank, ← next]
        exact stored_blank_append more someBlank blankVisible blankOne lineOne text
      · have uVisible := visible_run noText all
        rw [joinLines_append noText (by simp [someBlank]), joinLines_append someBlank (by simp),
          split_textLines uLines all, split_blankLines more blankVisible lineOne text,
          List.modifyHead_cons, List.append_nil, stored_cons_text _ uVisible,
          textRuns_append noText all ends, textRuns_blank _ isBlank, next]
        rfl

/-! ## Blocks -/

/-- The lines of a text. -/
def textLines (text : Text) : List Text := (unixLines text).splitOn '\n'

theorem joinLines_textLines (text : Text) : joinLines (textLines text) = unixLines text :=
  List.intercalate_splitOn '\n'

theorem length_stored (paragraphs : List Text) :
    (stored paragraphs).flatten.length ≤ paragraphs.flatten.length := by
  induction paragraphs with
  | nil => exact Nat.le_refl 0
  | cons paragraph rest ih =>
    have shorter := length_normalizeBlockText paragraph
    rw [List.flatten_cons, List.length_append]
    by_cases blank : visible paragraph = []
    · rw [stored_cons_blank rest blank]
      omega
    · rw [stored_cons_text rest blank, List.flatten_cons, List.length_append]
      omega

/-- The texts of the paragraphs are stored, except blank ones. -/
theorem collect_paragraphs (text : Text) : ∃ collector, parsePlainText text = .ok collector ∧
    collector.blocks.map CanonicalBlock.text = stored (split blankLinesPattern (unixLines text)) ∧
    ∀ block ∈ collector.blocks, block.kind = .paragraph ∧ block.pageNumber = none := by
  have isParagraph : ∀ call ∈ plainTextCalls text, call.kind = .paragraph ∧ call.pageNumber = none := by
    intro call isCall
    obtain ⟨paragraph, -, rfl⟩ := List.mem_map.mp isCall
    exact ⟨rfl, rfl⟩
  have pages : ∀ call ∈ plainTextCalls text, ∀ page ∈ call.pageNumber, 1 ≤ page := by
    intro call isCall page hasPage
    rw [(isParagraph call isCall).2] at hasPage
    cases hasPage
  obtain ⟨collector, collected, related⟩ := BlockCollector.collect_blocks pages
  refine ⟨collector, collected, ?_, ?_⟩
  · have texts := map_eq_of_forall₂ (f := fun call => normalizeBlockText call.text)
      (g := CanonicalBlock.text) (fun _ _ found => found.elim fun _ stores => stores.text) related
    rw [texts, plainTextCalls, stored, List.filter_map, List.filter_map, List.map_map]
    rfl
  · intro block member
    obtain ⟨call, isCall, headings, stores⟩ := exists_of_mem_forall₂ related member
    have fromText := isParagraph call (List.mem_of_mem_filter isCall)
    exact ⟨stores.kind.trans fromText.1, stores.pageNumber.trans fromText.2⟩

theorem visible_stored (paragraphs : List Text) :
    visible (stored paragraphs).flatten = paragraphs.flatMap visible := by
  induction paragraphs with
  | nil => rfl
  | cons paragraph rest ih =>
    by_cases blank : visible paragraph = []
    · rw [stored_cons_blank rest blank, ih, List.flatMap_cons, blank, List.nil_append]
    · rw [stored_cons_text rest blank, List.flatten_cons, visible_append, ih, List.flatMap_cons,
        visible_normalizeBlockText]

section Parsed

variable {text : Text} {collector : BlockCollector}

theorem texts_of_parsed (parsed : parsePlainText text = .ok collector) :
    collector.blocks.map CanonicalBlock.text = stored (split blankLinesPattern (unixLines text)) := by
  obtain ⟨collector', parsed', texts, -⟩ := collect_paragraphs text
  rw [parsed'] at parsed
  cases parsed
  exact texts

/-- Nothing that is visible is lost. -/
theorem visible_of_parsed (parsed : parsePlainText text = .ok collector) :
    visible (collector.blocks.flatMap CanonicalBlock.text) = visible text := by
  rw [List.flatMap, texts_of_parsed parsed, visible_stored, visible_split, visible_unixLines]

theorem characters_of_parsed (parsed : parsePlainText text = .ok collector) :
    collector.characters ≤ text.length := by
  have consistent := BlockCollector.consistent_collect parsed
  rw [consistent.characters, List.flatMap, texts_of_parsed parsed]
  calc
    _ ≤ (split blankLinesPattern (unixLines text)).flatten.length := length_stored _
    _ ≤ (unixLines text).length := (split_sublist nonEmpty_blankLinesPattern _).length_le
    _ ≤ text.length := length_unixLines text

/-- The blocks are the runs of lines with text. -/
theorem runs_of_parsed (parsed : parsePlainText text = .ok collector) :
    collector.blocks.map CanonicalBlock.text =
      (textRuns (textLines text)).map fun run => normalizeBlockText (joinLines run) := by
  have nonempty : textLines text ≠ [] := List.splitOn_ne_nil _ _
  have oneLine : ∀ line ∈ textLines text, '\n' ∉ line := fun line isLine => (mem_splitOn isLine).1
  rw [texts_of_parsed parsed, ← joinLines_textLines, stored_split nonempty oneLine]

end Parsed

end SupportPilot.Rag
