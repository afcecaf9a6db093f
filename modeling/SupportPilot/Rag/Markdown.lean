import SupportPilot.Lib.Runs
import SupportPilot.Rag.BlockCollector

/-! # Markdown

`_parse_markdown`.  Two regular expressions say what a line is, and what they capture is
given by two functions that do not search (`captures_heading`, `captures_listItem`). -/

namespace SupportPilot.Rag

open Lib Lib.Regex

/-! ## The parser -/

/-- `.` -/
def isDot (c : Char) : Bool := c ≠ '\n'

def isHash (c : Char) : Bool := c = '#'

/-- `\s*#*\s*$`. -/
def closingPattern : Regex :=
  .seq (.star true (.char isSpace)) (.seq (.star true (.char isHash))
    (.seq (.star true (.char isSpace)) .atEnd))

/-- `_MARKDOWN_HEADING`: `^(#{1,6})\s+(.+?)\s*#*\s*$`. -/
def headingPattern : Regex :=
  .seq (.group 1 (.seq (.char isHash) (upTo (.char isHash) 5)))
    (.seq (plus (.char isSpace))
      (.seq (.group 2 (.seq (.char isDot) (.star false (.char isDot)))) closingPattern))

section Items

variable [DecimalChars]

def isBullet (c : Char) : Bool := c = '-' || c = '+' || c = '*'

/-- `[.)]`. -/
def isNumberEnd (c : Char) : Bool := c = '.' || c = ')'

/-- `(?:[-+*]|\d+[.)])`. -/
def markerPattern : Regex :=
  .alt (.char isBullet) (.seq (plus (.char isDecimal)) (.char isNumberEnd))

/-- `_MARKDOWN_LIST_ITEM`: `^\s*(?:[-+*]|\d+[.)])\s+(.+)$`. -/
def listItemPattern : Regex :=
  .seq (.star true (.char isSpace)) (.seq markerPattern
    (.seq (plus (.char isSpace)) (.seq (.group 1 (plus (.char isDot))) .atEnd)))

end Items

/-- `match.group(index)`. -/
def group (index : Nat) (captured : List (Nat × Text)) : Text :=
  ((captured.find? fun item => item.1 = index).map Prod.snd).getD []

/-- The paragraph that is being collected, and the calls of `add` so far. -/
structure MarkdownParser where
  paragraph : List Text
  calls : List AddCall

namespace MarkdownParser

/-- `flush`. -/
def flush (parser : MarkdownParser) : MarkdownParser :=
  if parser.paragraph = [] then parser
  else ⟨[], parser.calls ++ [⟨.paragraph, [' '].intercalate parser.paragraph, none, none⟩]⟩

variable [DecimalChars]

/-- A round of the loop of `_parse_markdown`. -/
def feedLine (parser : MarkdownParser) (rawLine : Text) : MarkdownParser :=
  let line := rstrip rawLine
  let heading := captures headingPattern line
  let item := captures listItemPattern line
  match heading, item with
  | some heading, _ =>
    let flushed := parser.flush
    { flushed with calls := flushed.calls ++
        [⟨.heading, group 2 heading, none, some (group 1 heading).length⟩] }
  | none, some item =>
    let flushed := parser.flush
    { flushed with calls := flushed.calls ++ [⟨.listItem, group 1 item, none, none⟩] }
  | none, none =>
    if strip line = [] then parser.flush
    else { parser with paragraph := parser.paragraph ++ [strip line] }

end MarkdownParser

section Parser

variable [DecimalChars]

/-- The calls of `_parse_markdown`. -/
def markdownCalls (text : Text) : List AddCall :=
  (((unixLines text).splitOn '\n').foldl MarkdownParser.feedLine ⟨[], []⟩).flush.calls

/-- `_parse_markdown`. -/
def parseMarkdown (text : Text) : Except PyError BlockCollector :=
  BlockCollector.collect (markdownCalls text)

end Parser

/-! ## Headings -/

/-- What closes a heading. -/
def Closing (text : Text) : Prop :=
  ∃ a b c, text = a ++ (b ++ c) ∧ (∀ x ∈ a, isSpace x = true) ∧ (∀ x ∈ b, isHash x = true) ∧
    ∀ x ∈ c, isSpace x = true

theorem mem_run_closing {text : Text} {groups : List (Nat × Text)} (oneLine : '\n' ∉ text)
    {d : Cursor} : d ∈ run closingPattern ⟨text, groups⟩ ↔ Closing text ∧ d = ⟨[], groups⟩ := by
  simp only [closingPattern, mem_run_seq_star]
  constructor
  · intro found
    obtain ⟨a, -, rfl, spaces, b, -, rfl, hashes, c, rest, rfl, spaces', ends⟩ := found
    have final : rest = [] := by
      by_contra more
      simp only [run, more, false_or] at ends
      split at ends
      next newline => simp [newline] at oneLine
      · cases ends
    subst final
    simp only [run, true_or, if_true, List.mem_singleton] at ends
    exact ⟨⟨a, b, c, by simp, spaces, hashes, spaces'⟩, ends⟩
  · intro found
    obtain ⟨⟨a, b, c, rfl, spaces, hashes, spaces'⟩, rfl⟩ := found
    exact ⟨a, b ++ c, rfl, spaces, b, c, rfl, hashes, c, [], by simp, spaces', by simp [run]⟩

theorem head?_closing {text : Text} {groups : List (Nat × Text)} (oneLine : '\n' ∉ text)
    (closing : Closing text) :
    (run closingPattern ⟨text, groups⟩).head? = some ⟨[], groups⟩ := by
  have found : (⟨[], groups⟩ : Cursor) ∈ run closingPattern ⟨text, groups⟩ :=
    (mem_run_closing oneLine).mpr ⟨closing, rfl⟩
  cases shape : run closingPattern ⟨text, groups⟩ with
  | nil =>
    rw [shape] at found
    cases found
  | cons d others =>
    have member : d ∈ run closingPattern ⟨text, groups⟩ := by simp [shape]
    rw [((mem_run_closing oneLine).mp member).2]
    rfl

theorem run_closing_eq_nil {text : Text} {groups : List (Nat × Text)} (oneLine : '\n' ∉ text)
    (open' : ¬ Closing text) : run closingPattern ⟨text, groups⟩ = [] := by
  rw [List.eq_nil_iff_forall_not_mem]
  intro d member
  exact open' ((mem_run_closing oneLine).mp member).1

/-- The text of a heading: without the run of `#` at its end and the spaces before that, if
something is left. -/
def headingText (text : Text) : Text :=
  let kept := (text.rdropWhile isHash).rdropWhile isSpace
  if kept = [] then text.take 1 else kept

/-- A text without whitespace at either end. -/
structure Trimmed (text : Text) : Prop where
  starts : ∀ c ∈ text.head?, isSpace c = false
  ends : ∀ c ∈ text.getLast?, isSpace c = false

theorem isSpace_hash {c : Char} (hash : isHash c = true) : isSpace c = false := by
  rw [of_decide_eq_true hash]
  rfl

/-- What closes a trimmed text ends with the run of `#` at its end. -/
theorem Closing.eq_append {text : Text} (closing : Closing text)
    (ends : ∀ c ∈ text.getLast?, isSpace c = false) :
    ∃ a b, text = a ++ b ∧ (∀ x ∈ a, isSpace x = true) ∧ ∀ x ∈ b, isHash x = true := by
  obtain ⟨a, b, c, rfl, spaces, hashes, spaces'⟩ := closing
  cases c using List.reverseRecOn with
  | nil => exact ⟨a, b, by simp, spaces, hashes⟩
  | append_singleton c x _ =>
    have space := spaces' x (by simp)
    rw [ends x (by simp)] at space
    cases space

/-- Nothing shorter than the text of a heading can be taken. -/
theorem not_closing {t u v : Text} {x : Char} (notSpace : isSpace x = false)
    (ends : ∀ c ∈ (t ++ x :: (u ++ v)).getLast?, isSpace c = false)
    (spaces : ∀ c ∈ u, isSpace c = true) (direct : u = [] → isHash x = false) :
    ¬ Closing (t ++ x :: (u ++ v)) := by
  intro closing
  obtain ⟨a, b, shape, before, hashes⟩ := closing.eq_append ends
  have inside : ∃ w, b = w ++ x :: (u ++ v) := by
    obtain ⟨w, rfl, rest⟩ | ⟨w, -, rest⟩ := List.append_eq_append_iff.mp shape
    · cases w with
      | nil => exact ⟨[], rest.symm⟩
      | cons y w =>
        -- the last character of the text is no space
        obtain ⟨rfl, -⟩ := List.cons.inj rest
        rw [before x (by simp)] at notSpace
        cases notSpace
    · exact ⟨w, rest⟩
  obtain ⟨w, rfl⟩ := inside
  cases u with
  | nil =>
    have hash := hashes x (by simp)
    rw [direct rfl] at hash
    cases hash
  | cons y u =>
    have space := spaces y List.mem_cons_self
    rw [isSpace_hash (hashes y (by simp))] at space
    cases space

theorem rdropWhile_isHash_eq_nil {text : Text} (trimmed : Trimmed text)
    (none : (text.rdropWhile isHash).rdropWhile isSpace = []) : text.rdropWhile isHash = [] := by
  have spaces := List.rdropWhile_eq_nil_iff.mp none
  cases shape : text.rdropWhile isHash with
  | nil => rfl
  | cons c rest =>
    have isPrefix := List.rdropWhile_prefix isHash text
    obtain ⟨behind, whole⟩ := shape ▸ isPrefix
    have space := spaces c (by simp [shape])
    rw [trimmed.starts c (by rw [← whole]; rfl)] at space
    cases space

/-- A trimmed text is the text of the heading and what closes it, and the least such. -/
theorem headingText_spec {text : Text} (trimmed : Trimmed text) (some : text ≠ []) :
    ∃ rest, text = headingText text ++ rest ∧ Closing rest ∧ headingText text ≠ [] ∧
      ∀ t s, headingText text = t ++ s → t ≠ [] → s ≠ [] → ¬ Closing (s ++ rest) := by
  have hashes := List.rdropWhile_append_rtakeWhile (p := isHash) (l := text)
  have spaces := List.rdropWhile_append_rtakeWhile (p := isSpace) (l := text.rdropWhile isHash)
  have isClosing : Closing ((text.rdropWhile isHash).rtakeWhile isSpace ++ text.rtakeWhile isHash) :=
    ⟨_, text.rtakeWhile isHash, [], by rw [List.append_nil], fun _ => List.mem_rtakeWhile_imp,
      fun _ => List.mem_rtakeWhile_imp, by simp⟩
  by_cases kept : (text.rdropWhile isHash).rdropWhile isSpace = []
  · -- the text is a run of `#`
    have noSpaces := rdropWhile_isHash_eq_nil trimmed kept
    have all := List.rdropWhile_eq_nil_iff.mp noSpaces
    have shape : headingText text = text.take 1 := by simp [headingText, kept]
    cases text with
    | nil => exact absurd rfl some
    | cons c rest =>
      rw [shape]
      refine ⟨rest, rfl, ⟨[], rest, [], by simp, by simp, fun x member => ?_, by simp⟩,
        List.cons_ne_nil _ _, ?_⟩
      · exact all x (.tail _ member)
      · intro t s whole notEmpty notEmpty'
        have size := congrArg List.length whole
        have less := List.length_pos_of_ne_nil notEmpty
        have less' := List.length_pos_of_ne_nil notEmpty'
        simp only [List.take_succ_cons, List.take_zero, List.length_cons, List.length_nil,
          List.length_append] at size
        omega
  · have shape : headingText text = (text.rdropWhile isHash).rdropWhile isSpace := by
      simp [headingText, kept]
    rw [shape]
    have whole : text = (text.rdropWhile isHash).rdropWhile isSpace ++
        ((text.rdropWhile isHash).rtakeWhile isSpace ++ text.rtakeWhile isHash) := by
      rw [← List.append_assoc, spaces, hashes]
    refine ⟨_, whole, isClosing, kept, ?_⟩
    intro t s split notEmpty notEmpty'
    have last := List.rdropWhile_last_not isSpace _ kept
    obtain ⟨s, x, rfl⟩ := (List.eq_nil_or_concat s).resolve_left notEmpty'
    have shape' : s.concat x ++ ((text.rdropWhile isHash).rtakeWhile isSpace ++
        text.rtakeWhile isHash) = s ++ x :: ((text.rdropWhile isHash).rtakeWhile isSpace ++
          text.rtakeWhile isHash) := by simp
    rw [split, List.concat_eq_append] at whole
    rw [shape']
    -- a longer closing part would start inside the text that is kept
    apply not_closing
    · simpa [split] using last
    · intro c member
      apply trimmed.ends c
      rw [whole, List.append_assoc, List.append_assoc, List.singleton_append,
        List.getLast?_append_of_ne_nil _ (by simp)]
      exact member
    · exact fun _ => List.mem_rtakeWhile_imp
    · intro direct
      rw [direct, List.append_nil, split] at spaces
      have nonempty : text.rdropWhile isHash ≠ [] := by simp [← spaces]
      have notHash := List.rdropWhile_last_not isHash text nonempty
      simpa [← spaces] using notHash

theorem isDot_of_oneLine {text : Text} (oneLine : '\n' ∉ text) : ∀ x ∈ text, isDot x = true := by
  intro x member
  rw [isDot, decide_eq_true_eq]
  rintro rfl
  exact oneLine member

theorem head?_headingText {text : Text} (groups : List (Nat × Text)) (oneLine : '\n' ∉ text)
    (trimmed : Trimmed text) (some : text ≠ []) :
    (run (.seq (.group 2 (.seq (.char isDot) (.star false (.char isDot)))) closingPattern)
      ⟨text, groups⟩).head? = Option.some ⟨[], (2, headingText text) :: groups⟩ := by
  obtain ⟨rest, whole, closing, notEmpty, least⟩ := headingText_spec trimmed some
  have dots := isDot_of_oneLine oneLine
  have oneLine' : '\n' ∉ rest := fun member => oneLine (by rw [whole]; simp [member])
  cases shape : headingText text with
  | nil => exact absurd shape notEmpty
  | cons c s =>
    rw [shape] at whole least
    -- the captured cursor behind a part of the text
    let f (d : Cursor) : List Cursor := run closingPattern
      ⟨d.rest, (2, text.take (text.length - d.rest.length)) :: d.groups⟩
    have unfolded : run (.seq (.group 2 (.seq (.char isDot) (.star false (.char isDot))))
        closingPattern) ⟨text, groups⟩ = (run (.star false (.char isDot)) ⟨s ++ rest, groups⟩).flatMap f := by
      have first : isDot c = true := dots c (by rw [whole]; simp)
      have step : run (.seq (.char isDot) (.star false (.char isDot))) ⟨text, groups⟩ =
          run (.star false (.char isDot)) ⟨s ++ rest, groups⟩ := by
        rw [whole]
        simp [run, first]
      rw [run_seq, run_group, step, List.flatMap_map]
    have captured : text.take (text.length - rest.length) = c :: s := by
      rw [whole, List.length_append, Nat.add_sub_cancel, List.take_left]
    have found : (f ⟨rest, groups⟩).head? = Option.some ⟨[], (2, c :: s) :: groups⟩ := by
      rw [← captured]
      exact head?_closing oneLine' closing
    rw [unfolded, head?_lazy, found]
    · intro x member
      exact dots x (by rw [whole]; simp [member])
    · intro v isSuffix more
      obtain ⟨u, rfl⟩ := isSuffix
      apply run_closing_eq_nil
      · intro member
        exact oneLine (by rw [whole]; simp only [List.mem_append, List.mem_cons] at member ⊢; tauto)
      · exact least (c :: u) v rfl (List.cons_ne_nil _ _) more
    · intro none
      rw [none] at found
      cases found

/-- The `#` of a heading line, and what follows the whitespace behind them. -/
def headingLine (line : Text) : Option (Text × Text) :=
  let hashes := line.takeWhile isHash
  let rest := line.dropWhile isHash
  if hashes ≠ [] ∧ hashes.length ≤ 6 ∧ rest.head?.any isSpace = true then
    some (hashes, rest.dropWhile isSpace)
  else none

theorem getLast?_suffix {u v : Text} {c : Char} (member : c ∈ v.getLast?) : c ∈ (u ++ v).getLast? := by
  cases v with
  | nil => cases member
  | cons d v =>
    rw [List.getLast?_append_of_ne_nil _ (by simp)]
    exact member

/-- What is left of a line behind the leading whitespace. -/
theorem trimmed_dropWhile {text : Text} (ends : ∀ c ∈ text.getLast?, isSpace c = false) :
    Trimmed (text.dropWhile isSpace) where
  starts c first := by
    cases shape : text.dropWhile isSpace with
    | nil => simp [shape] at first
    | cons d rest =>
      rw [shape] at first
      obtain rfl : d = c := by simpa using first
      exact head_dropWhile shape
  ends c last := by
    apply ends c
    rw [← List.takeWhile_append_dropWhile (p := isSpace) (l := text)]
    exact getLast?_suffix last

theorem dropWhile_ne_nil {text : Text} (some : text ≠ [])
    (ends : ∀ c ∈ text.getLast?, isSpace c = false) : text.dropWhile isSpace ≠ [] := by
  intro blank
  have all := List.dropWhile_eq_nil_iff.mp blank
  have last := ends _ (List.getLast?_eq_some_getLast some)
  rw [all _ (List.getLast_mem some)] at last
  cases last

/-- A line does not end with whitespace, so there is text behind a gap in it. -/
theorem trimmed_behind_gap {line rest : Text} (ends : ∀ c ∈ line.getLast?, isSpace c = false)
    (isSuffix : rest <:+ line) (space : rest.head?.any isSpace = true) :
    Trimmed (rest.dropWhile isSpace) ∧ rest.dropWhile isSpace ≠ [] := by
  obtain ⟨before, rfl⟩ := isSuffix
  have ends' : ∀ c ∈ rest.getLast?, isSpace c = false := fun c last =>
    ends c (getLast?_suffix last)
  have some : rest ≠ [] := by
    intro nothing
    rw [nothing] at space
    cases space
  exact ⟨trimmed_dropWhile ends', dropWhile_ne_nil some ends'⟩

/-- Whitespace before what an expression matches. -/
theorem head?_gap {after : Regex} {text : Text} {groups : List (Nat × Text)} {d : Cursor}
    (found : (run after ⟨text.dropWhile isSpace, groups⟩).head? = some d)
    (space : text.head?.any isSpace = true) :
    (run (.seq (plus (.char isSpace)) after) ⟨text, groups⟩).head? = some d := by
  cases text with
  | nil => cases space
  | cons c rest =>
    have space : isSpace c = true := by simpa using space
    have whole := List.takeWhile_append_dropWhile (p := isSpace) (l := rest)
    rw [List.dropWhile_cons, if_pos space] at found
    rw [run_plus_char space, ← whole]
    exact head_greedy (fun _ => List.mem_takeWhile_imp) (stops_dropWhile isSpace rest) found

theorem run_gap_eq_nil (after : Regex) {text : Text} (groups : List (Nat × Text))
    (noSpace : text.head?.any isSpace = false) :
    run (.seq (plus (.char isSpace)) after) ⟨text, groups⟩ = [] := by
  apply run_plus_char_end
  intro x first
  rw [Option.mem_def.mp first] at noSpace
  exact noSpace

/-- What `headingPattern` matches behind the hashes. -/
def headingBody : Regex :=
  .seq (plus (.char isSpace))
    (.seq (.group 2 (.seq (.char isDot) (.star false (.char isDot)))) closingPattern)

/-- The body does not match before another `#`, so the hashes are the longest run of them. -/
theorem run_headingPattern {c : Char} {u rest : Text} (hash : isHash c = true)
    (hashes : ∀ x ∈ u, isHash x = true) (stops : ∀ x ∈ rest.head?, isHash x = false) :
    run headingPattern ⟨c :: (u ++ rest), []⟩ =
      if u.length ≤ 5 then run headingBody ⟨rest, [(1, c :: u)]⟩ else [] := by
  let line := c :: (u ++ rest)
  let f (d : Cursor) : List Cursor :=
    run headingBody ⟨d.rest, (1, line.take (line.length - d.rest.length)) :: d.groups⟩
  have step : run (.seq (.char isHash) (upTo (.char isHash) 5)) ⟨line, []⟩ =
      run (upTo (.char isHash) 5) ⟨u ++ rest, []⟩ := by
    simp [run, hash, line]
  have fails : ∀ x text, isHash x = true → f ⟨x :: text, []⟩ = [] := by
    intro x text isHash'
    apply run_gap_eq_nil
    simp [isSpace_hash isHash']
  have captured : line.take (line.length - rest.length) = c :: u := by
    simp only [line, ← List.cons_append, List.length_append, Nat.add_sub_cancel, List.take_left]
  rw [headingPattern, run_seq, run_group, step, List.flatMap_map, ← captured]
  exact flatMap_upTo (f := f) hashes stops fails

/-- What the expression for headings captures. -/
theorem captures_heading {line : Text} (oneLine : '\n' ∉ line)
    (ends : ∀ c ∈ line.getLast?, isSpace c = false) :
    captures headingPattern line =
      (headingLine line).map fun heading => [(2, headingText heading.2), (1, heading.1)] := by
  have whole := List.takeWhile_append_dropWhile (p := isHash) (l := line)
  have stops := stops_dropWhile isHash line
  have isSuffix := List.dropWhile_suffix isHash (l := line)
  have hashes : ∀ x ∈ line.takeWhile isHash, isHash x = true := fun _ => List.mem_takeWhile_imp
  rw [captures, headingLine]
  generalize line.dropWhile isHash = rest at whole stops isSuffix ⊢
  cases shape : line.takeWhile isHash with
  | nil =>
    -- the line does not start with `#`
    rw [shape, List.nil_append] at whole
    have none : run headingPattern ⟨line, []⟩ = [] := by
      cases line with
      | nil => rfl
      | cons c rest => simp [headingPattern, run, stops c (by rw [whole]; rfl)]
    simp [none]
  | cons c u =>
    rw [shape, List.forall_mem_cons] at hashes
    rw [shape, List.cons_append] at whole
    have unfolded := run_headingPattern hashes.1 hashes.2 stops
    rw [whole] at unfolded
    rw [unfolded]
    by_cases few : u.length ≤ 5
    · cases space : rest.head?.any isSpace with
      | false =>
        have none : run headingBody ⟨rest, [(1, c :: u)]⟩ = [] := run_gap_eq_nil _ _ space
        simp [few, none]
      | true =>
        obtain ⟨trimmed, some⟩ := trimmed_behind_gap ends isSuffix space
        have oneLine' : '\n' ∉ rest.dropWhile isSpace := fun member =>
          oneLine (isSuffix.subset ((List.dropWhile_suffix isSpace).subset member))
        have found := head?_headingText [(1, c :: u)] oneLine' trimmed some
        rw [if_pos few, headingBody, head?_gap found space]
        rw [if_pos ⟨List.cons_ne_nil c u, Nat.succ_le_succ few, rfl⟩]
        rfl
    · rw [if_neg few]
      rw [if_neg fun heading => few (Nat.le_of_succ_le_succ heading.2.1)]
      rfl

/-! ## List items -/

section Items

variable [DecimalChars]

/-- What follows the marker of a list item. -/
def afterMarker : Text → Option Text
  | [] => none
  | c :: rest =>
    if isBullet c then some rest
    else if isDecimal c then
      match rest.dropWhile isDecimal with
      | d :: rest => if isNumberEnd d then some rest else none
      | [] => none
    else none

/-- The text of a list item. -/
def listItem (line : Text) : Option Text :=
  (afterMarker (line.dropWhile isSpace)).bind fun rest =>
    if rest.head?.any isSpace then some (rest.dropWhile isSpace) else none

theorem afterMarker_suffix {text rest : Text} (marked : afterMarker text = some rest) :
    rest <:+ text := by
  cases text with
  | nil => cases marked
  | cons c text =>
    have isSuffix := (List.dropWhile_suffix isDecimal (l := text)).trans (List.suffix_cons c text)
    rw [afterMarker] at marked
    split at marked
    · rw [← Option.some.inj marked]
      exact List.suffix_cons c text
    · split at marked
      · split at marked
        next d others shape =>
          split at marked
          · rw [← Option.some.inj marked]
            exact (List.suffix_cons d others).trans (shape ▸ isSuffix)
          · cases marked
        · cases marked
      · cases marked

theorem isDecimal_bullet {c : Char} (bullet : isBullet c = true) : isDecimal c = false := by
  simp only [isBullet, Bool.or_eq_true, decide_eq_true_eq] at bullet
  obtain (rfl | rfl) | rfl := bullet <;> rw [DecimalChars.ascii _ (by decide)] <;> decide

theorem isDecimal_numberEnd {c : Char} (numberEnd : isNumberEnd c = true) : isDecimal c = false := by
  simp only [isNumberEnd, Bool.or_eq_true, decide_eq_true_eq] at numberEnd
  obtain rfl | rfl := numberEnd <;> rw [DecimalChars.ascii _ (by decide)] <;> decide

theorem run_numbered_eq_nil {c : Char} {rest : Text} {groups : List (Nat × Text)}
    (noDigit : isDecimal c = false) :
    run (.seq (plus (.char isDecimal)) (.char isNumberEnd)) ⟨c :: rest, groups⟩ = [] :=
  run_plus_char_end (by simpa using noDigit)

theorem run_marker (text : Text) (groups : List (Nat × Text)) :
    run markerPattern ⟨text, groups⟩ = ((afterMarker text).map fun rest => ⟨rest, groups⟩).toList := by
  cases text with
  | nil => simp [markerPattern, run, plus, afterMarker]
  | cons c rest =>
    rw [markerPattern, run, afterMarker]
    cases bullet : isBullet c with
    | true =>
      rw [run_numbered_eq_nil (isDecimal_bullet bullet)]
      simp [run, bullet]
    | false =>
      have first : run (.char isBullet) ⟨c :: rest, groups⟩ = [] := by simp [run, bullet]
      rw [first, List.nil_append, if_neg Bool.false_ne_true]
      cases digit : isDecimal c with
      | false =>
        rw [run_numbered_eq_nil digit]
        simp
      | true =>
        have whole := List.takeWhile_append_dropWhile (p := isDecimal) (l := rest)
        -- a digit does not end the number
        have fails : ∀ x text, isDecimal x = true →
            run (.char isNumberEnd) ⟨x :: text, groups⟩ = [] := by
          intro x text digit
          cases numberEnd : isNumberEnd x with
          | false => simp [run, numberEnd]
          | true =>
            rw [isDecimal_numberEnd numberEnd] at digit
            cases digit
        have greedy := flatMap_greedy (f := run (.char isNumberEnd))
          (u := rest.takeWhile isDecimal) (fun _ => List.mem_takeWhile_imp)
          (stops_dropWhile isDecimal rest) fails
        rw [run_plus_char digit, run_seq, ← whole, greedy, whole, if_pos rfl]
        cases rest.dropWhile isDecimal with
        | nil => rfl
        | cons d rest => cases numberEnd : isNumberEnd d <;> simp [run, numberEnd]

omit [DecimalChars] in
theorem head?_itemText {text : Text} (groups : List (Nat × Text)) (oneLine : '\n' ∉ text)
    (some : text ≠ []) : (run (.seq (.group 1 (plus (.char isDot))) .atEnd) ⟨text, groups⟩).head? =
      Option.some ⟨[], (1, text) :: groups⟩ := by
  have dots := isDot_of_oneLine oneLine
  have all : (run (plus (.char isDot)) ⟨text, groups⟩).head? = Option.some ⟨[], groups⟩ := by
    cases text with
    | nil => exact absurd rfl some
    | cons c rest =>
      have head : (run (.star true (.char isDot)) ⟨rest ++ [], groups⟩).head? =
          Option.some ⟨[], groups⟩ :=
        head?_run_star (fun x member => dots x (.tail _ member)) (by simp)
      rw [List.append_nil] at head
      simpa [plus, run_seq, run, dots c List.mem_cons_self] using head
  cases shape : run (plus (.char isDot)) ⟨text, groups⟩ with
  | nil =>
    rw [shape] at all
    cases all
  | cons d others =>
    rw [shape] at all
    obtain rfl := Option.some.inj all
    rw [run_seq, run_group, shape]
    simp [run]

/-- What the expression for list items captures. -/
theorem captures_listItem {line : Text} (oneLine : '\n' ∉ line)
    (ends : ∀ c ∈ line.getLast?, isSpace c = false) :
    captures listItemPattern line = (listItem line).map fun text => [(1, text)] := by
  have whole := List.takeWhile_append_dropWhile (p := isSpace) (l := line)
  let after := Regex.seq (plus (.char isSpace)) (.seq (.group 1 (plus (.char isDot))) .atEnd)
  have fails : ∀ x text, isSpace x = true →
      run (.seq markerPattern after) ⟨x :: text, []⟩ = [] := by
    intro x text space
    have bullet : isBullet x = false := by
      cases bullet : isBullet x with
      | false => rfl
      | true =>
        simp only [isBullet, Bool.or_eq_true, decide_eq_true_eq] at bullet
        obtain (rfl | rfl) | rfl := bullet <;> cases space
    have digit : isDecimal x = false := by
      cases digit : isDecimal x with
      | false => rfl
      | true =>
        rw [DecimalChars.not_space x digit] at space
        cases space
    rw [run_seq, run_marker]
    simp [afterMarker, bullet, digit]
  have unfolded : run listItemPattern ⟨line, []⟩ =
      ((afterMarker (line.dropWhile isSpace)).map fun rest => ⟨rest, []⟩).toList.flatMap
        (run after) := by
    have greedy := flatMap_greedy (f := run (.seq markerPattern after))
      (u := line.takeWhile isSpace) (fun _ => List.mem_takeWhile_imp)
      (stops_dropWhile isSpace line) fails
    rw [whole] at greedy
    rw [listItemPattern, run_seq, greedy, run_seq, run_marker]
  rw [captures, unfolded, listItem]
  cases marked : afterMarker (line.dropWhile isSpace) with
  | none => rfl
  | some rest =>
    have isSuffix : rest <:+ line := (afterMarker_suffix marked).trans (List.dropWhile_suffix isSpace)
    simp only [Option.map_some, Option.toList_some, List.flatMap_cons, List.flatMap_nil,
      List.append_nil, Option.bind_some]
    cases space : rest.head?.any isSpace with
    | false =>
      rw [run_gap_eq_nil _ _ space]
      rfl
    | true =>
      have some := (trimmed_behind_gap ends isSuffix space).2
      have oneLine' : '\n' ∉ rest.dropWhile isSpace := fun member =>
        oneLine (isSuffix.subset ((List.dropWhile_suffix isSpace).subset member))
      rw [head?_gap (head?_itemText [] oneLine' some) space]
      rfl

end Items

end SupportPilot.Rag
