import Mathlib.Algebra.Order.BigOperators.Group.List
import Mathlib.Algebra.Order.Group.Nat
import SupportPilot.Rag.Markdown

/-! # The blocks of a Markdown text

Every run of paragraph lines, every heading and every list item becomes a block
(`markdownCalls_eq`).  Nothing else of the text is lost than markers and closing runs of `#`,
unless such a run directly follows the text of its heading (`parseMarkdown_exact`). -/

namespace SupportPilot.Rag

open Lib Lib.Regex

section Blocks

variable [DecimalChars]

/-! ## Lines -/

/-- The lines of a text, without the whitespace at their ends. -/
def markdownLines (text : Text) : List Text := ((unixLines text).splitOn '\n').map rstrip

/-- A line that is no heading, no list item and not blank. -/
def isParagraph (line : Text) : Bool :=
  (headingLine line).isNone && (listItem line).isNone && !(strip line).isEmpty

/-- The call for a run of lines. -/
def runCall : List Text → Option AddCall
  | [] => none
  | line :: more =>
    match headingLine line, listItem line with
    | some (hashes, text), _ => some ⟨.heading, headingText text, none, some hashes.length⟩
    | none, some text => some ⟨.listItem, text, none, none⟩
    | none, none =>
      if strip line = [] then none
      else some ⟨.paragraph, [' '].intercalate ((line :: more).map strip), none, none⟩

theorem runCall_paragraph {line : Text} (more : List Text) (paragraph : isParagraph line = true) :
    runCall (line :: more) =
      some ⟨.paragraph, [' '].intercalate ((line :: more).map strip), none, none⟩ := by
  simp only [isParagraph, Bool.and_eq_true, Option.isNone_iff_eq_none] at paragraph
  obtain ⟨⟨noHeading, noItem⟩, text⟩ := paragraph
  have nonblank : strip line ≠ [] := by simpa using text
  simp only [runCall, noHeading, noItem, if_neg nonblank]

/-- What a line does to the parser. -/
theorem feedLine_eq (parser : MarkdownParser) {raw : Text} (oneLine : '\n' ∉ raw) :
    parser.feedLine raw =
      if isParagraph (rstrip raw) then
        { parser with paragraph := parser.paragraph ++ [strip (rstrip raw)] }
      else { parser.flush with calls := parser.flush.calls ++ (runCall [rstrip raw]).toList } := by
  rw [MarkdownParser.feedLine, captures_heading (fun member => oneLine (rstrip_subset raw member)) (rstrip_ends raw),
    captures_listItem (fun member => oneLine (rstrip_subset raw member)) (rstrip_ends raw)]
  rw [isParagraph, runCall]
  cases heading : headingLine (rstrip raw) with
  | some heading => simp [group]
  | none =>
    cases item : listItem (rstrip raw) with
    | some item => simp [group]
    | none =>
      by_cases blank : strip (rstrip raw) = []
      · simp [blank]
      · simp [blank]

/-- Flushing stores the paragraph lines as one run. -/
theorem calls_flush {lines : List Text} (calls : List AddCall)
    (paragraphs : ∀ line ∈ lines, isParagraph line = true) :
    MarkdownParser.flush ⟨lines.map strip, calls⟩ =
      ⟨[], calls ++ (runs isParagraph lines).filterMap runCall⟩ := by
  cases lines with
  | nil => simp [MarkdownParser.flush]
  | cons line more =>
    have whole : runs isParagraph ((line :: more) ++ []) =
        (line :: more) :: runs isParagraph [] :=
      runs_append (List.cons_ne_nil line more) paragraphs (by simp)
    rw [List.append_nil] at whole
    simp [MarkdownParser.flush, whole, runCall_paragraph more (paragraphs line List.mem_cons_self)]

/-- The parser with a buffer of paragraph lines. -/
theorem calls_foldl {raws before : List Text} (calls : List AddCall)
    (oneLine : ∀ raw ∈ raws, '\n' ∉ raw) (paragraphs : ∀ line ∈ before, isParagraph line = true) :
    (raws.foldl MarkdownParser.feedLine ⟨before.map strip, calls⟩).flush.calls =
      calls ++ (runs isParagraph (before ++ raws.map rstrip)).filterMap runCall := by
  induction raws generalizing before calls with
  | nil => simp [calls_flush calls paragraphs]
  | cons raw raws ih =>
    have oneLines : ∀ raw ∈ raws, '\n' ∉ raw := fun raw member => oneLine raw (.tail _ member)
    rw [List.foldl_cons, feedLine_eq _ (oneLine raw List.mem_cons_self), List.map_cons]
    cases paragraph : isParagraph (rstrip raw) with
    | true =>
      have more : ∀ line ∈ before ++ [rstrip raw], isParagraph line = true := by
        intro line member
        obtain earlier | last := List.mem_append.mp member
        · exact paragraphs line earlier
        · rw [List.mem_singleton.mp last, paragraph]
      simpa using ih calls oneLines more
    | false =>
      -- the buffer is flushed, and the line has its own call
      rw [if_neg Bool.false_ne_true, calls_flush calls paragraphs, runs_append_cons paragraph]
      have none : ∀ line ∈ ([] : List Text), isParagraph line = true := nofun
      have next := ih (calls ++ (runs isParagraph before).filterMap runCall ++
        (runCall [rstrip raw]).toList) oneLines none
      simp only [List.map_nil, List.nil_append] at next
      rw [next, List.filterMap_append, List.filterMap_cons]
      cases runCall [rstrip raw] <;> simp

/-- Each run of lines has its call. -/
theorem markdownCalls_eq (text : Text) :
    markdownCalls text = (runs isParagraph (markdownLines text)).filterMap runCall := by
  have oneLine : ∀ raw ∈ (unixLines text).splitOn '\n', '\n' ∉ raw := fun raw member =>
    (mem_splitOn member).1
  have none : ∀ line ∈ ([] : List Text), isParagraph line = true := nofun
  have calls := calls_foldl [] oneLine none
  simpa [markdownCalls, markdownLines] using calls

/-! ## The text -/

/-- The text of a heading without a closing run of `#`, if whitespace separates the two. -/
def closedHeading (text : Text) : Text :=
  let before := text.rdropWhile isHash
  let kept := before.rdropWhile isSpace
  if kept ≠ [] ∧ kept ≠ before then kept else text

/-- What is left of a line without the markers. -/
def content (line : Text) : Text :=
  match headingLine line, listItem line with
  | some (_, text), _ => closedHeading text
  | none, some text => text
  | none, none => line

/-- What the parser keeps of a line. -/
def keptText (line : Text) : Text :=
  match headingLine line, listItem line with
  | some (_, text), _ => headingText text
  | none, some text => text
  | none, none => line

/-- No `#` directly follows the text of the heading at its end, unless it is all there is. -/
def Separated (text : Text) : Prop :=
  text.rdropWhile isHash = text ∨ (∃ c ∈ (text.rdropWhile isHash).getLast?, isSpace c = true) ∨
    text = ['#']

omit [DecimalChars] in
theorem visible_hashes {text : Text} (hashes : ∀ c ∈ text, isHash c = true) : visible text = text := by
  rw [visible, List.filter_eq_self]
  intro c member
  rw [isSpace_hash (hashes c member)]
  rfl

omit [DecimalChars] in
theorem headingText_prefix (text : Text) : headingText text <+: closedHeading text := by
  have isPrefix := (List.rdropWhile_prefix isSpace (text.rdropWhile isHash)).trans
    (List.rdropWhile_prefix isHash text)
  rw [headingText, closedHeading]
  by_cases none : (text.rdropWhile isHash).rdropWhile isSpace = []
  · rw [if_pos none, if_neg fun both => both.1 none]
    exact List.take_prefix 1 text
  · rw [if_neg none]
    split
    · exact List.prefix_refl _
    · exact isPrefix

omit [DecimalChars] in
/-- The parser keeps the text of a heading exactly when its closing run is separated from it. -/
theorem visible_headingText_iff {text : Text} (trimmed : Trimmed text) (some : text ≠ []) :
    visible (headingText text) = visible (closedHeading text) ↔ Separated text := by
  have whole := List.rdropWhile_append_rtakeWhile (p := isHash) (l := text)
  rw [headingText, closedHeading, Separated]
  by_cases none : (text.rdropWhile isHash).rdropWhile isSpace = []
  · -- the text is a run of `#`
    have hashes := rdropWhile_isHash_eq_nil trimmed none
    have all := List.rdropWhile_eq_nil_iff.mp hashes
    have all' : ∀ c ∈ text.take 1, isHash c = true := fun c member =>
      all c (List.mem_of_mem_take member)
    rw [if_pos none, if_neg fun both => both.1 none, visible_hashes all, visible_hashes all', hashes]
    cases text with
    | nil => exact absurd rfl some
    | cons c rest =>
      have hash : c = '#' := of_decide_eq_true (all c List.mem_cons_self)
      subst hash
      cases rest <;> simp
  · rw [if_neg none]
    by_cases same : (text.rdropWhile isHash).rdropWhile isSpace = text.rdropWhile isHash
    · -- the closing run directly follows the text
      have notSpace : ¬ ∃ c ∈ (text.rdropWhile isHash).getLast?, isSpace c = true := by
        intro found
        obtain ⟨c, last, space⟩ := found
        have ends := rstrip_ends (text.rdropWhile isHash) c
        rw [rstrip, same] at ends
        rw [ends last] at space
        cases space
      have notHash : text ≠ ['#'] := by
        rintro rfl
        exact none rfl
      rw [if_neg fun both => both.2 same, same]
      simp only [notSpace, notHash, or_false]
      constructor
      · intro equal
        have hashes := visible_hashes fun c (member : c ∈ text.rtakeWhile isHash) =>
          List.mem_rtakeWhile_imp member
        have behind : text.rtakeWhile isHash = [] := by
          have parts := visible_append (text.rdropWhile isHash) (text.rtakeWhile isHash)
          rw [whole, ← equal, hashes] at parts
          simpa using parts
        rw [behind, List.append_nil] at whole
        exact whole
      · intro equal
        rw [equal]
    · -- a gap separates the text from the closing run
      have space : ∃ c ∈ (text.rdropWhile isHash).getLast?, isSpace c = true := by
        by_contra notSpace
        apply same
        rw [List.rdropWhile_eq_self_iff]
        intro nonempty space
        exact notSpace ⟨_, List.getLast?_eq_some_getLast nonempty, space⟩
      rw [if_pos ⟨none, same⟩]
      exact iff_of_true rfl (.inr (.inl space))

omit [DecimalChars] in
theorem headingLine_text {line : Text} {heading : Text × Text}
    (ends : ∀ c ∈ line.getLast?, isSpace c = false) (isHeading : headingLine line = some heading) :
    Trimmed heading.2 ∧ heading.2 ≠ [] := by
  rw [headingLine] at isHeading
  split at isHeading
  next shape =>
    obtain ⟨-, -, space⟩ := shape
    rw [← Option.some.inj isHeading]
    exact trimmed_behind_gap ends (List.dropWhile_suffix isHash) space
  · cases isHeading

theorem isPrefix_keptText (line : Text) : keptText line <+: content line := by
  rw [keptText, content]
  cases headingLine line with
  | some heading => exact headingText_prefix heading.2
  | none => cases listItem line <;> exact List.prefix_refl _

theorem visible_kept_iff {line : Text} (ends : ∀ c ∈ line.getLast?, isSpace c = false) :
    visible (keptText line) = visible (content line) ↔
      ∀ heading ∈ headingLine line, Separated heading.2 := by
  rw [keptText, content]
  cases isHeading : headingLine line with
  | some heading =>
    obtain ⟨trimmed, some⟩ := headingLine_text ends isHeading
    simp [visible_headingText_iff trimmed some]
  | none => cases listItem line <;> simp

omit [DecimalChars] in
/-- Pieces that are prefixes of others make the same whole only when they are the same. -/
theorem flatMap_eq_iff {α β : Type} {f g : α → List β} {xs : List α}
    (prefixes : ∀ x ∈ xs, f x <+: g x) :
    xs.flatMap f = xs.flatMap g ↔ ∀ x ∈ xs, f x = g x := by
  constructor
  · induction xs with
    | nil => simp
    | cons x xs ih =>
      intro same
      have later : ∀ x ∈ xs, f x <+: g x := fun x member => prefixes x (.tail _ member)
      have first := prefixes x List.mem_cons_self
      have shorter : (xs.flatMap f).length ≤ (xs.flatMap g).length := by
        rw [List.length_flatMap, List.length_flatMap]
        exact List.sum_le_sum fun x member => (later x member).length_le
      have total := congrArg List.length same
      simp only [List.flatMap_cons, List.length_append] at total
      have equal : f x = g x := first.eq_of_length (by have := first.length_le; omega)
      rw [List.flatMap_cons, List.flatMap_cons, equal] at same
      rw [List.forall_mem_cons]
      exact ⟨equal, ih later (List.append_cancel_left same)⟩
  · exact fun same => List.flatMap_congr same

/-- A run's call has what is kept of its lines. -/
theorem visible_runCall {lines run : List Text} (isRun : run ∈ runs isParagraph lines) :
    ((runCall run).map fun call => visible call.text).getD [] = visible (run.flatMap keptText) := by
  obtain ⟨some, all⟩ | ⟨line, rfl, noParagraph⟩ := run_cases isRun
  · cases run with
    | nil => exact absurd rfl some
    | cons line more =>
      have same : (line :: more).flatMap keptText = (line :: more).flatMap id := by
        apply List.flatMap_congr
        intro line member
        have paragraph := all line member
        simp only [isParagraph, Bool.and_eq_true, Option.isNone_iff_eq_none] at paragraph
        simp [keptText, paragraph.1.1, paragraph.1.2]
      rw [runCall_paragraph more (all line List.mem_cons_self), same, Option.map_some,
        Option.getD_some, visible_intercalate, ← List.flatMap_id, visible_flatMap, visible_flatMap,
        List.flatMap_map]
      exact List.flatMap_congr fun line _ => visible_strip line
  · rw [List.flatMap_singleton, runCall, keptText]
    cases headingLine line with
    | some heading => rfl
    | none =>
      cases listItem line with
      | some item => rfl
      | none =>
        by_cases blank : strip line = []
        · simp [blank, strip_eq_nil_iff_visible.1 blank]
        · simp [blank, visible_strip]

/-- The calls have what is kept of the lines. -/
theorem visible_markdownCalls (text : Text) :
    visible ((markdownCalls text).flatMap AddCall.text) =
      visible ((markdownLines text).flatMap keptText) := by
  have lines := flatten_runs isParagraph (markdownLines text)
  have each : ∀ run ∈ runs isParagraph (markdownLines text),
      visible ((runCall run).toList.flatMap AddCall.text) = visible (run.flatMap keptText) := by
    intro run isRun
    rw [← visible_runCall isRun]
    cases runCall run <;> simp
  have calls : ∀ parts : List (List Text), (parts.filterMap runCall).flatMap AddCall.text =
      parts.flatMap fun run => (runCall run).toList.flatMap AddCall.text := by
    intro parts
    induction parts with
    | nil => rfl
    | cons run parts ih =>
      rw [List.filterMap_cons, List.flatMap_cons, ← ih]
      cases runCall run <;> simp
  have whole : ∀ parts : List (List Text), parts.flatten.flatMap keptText =
      parts.flatMap fun run => run.flatMap keptText := by
    intro parts
    induction parts with
    | nil => rfl
    | cons run parts ih => rw [List.flatten_cons, List.flatMap_append, List.flatMap_cons, ih]
  rw [markdownCalls_eq, calls, visible_flatMap, List.flatMap_congr each, ← visible_flatMap, ← whole,
    lines]

omit [DecimalChars] in
theorem visible_of_head {text : Text} (some : text ≠ []) (starts : ∀ c ∈ text.head?, isSpace c = false) :
    visible text ≠ [] := by
  intro blank
  cases text with
  | nil => exact some rfl
  | cons c rest =>
    have space := visible_eq_nil.1 blank c List.mem_cons_self
    rw [starts c rfl] at space
    cases space

theorem listItem_text {line text : Text} (ends : ∀ c ∈ line.getLast?, isSpace c = false)
    (isItem : listItem line = some text) : Trimmed text ∧ text ≠ [] := by
  obtain ⟨rest, marked, isText⟩ := Option.bind_eq_some_iff.mp isItem
  split at isText
  next space =>
    rw [← Option.some.inj isText]
    have isSuffix := (afterMarker_suffix marked).trans (List.dropWhile_suffix isSpace)
    exact trimmed_behind_gap ends isSuffix space
  · cases isText

theorem runCall_pageNumber {run : List Text} {call : AddCall} (isCall : runCall run = some call) :
    call.pageNumber = none := by
  cases run with
  | nil => cases isCall
  | cons line more =>
    rw [runCall] at isCall
    split at isCall
    · rw [← Option.some.inj isCall]
    · rw [← Option.some.inj isCall]
    · split at isCall
      · cases isCall
      · rw [← Option.some.inj isCall]

/-- No call is blank. -/
theorem runCall_visible {run : List Text} (ends : ∀ line ∈ run, ∀ c ∈ line.getLast?, isSpace c = false)
    {call : AddCall} (isCall : runCall run = some call) : visible call.text ≠ [] := by
  cases run with
  | nil => cases isCall
  | cons line more =>
    have ends' := ends line List.mem_cons_self
    rw [runCall] at isCall
    cases isHeading : headingLine line with
    | some heading =>
      obtain ⟨trimmed, some⟩ := headingLine_text ends' isHeading
      obtain ⟨rest, whole, -, nonempty, -⟩ := headingText_spec trimmed some
      rw [isHeading] at isCall
      obtain rfl := Option.some.inj isCall
      apply visible_of_head nonempty
      intro c first
      apply trimmed.starts c
      rw [whole]
      exact List.mem_head?_append_of_mem_head? first
    | none =>
      rw [isHeading] at isCall
      cases isItem : listItem line with
      | some text =>
        obtain ⟨trimmed, some⟩ := listItem_text ends' isItem
        rw [isItem] at isCall
        obtain rfl := Option.some.inj isCall
        exact visible_of_head some trimmed.starts
      | none =>
        rw [isItem] at isCall
        by_cases blank : strip line = []
        · simp [blank] at isCall
        · simp only [if_neg blank, Option.some.injEq] at isCall
          rw [← isCall, visible_intercalate, List.map_cons, List.flatten_cons, visible_append,
            visible_strip]
          rw [strip_eq_nil_iff_visible] at blank
          simp [blank]

/-- Every text is parsed.  Apart from markers and closing runs of `#`, the blocks have what is
visible in the text exactly when all these runs are separated, and paragraph lines are in one block
exactly when there are only paragraph lines between them. -/
theorem parseMarkdown_exact (text : Text) :
    ∃ collector, parseMarkdown text = .ok collector ∧
      (visible (collector.blocks.flatMap CanonicalBlock.text) =
          visible ((markdownLines text).flatMap content) ↔
        ∀ line ∈ markdownLines text, ∀ heading ∈ headingLine line, Separated heading.2) ∧
      List.Forall₂ (fun call block => ∃ headings, BlockCollector.Stores call headings block)
        ((runs isParagraph (markdownLines text)).filterMap runCall) collector.blocks ∧
      ∀ i j line line', i < j → (markdownLines text)[i]? = some line →
        (markdownLines text)[j]? = some line' → isParagraph line = true → isParagraph line' = true →
        (Together (runs isParagraph (markdownLines text)) i j ↔
          ∀ k between, i < k → k < j → (markdownLines text)[k]? = some between →
            isParagraph between = true) := by
  have ends : ∀ line ∈ markdownLines text, ∀ c ∈ line.getLast?, isSpace c = false := by
    intro line member
    obtain ⟨raw, -, rfl⟩ := List.mem_map.mp member
    exact rstrip_ends raw
  -- every call has text, so nothing is dropped
  have nonblank : (markdownCalls text).filter (fun call => normalizeBlockText call.text ≠ []) =
      markdownCalls text := by
    rw [List.filter_eq_self]
    intro call isCall
    rw [markdownCalls_eq] at isCall
    obtain ⟨run, isRun, made⟩ := List.mem_filterMap.mp isCall
    have inLines : ∀ line ∈ run, line ∈ markdownLines text := by
      intro line member
      rw [← flatten_runs isParagraph (markdownLines text)]
      exact List.mem_flatten.mpr ⟨run, isRun, member⟩
    have some := runCall_visible (fun line member => ends line (inLines line member)) made
    rw [decide_eq_true_eq, ne_eq, normalizeBlockText_eq_nil]
    exact some
  have pages : ∀ call ∈ markdownCalls text, ∀ page ∈ call.pageNumber, 1 ≤ page := by
    intro call isCall page hasPage
    rw [markdownCalls_eq] at isCall
    obtain ⟨run, -, made⟩ := List.mem_filterMap.mp isCall
    rw [runCall_pageNumber made] at hasPage
    cases hasPage
  obtain ⟨collector, collected, stored⟩ := BlockCollector.collect_blocks pages
  rw [nonblank] at stored
  refine ⟨collector, collected, ?_, markdownCalls_eq text ▸ stored, ?_⟩
  · -- each line keeps a beginning of its content, so the whole is kept when each line is
    have prefixes : ∀ line ∈ markdownLines text,
        visible (keptText line) <+: visible (content line) :=
      fun line _ => (isPrefix_keptText line).filter _
    rw [BlockCollector.visible_stores stored, visible_markdownCalls, visible_flatMap,
      visible_flatMap, flatMap_eq_iff prefixes]
    exact forall₂_congr fun line member => visible_kept_iff (ends line member)
  · intro i j line line' less first last paragraph paragraph'
    exact together_runs_between less first last paragraph paragraph'

end Blocks

/-- The closing run of the first heading belongs to its text. -/
theorem markdown_drops_sharp : ∃ collector,
    @parseMarkdown asciiDecimals "# C#".toList = .ok collector ∧
      collector.blocks.map CanonicalBlock.text = ["C".toList] ∧
      @markdownLines "# C#".toList = ["# C#".toList] ∧
      @content asciiDecimals "# C#".toList = "C#".toList :=
  ⟨_, rfl, by decide, by decide, by decide⟩

end SupportPilot.Rag
