import Mathlib.Data.List.Infix
import Mathlib.Data.Prod.Lex
import Mathlib.Data.Rat.Floor
import SupportPilot.Lib.Groups
import SupportPilot.Lib.Table
import SupportPilot.Rag.Markdown

/-! # Lines of a PDF page

The part of `_pdf_lines` that makes lines of the words of a page, over exact coordinates.  Words
are matched with the last rows, and a row is cut into segments at wide gaps.  Every word is in one
segment (`segments_perm`), and a segment becomes a line unless a filter drops it
(`segmentLine_eq_none`). -/

namespace SupportPilot.Rag

open Lib Lib.Regex Table

/-- `str.isalnum` for a character, and `str.casefold`. -/
class CaseTables where
  isAlnum : Char → Bool
  casefold : Text → Text
  isAlnum_ascii : ∀ c, c.toNat < 128 → isAlnum c = c.isAlphanum
  casefold_ascii : ∀ text : Text, (∀ c ∈ text, c.toNat < 128) → casefold text = text.map Char.toLower

export CaseTables (isAlnum casefold)

/-- Letters and digits of the ASCII range only. -/
@[reducible] def asciiCases : CaseTables where
  isAlnum := Char.isAlphanum
  casefold := List.map Char.toLower
  isAlnum_ascii _ _ := rfl
  casefold_ascii _ _ := rfl

structure PdfWord where
  text : Text
  top : ℚ
  bottom : ℚ
  x0 : ℚ
  x1 : ℚ
  size : ℚ
  fontname : Text
  deriving DecidableEq

/-- A page, with the words that `extract_words` finds. -/
structure PdfPage where
  width : ℚ
  height : ℚ
  words : List PdfWord

structure PdfLine where
  text : Text
  top : ℚ
  bottom : ℚ
  x0 : ℚ
  x1 : ℚ
  size : ℚ
  fontname : Text
  deriving DecidableEq

/-- `round(value, 1)`, which rounds a half to the even digit. -/
def roundTenth (value : ℚ) : ℚ :=
  let below := ⌊value * 10⌋
  let rest := value * 10 - below
  if rest < 1 / 2 ∨ rest = 1 / 2 ∧ below % 2 = 0 then below / 10 else (below + 1) / 10

/-! ## Rows and segments -/

/-- Append a word to the newest of the first `n` rows whose first word is as high. -/
def appendToRow (word : PdfWord) : Nat → List (List PdfWord) → Option (List (List PdfWord))
  | 0, _ => none
  | _, [] => none
  | n + 1, row :: older =>
    if row.head?.any fun first => |first.top - word.top| ≤ 2 then some ((row ++ [word]) :: older)
    else (appendToRow word n older).map (row :: ·)

/-- A round of the loop over the words; the newest row comes first. -/
def addWord (rows : List (List PdfWord)) (word : PdfWord) : List (List PdfWord) :=
  (appendToRow word 3 rows).getD ([word] :: rows)

def pdfRows (words : List PdfWord) : List (List PdfWord) :=
  ((orderBy (fun word : PdfWord => toLex (roundTenth word.top, word.x0)) words).foldl addWord
    []).reverse

def startsSegment (segment : List PdfWord) (word : PdfWord) : Bool :=
  segment.getLast?.any fun previous => word.x0 - previous.x1 > 36

def segments (words : List PdfWord) : List (List PdfWord) :=
  (pdfRows words).flatMap fun row => grouped startsSegment (orderBy PdfWord.x0 row)

/-! ## Lines -/

/-- `min(key(item) for item in items)`, where there are items. -/
def leastOf {α : Type} (key : α → ℚ) (items : List α) : ℚ := (items.map key).min?.getD 0

/-- `max(key(item) for item in items)`, where there are items. -/
def greatestOf {α : Type} (key : α → ℚ) (items : List α) : ℚ := (items.map key).max?.getD 0

/-- `_PAGE_FOOTER`: `^(?:Apple .+?\s+)?\d+$`. -/
def pageFooterPattern [DecimalChars] : Regex :=
  .seq (.alt (.seq ("Apple ".toList.foldr (fun c rest => .seq (.char (· == c)) rest) empty)
      (.seq (.seq (.char isDot) (.star false (.char isDot))) (plus (.char isSpace)))) empty)
    (.seq (plus (.char isDecimal)) .atEnd)

section Lines

variable [CaseTables] [DecimalChars]

def isalnum (text : Text) : Bool := !text.isEmpty && text.all isAlnum

/-- `substring in fontname.casefold()`. -/
def inFontname (substring : String) (fontname : Text) : Bool :=
  decide (substring.toList <:+: casefold fontname)

/-- The first font with the largest key, as `max` returns it. -/
def segmentFont (segment : List PdfWord) : Text :=
  let key (font : Text) := toLex (inFontname "bold" font, font.length)
  (segment.map PdfWord.fontname).foldl
    (fun best font => if key best < key font then font else best)
    ((segment.map PdfWord.fontname).headD [])

def segmentText (segment : List PdfWord) : Text :=
  normalizeBlockText ([' '].intercalate (segment.map PdfWord.text))

/-- Nothing, or a short symbol. -/
def isNoise (segment : List PdfWord) : Bool :=
  let text := segmentText segment
  text.isEmpty || (text.length ≤ 2 && !isalnum text)

def inMargin (height : ℚ) (segment : List PdfWord) : Bool :=
  leastOf PdfWord.top segment < 35 || greatestOf PdfWord.bottom segment > height - 35

def isFooter (segment : List PdfWord) : Bool :=
  greatestOf PdfWord.size segment ≤ 15 / 2 &&
    (matchLength pageFooterPattern (segmentText segment)).isSome

def segmentLine (height : ℚ) (segment : List PdfWord) : Option PdfLine :=
  if isNoise segment then none
  else if inMargin height segment then none
  else if isFooter segment then none
  else some {
    text := segmentText segment
    top := leastOf PdfWord.top segment
    bottom := greatestOf PdfWord.bottom segment
    x0 := leastOf PdfWord.x0 segment
    x1 := greatestOf PdfWord.x1 segment
    size := greatestOf PdfWord.size segment
    fontname := segmentFont segment }

end Lines

/-! ## Every word is in one segment -/

section Segments

variable {words : List PdfWord}

theorem flatten_appendToRow {word : PdfWord} {n : Nat} {rows rows' : List (List PdfWord)}
    (appended : appendToRow word n rows = some rows') :
    rows'.flatten.Perm (word :: rows.flatten) := by
  induction rows generalizing n rows' with
  | nil => cases n <;> cases appended
  | cons row older ih =>
    cases n with
    | zero => cases appended
    | succ n =>
      rw [appendToRow] at appended
      split at appended
      · cases appended
        rw [List.flatten_cons, List.flatten_cons, List.append_assoc]
        exact List.perm_middle
      · obtain ⟨older', appended', rfl⟩ := Option.map_eq_some_iff.mp appended
        rw [List.flatten_cons, List.flatten_cons]
        exact ((ih appended').append_left row).trans List.perm_middle

theorem addWord_perm (rows : List (List PdfWord)) (word : PdfWord) :
    (addWord rows word).flatten.Perm (word :: rows.flatten) := by
  rw [addWord]
  cases appended : appendToRow word 3 rows with
  | none => exact List.Perm.refl _
  | some rows' => exact flatten_appendToRow appended

theorem pdfRows_perm (words : List PdfWord) : (pdfRows words).flatten.Perm words := by
  have fold : ∀ (words : List PdfWord) rows,
      (words.foldl addWord rows).flatten.Perm (words ++ rows.flatten) := by
    intro words
    induction words with
    | nil => exact fun rows => List.Perm.refl _
    | cons word words ih =>
      intro rows
      have later := (ih (addWord rows word)).trans ((addWord_perm rows word).append_left words)
      exact later.trans List.perm_middle
  have whole := fold (orderBy (fun word : PdfWord => toLex (roundTenth word.top, word.x0)) words) []
  rw [List.flatten_nil, List.append_nil] at whole
  rw [pdfRows]
  exact ((List.reverse_perm _).flatten.trans whole).trans (List.perm_insertionSort _ words)

/-- Every word is in one segment. -/
theorem segments_perm (words : List PdfWord) : (segments words).flatten.Perm words := by
  have rows : ∀ rows : List (List PdfWord),
      (rows.flatMap fun row => grouped startsSegment (orderBy PdfWord.x0 row)).flatten.Perm
        rows.flatten := by
    intro rows
    induction rows with
    | nil => exact List.Perm.refl _
    | cons row rows ih =>
      rw [List.flatMap_cons, List.flatten_append, flatten_grouped, List.flatten_cons]
      exact (List.perm_insertionSort _ row).append ih
  exact (rows (pdfRows words)).trans (pdfRows_perm words)

theorem segments_ne_nil {segment : List PdfWord} (member : segment ∈ segments words) :
    segment ≠ [] := by
  obtain ⟨row, -, inRow⟩ := List.mem_flatMap.mp member
  exact grouped_ne_nil inRow

end Segments

/-! ## What a line holds -/

section Least

variable {α : Type} {key : α → ℚ} {items : List α}

theorem leastOf_spec (some : items ≠ []) :
    ∃ item ∈ items, leastOf key items = key item ∧ ∀ other ∈ items, key item ≤ key other := by
  obtain ⟨least, found⟩ : ∃ least, (items.map key).min? = Option.some least := by
    rw [← Option.isSome_iff_exists, List.isSome_min?_iff]
    simpa using some
  obtain ⟨member, below⟩ := List.min?_eq_some_iff.mp found
  obtain ⟨item, isItem, rfl⟩ := List.mem_map.mp member
  refine ⟨item, isItem, by rw [leastOf, found, Option.getD_some], ?_⟩
  intro other isOther
  exact below (key other) (List.mem_map_of_mem isOther)

theorem greatestOf_spec (some : items ≠ []) :
    ∃ item ∈ items, greatestOf key items = key item ∧ ∀ other ∈ items, key other ≤ key item := by
  obtain ⟨greatest, found⟩ : ∃ greatest, (items.map key).max? = Option.some greatest := by
    rw [← Option.isSome_iff_exists, List.isSome_max?_iff]
    simpa using some
  obtain ⟨member, above⟩ := List.max?_eq_some_iff.mp found
  obtain ⟨item, isItem, rfl⟩ := List.mem_map.mp member
  refine ⟨item, isItem, by rw [greatestOf, found, Option.getD_some], ?_⟩
  intro other isOther
  exact above (key other) (List.mem_map_of_mem isOther)

end Least

section Kept

variable [CaseTables] [DecimalChars] {height : ℚ} {segment : List PdfWord} {line : PdfLine}

/-- A segment is dropped by the filters only. -/
theorem segmentLine_eq_none : segmentLine height segment = none ↔
    isNoise segment = true ∨ inMargin height segment = true ∨ isFooter segment = true := by
  rw [segmentLine]
  cases isNoise segment <;> cases inMargin height segment <;> cases isFooter segment <;> simp

theorem segmentLine_eq_some (made : segmentLine height segment = some line) :
    line.text = segmentText segment ∧ line.x0 = leastOf PdfWord.x0 segment ∧
      line.x1 = greatestOf PdfWord.x1 segment := by
  rw [segmentLine] at made
  split at made
  · cases made
  · split at made
    · cases made
    · split at made
      · cases made
      · cases made
        exact ⟨rfl, rfl, rfl⟩

/-- A line has what is visible in its words. -/
theorem visible_segmentLine (made : segmentLine height segment = some line) :
    visible line.text = visible (segment.flatMap PdfWord.text) := by
  rw [(segmentLine_eq_some made).1, segmentText, visible_normalizeBlockText, visible_intercalate]
  rfl

theorem segmentLine_ordered (nonempty : segment ≠ []) (ordered : ∀ word ∈ segment, word.x0 ≤ word.x1)
    (made : segmentLine height segment = some line) : line.x0 ≤ line.x1 := by
  obtain ⟨-, x0, x1⟩ := segmentLine_eq_some made
  obtain ⟨first, -, least, below⟩ := @leastOf_spec _ PdfWord.x0 _ nonempty
  obtain ⟨last, isWord, greatest, -⟩ := @greatestOf_spec _ PdfWord.x1 _ nonempty
  rw [x0, x1, least, greatest]
  exact (below last isWord).trans (ordered last isWord)

end Kept

end SupportPilot.Rag
