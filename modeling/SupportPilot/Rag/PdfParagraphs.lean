import SupportPilot.Rag.ReadingOrder

/-! # Paragraphs of a PDF page

`_pdf_lines` as a whole and `_pdf_paragraphs`.  From the words of a page to its paragraphs, no word
is lost or doubled, except where a filter drops a segment (`pdfParagraphs_keep_words`). -/

namespace SupportPilot.Rag

open Lib Lib.Regex

/-- `[•◦▪‣]`. -/
def isBulletMark (c : Char) : Bool := c = '•' || c = '◦' || c = '▪' || c = '‣'

/-- A hyphen or a dash. -/
def isDash (c : Char) : Bool := c = '-' || c = '\u2013' || c = '\u2014'

/-- `_BULLET`. -/
def bulletPattern : Regex :=
  .seq (.star true (.char isSpace)) (.seq (.alt (.char isBulletMark) (.char isDash))
    (.star true (.char isSpace)))

def isBulleted (line : PdfLine) : Bool := (matchLength bulletPattern line.text).isSome

section Paragraphs

variable [CaseTables]

def isBold (line : PdfLine) : Bool :=
  inFontname "bold" line.fontname || inFontname "semibold" line.fontname ||
    inFontname "medium" line.fontname

def visualHeadingLevel (line : PdfLine) : Option Int :=
  if line.size ≥ 19 then some 1
  else if line.size ≥ 16 then some 2
  else if line.size ≥ 13 ∧ isBold line then some 3
  else if line.size ≥ 21 / 2 ∧ isBold line then some 4
  else none

/-- The line belongs to the paragraph that starts with `first` and ends with `previous` so far. -/
def continues (first previous line : PdfLine) : Bool :=
  let previousHeading := (visualHeadingLevel previous).isSome
  let sameColumn :=
    if isBulleted first then 8 ≤ line.x0 - first.x0 ∧ line.x0 - first.x0 ≤ 40
    else |line.x0 - previous.x0| ≤ 24
  let close := 0 ≤ line.top - previous.bottom ∧
    line.top - previous.bottom ≤ max 9 (previous.size * (6 / 5))
  !previousHeading && decide sameColumn && decide close

def startsParagraph (paragraph : List PdfLine) (line : PdfLine) : Bool :=
  let heading := (visualHeadingLevel line).isSome
  let bullet := isBulleted line
  let callout := isBold line && line.text.length ≤ 24
  heading || bullet || callout ||
    !(paragraph.head?.any fun first => paragraph.getLast?.any fun previous =>
      continues first previous line)

def pdfParagraphs (lines : List PdfLine) : List (List PdfLine) := grouped startsParagraph lines

variable [DecimalChars]

/-- The lines that the filters leave, row by row. -/
def keptLines (page : PdfPage) : List PdfLine :=
  (segments page.words).filterMap (segmentLine page.height)

/-- `_pdf_lines`. -/
def pdfLines (page : PdfPage) : List PdfLine := readingOrder (keptLines page) page.width

theorem keptLines_ordered {page : PdfPage} (ordered : ∀ word ∈ page.words, word.x0 ≤ word.x1) :
    ∀ line ∈ keptLines page, line.x0 ≤ line.x1 := by
  intro line isLine
  obtain ⟨segment, isSegment, made⟩ := List.mem_filterMap.mp isLine
  apply segmentLine_ordered (segments_ne_nil isSegment) _ made
  intro word inSegment
  apply ordered word
  rw [← (segments_perm page.words).mem_iff]
  exact List.mem_flatten.mpr ⟨segment, isSegment, inSegment⟩

/-- Every word of a page is in one segment, a segment is dropped by a filter only, and the lines of
the others are ordered and put into paragraphs. -/
theorem pdfParagraphs_keep_words {page : PdfPage}
    (ordered : ∀ word ∈ page.words, word.x0 ≤ word.x1) :
    (segments page.words).flatten.Perm page.words ∧
      (∀ segment ∈ segments page.words,
        (segmentLine page.height segment = none ↔ isNoise segment = true ∨
          inMargin page.height segment = true ∨ isFooter segment = true) ∧
        ∀ line, segmentLine page.height segment = some line →
          visible line.text = visible (segment.flatMap PdfWord.text)) ∧
      (∀ pageWidth, (readingOrder (keptLines page) pageWidth).Perm (keptLines page)) ∧
      (pdfParagraphs (pdfLines page)).flatten = pdfLines page ∧
      ∀ paragraph ∈ pdfParagraphs (pdfLines page), paragraph ≠ [] := by
  refine ⟨segments_perm page.words, ?_, ?_, flatten_grouped startsParagraph _, ?_⟩
  · intro segment isSegment
    exact ⟨segmentLine_eq_none, fun line => visible_segmentLine⟩
  · intro pageWidth
    exact readingOrder_perm (keptLines_ordered ordered)
  · intro paragraph isParagraph
    exact grouped_ne_nil isParagraph

end Paragraphs

/-- Two columns below a running head. -/
def columnsPage : PdfPage where
  width := 612
  height := 792
  words := [
    ⟨"Header".toList, 10, 20, 40, 80, 9, "Regular".toList⟩,
    ⟨"Left".toList, 100, 110, 40, 80, 11, "Regular".toList⟩,
    ⟨"bold".toList, 201 / 2, 111, 86, 120, 11, "Semibold".toList⟩,
    ⟨"Right".toList, 100, 110, 300, 345, 9, "Regular".toList⟩]

theorem columnsPage_words :
    (@readingOrder (@keptLines asciiCases asciiDecimals columnsPage) 612).Perm
        (@keptLines asciiCases asciiDecimals columnsPage) ∧
      (@pdfLines asciiCases asciiDecimals columnsPage).map PdfLine.text =
        ["Left bold".toList, "Right".toList] := by
  have ordered : ∀ word ∈ columnsPage.words, word.x0 ≤ word.x1 := by decide
  obtain ⟨-, -, order, -⟩ := @pdfParagraphs_keep_words asciiCases asciiDecimals columnsPage ordered
  exact ⟨order 612, by decide +kernel⟩

end SupportPilot.Rag
