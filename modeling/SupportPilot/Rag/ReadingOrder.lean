import SupportPilot.Rag.PdfLines

/-! # Reading order

`_reading_order`.  The lines of a page are cut into bands where there is a vertical gap.  A band with
two columns is read by its spanning lines first, then the left and the right column.  No line is
lost (`readingOrder_perm`). -/

namespace SupportPilot.Rag

open Lib Table

/-- `(line.top, line.x0)`. -/
def position (line : PdfLine) : ℚ ×ₗ ℚ := toLex (line.top, line.x0)

def startsBand (band : List PdfLine) (line : PdfLine) : Bool :=
  line.top - greatestOf PdfLine.bottom band > 45

def bands (lines : List PdfLine) : List (List PdfLine) :=
  grouped startsBand (orderBy position lines)

def isLeft (midpoint : ℚ) (line : PdfLine) : Bool := line.x1 < midpoint - 5

def isRight (midpoint : ℚ) (line : PdfLine) : Bool := line.x0 > midpoint + 5

def readBand (midpoint : ℚ) (band : List PdfLine) : List PdfLine :=
  let left := band.filter (isLeft midpoint)
  let right := band.filter (isRight midpoint)
  let spanning := band.filter fun line => line ∉ left ∧ line ∉ right
  if left.length < 2 ∨ right.length < 2 then orderBy position band
  else orderBy position spanning ++ orderBy position left ++ orderBy position right

def readingOrder (lines : List PdfLine) (pageWidth : ℚ) : List PdfLine :=
  if lines = [] then []
  else (bands lines).flatMap (readBand (pageWidth / 2))

theorem readingOrder_eq (lines : List PdfLine) (pageWidth : ℚ) :
    readingOrder lines pageWidth = (bands lines).flatMap (readBand (pageWidth / 2)) := by
  rw [readingOrder]
  split
  next nothing =>
    subst nothing
    rfl
  · rfl

/-! ## No line is lost -/

section Bands

variable {midpoint : ℚ} {band lines : List PdfLine}

/-- A line that spans the middle of the page. -/
def isSpanning (midpoint : ℚ) (line : PdfLine) : Bool :=
  !isLeft midpoint line && !isRight midpoint line

theorem spanning_eq (midpoint : ℚ) (band : List PdfLine) :
    (band.filter fun line => line ∉ band.filter (isLeft midpoint) ∧
      line ∉ band.filter (isRight midpoint)) = band.filter (isSpanning midpoint) := by
  apply List.filter_congr
  intro line member
  simp [isSpanning, member]

/-- A line that does not end before it starts is in one column at most. -/
theorem not_isRight {line : PdfLine} (ordered : line.x0 ≤ line.x1) (left : isLeft midpoint line = true) :
    isRight midpoint line = false := by
  simp only [isLeft, isRight, decide_eq_true_eq, decide_eq_false_iff_not] at left ⊢
  linarith

theorem readBand_perm (ordered : ∀ line ∈ band, line.x0 ≤ line.x1) :
    (readBand midpoint band).Perm band := by
  have sorted : ∀ lines : List PdfLine, (orderBy position lines).Perm lines :=
    List.perm_insertionSort _
  rw [readBand]
  split
  · exact sorted band
  · have others := List.filter_append_perm (isRight midpoint) (band.filter fun line => !isLeft midpoint line)
    -- a line that is on the left is not on the right
    have right : (band.filter fun line => !isLeft midpoint line).filter (isRight midpoint) =
        band.filter (isRight midpoint) := by
      rw [List.filter_filter]
      apply List.filter_congr
      intro line member
      cases left : isLeft midpoint line with
      | false => simp
      | true => simp [not_isRight (ordered line member) left]
    have spanning : (band.filter fun line => !isLeft midpoint line).filter (fun line => !isRight midpoint line) =
        band.filter (isSpanning midpoint) := by
      rw [List.filter_filter]
      apply List.filter_congr
      intro line _
      exact Bool.and_comm _ _
    rw [right, spanning] at others
    rw [spanning_eq]
    have columns := ((sorted (band.filter (isSpanning midpoint))).append
      (sorted (band.filter (isLeft midpoint)))).append (sorted (band.filter (isRight midpoint)))
    have moved : (band.filter (isSpanning midpoint) ++ band.filter (isLeft midpoint) ++
        band.filter (isRight midpoint)).Perm (band.filter (isLeft midpoint) ++
          (band.filter (isRight midpoint) ++ band.filter (isSpanning midpoint))) := by
      rw [List.append_assoc, ← List.append_assoc (band.filter (isLeft midpoint))]
      exact List.perm_append_comm
    exact ((columns.trans moved).trans (others.append_left _)).trans (List.filter_append_perm _ _)

theorem flatten_bands (lines : List PdfLine) : (bands lines).flatten = orderBy position lines :=
  flatten_grouped startsBand _

theorem mem_of_band (member : band ∈ bands lines) {line : PdfLine} (inBand : line ∈ band) :
    line ∈ lines := by
  have inOrder := List.mem_flatten.mpr ⟨band, member, inBand⟩
  rw [flatten_bands] at inOrder
  exact mem_orderBy.1 inOrder

/-- Reading order is an order of the lines. -/
theorem readingOrder_perm {pageWidth : ℚ} (ordered : ∀ line ∈ lines, line.x0 ≤ line.x1) :
    (readingOrder lines pageWidth).Perm lines := by
  have each : ∀ parts : List (List PdfLine), parts ⊆ bands lines →
      (parts.flatMap (readBand (pageWidth / 2))).Perm parts.flatten := by
    intro parts subset
    induction parts with
    | nil => exact List.Perm.refl _
    | cons band parts ih =>
      obtain ⟨first, others⟩ := List.cons_subset.mp subset
      exact (readBand_perm fun line inBand => ordered line (mem_of_band first inBand)).append (ih others)
  have whole := each (bands lines) (List.Subset.refl _)
  rw [flatten_bands] at whole
  rw [readingOrder_eq]
  exact whole.trans (List.perm_insertionSort _ lines)

end Bands

end SupportPilot.Rag
