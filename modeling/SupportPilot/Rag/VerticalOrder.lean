import SupportPilot.Rag.ReadingOrder

/-! # Lines and the text above them

A line should come after the text directly above it.  `_reading_order` reads the lines of a band that
span the page before its columns, also those below a column.  `readingOrder_exact` says that there is
no other exception; two lines are in one band when no gap lies between them (`SameBand`). -/

namespace SupportPilot.Rag

open Lib Table

/-- `a` ends above `b`, and there is a vertical line through both. -/
def DirectlyAbove (a b : PdfLine) : Prop := a.bottom ≤ b.top ∧ a.x0 ≤ b.x1 ∧ b.x0 ≤ a.x1

/-- A line has a height, and does not end before it starts. -/
structure Upright (line : PdfLine) : Prop where
  vertical : line.top < line.bottom
  horizontal : line.x0 ≤ line.x1

/-- Above every line between `a` and `b`, the lower one included, there is a line that ends at most 45
higher. -/
def SameBand (lines : List PdfLine) (a b : PdfLine) : Prop :=
  ∀ c ∈ lines, a.top < c.top ∧ c.top ≤ b.top ∨ b.top < c.top ∧ c.top ≤ a.top →
    ∃ line ∈ lines, line.top < c.top ∧ c.top - line.bottom ≤ 45

instance (lines : List PdfLine) (a b : PdfLine) : Decidable (SameBand lines a b) :=
  inferInstanceAs (Decidable (∀ c ∈ lines, _ → ∃ line ∈ lines, _))

/-- The band of the line has two lines at least in each column. -/
def InColumns (midpoint : ℚ) (lines : List PdfLine) (line : PdfLine) : Prop :=
  2 ≤ lines.countP (fun other => SameBand lines line other ∧ isLeft midpoint other = true) ∧
    2 ≤ lines.countP (fun other => SameBand lines line other ∧ isRight midpoint other = true)

instance (a b : PdfLine) : Decidable (DirectlyAbove a b) :=
  inferInstanceAs (Decidable (a.bottom ≤ b.top ∧ a.x0 ≤ b.x1 ∧ b.x0 ≤ a.x1))

instance (line : PdfLine) : Decidable (Upright line) :=
  decidable_of_iff (line.top < line.bottom ∧ line.x0 ≤ line.x1)
    ⟨fun both => ⟨both.1, both.2⟩, fun upright => ⟨upright.vertical, upright.horizontal⟩⟩

instance (midpoint : ℚ) (lines : List PdfLine) (line : PdfLine) :
    Decidable (InColumns midpoint lines line) :=
  inferInstanceAs (Decidable (_ ∧ _))

theorem SameBand.symm {lines : List PdfLine} {a b : PdfLine} (same : SameBand lines a b) :
    SameBand lines b a := by
  intro c isLine between
  exact same c isLine between.symm

/-! ## Bands -/

section Bands

variable {lines band : List PdfLine} {a b : PdfLine}

theorem top_le_of_position (le : position a ≤ position b) : a.top ≤ b.top := by
  rw [position, position, Prod.Lex.toLex_le_toLex] at le
  obtain less | ⟨same, -⟩ := le
  · exact less.le
  · exact same.le

theorem startsBand_spec {u : List PdfLine} {line : PdfLine} (some : u ≠ []) :
    startsBand u line = true ↔ ∀ item ∈ u, 45 < line.top - item.bottom := by
  obtain ⟨lowest, isItem, greatest, above⟩ := @greatestOf_spec _ PdfLine.bottom _ some
  rw [startsBand, decide_eq_true_eq, greatest]
  constructor
  · intro far item inBand
    have le := above item inBand
    linarith
  · intro far
    exact far lowest isItem

/-- A gap of more than 45 lies between the lines of two bands. -/
theorem bands_apart (lines : List PdfLine) :
    GroupsApart (fun upper lower => 45 < lower.top - upper.bottom) (bands lines) := by
  refine grouped_pairwise ?_ ?_ (orderBy_sorted position lines)
  · intro band line starts item inBand
    exact (startsBand_spec (List.ne_nil_of_mem inBand)).mp starts item inBand
  · intro upper line lower far le
    have below := top_le_of_position le
    linarith

theorem band_sorted (member : band ∈ bands lines) : band.Pairwise fun a b => position a ≤ position b := by
  have sorted := orderBy_sorted position lines
  rw [← flatten_bands] at sorted
  exact (List.pairwise_flatten.mp sorted).1 band member

theorem exists_band (isLine : a ∈ lines) : ∃ band ∈ bands lines, a ∈ band := by
  have inOrder : a ∈ orderBy position lines := mem_orderBy.2 isLine
  rw [← flatten_bands] at inOrder
  exact List.mem_flatten.mp inOrder

/-- Above a line of a band that is below another one of the band, there is a line close to it. -/
theorem close_above (upright : ∀ line ∈ lines, Upright line) (member : band ∈ bands lines)
    (inBand : a ∈ band) (inBand' : b ∈ band) {c : PdfLine} (isLine : c ∈ lines)
    (below : a.top < c.top) (above : c.top ≤ b.top) :
    ∃ line ∈ lines, line.top < c.top ∧ c.top - line.bottom ≤ 45 := by
  obtain ⟨before, after, shape⟩ := List.append_of_mem member
  have apart := bands_apart lines
  rw [GroupsApart, shape, List.pairwise_append] at apart
  obtain ⟨-, later, earlier⟩ := apart
  have cInBand : c ∈ band := by
    obtain ⟨band', member', inBand''⟩ := exists_band isLine
    rw [shape, List.mem_append, List.mem_cons] at member'
    have vertical := (upright c isLine).vertical
    obtain isEarlier | rfl | isLater := member'
    · have far := earlier band' isEarlier band List.mem_cons_self c inBand'' a inBand
      linarith
    · exact inBand''
    · have far := (List.pairwise_cons.mp later).1 band' isLater b inBand' c inBand''
      have vertical' := (upright b (mem_of_band member inBand')).vertical
      linarith
  -- the first line of the band that is as low as `c`
  have whole := List.takeWhile_append_dropWhile (p := fun line => line.top < c.top) (l := band)
  have higher : ∀ line ∈ band.takeWhile (fun line => line.top < c.top), line.top < c.top := by
    intro line inBand
    simpa using List.mem_takeWhile_imp inBand
  cases rest : band.dropWhile (fun line => line.top < c.top) with
  | nil =>
    rw [rest, List.append_nil] at whole
    have all : c ∈ band.takeWhile (fun line => line.top < c.top) := by
      rw [whole]
      exact cInBand
    exact absurd (higher c all) (lt_irrefl _)
  | cons first v =>
    rw [rest] at whole
    have stops := List.head?_dropWhile_not (fun line => line.top < c.top) band
    rw [rest] at stops
    simp only [List.head?_cons, decide_eq_false_iff_not, not_lt] at stops
    have sorted := band_sorted member
    rw [← whole, List.pairwise_append, List.pairwise_cons] at sorted
    obtain ⟨-, ⟨behind, -⟩, -⟩ := sorted
    have lowest : ∀ line ∈ first :: v, first.top ≤ line.top := by
      intro line inRest
      obtain rfl | inRest := List.mem_cons.mp inRest
      · exact le_refl _
      · exact top_le_of_position (behind line inRest)
    have inHigher : ∀ line ∈ band, line.top < c.top →
        line ∈ band.takeWhile (fun line => line.top < c.top) := by
      intro line inBand less
      rw [← whole, List.mem_append] at inBand
      obtain inHigher | inRest := inBand
      · exact inHigher
      · have le := lowest line inRest
        linarith
    have joined := grouped_joined member whole.symm (List.ne_nil_of_mem (inHigher a inBand below))
    rw [Bool.eq_false_iff, ne_eq, startsBand_spec (List.ne_nil_of_mem (inHigher a inBand below))] at joined
    simp only [not_forall, not_lt, exists_prop] at joined
    obtain ⟨line, inHigher', close⟩ := joined
    have isHigher := higher line inHigher'
    refine ⟨line, mem_of_band member ((List.takeWhile_prefix _).subset inHigher'), isHigher, ?_⟩
    linarith

theorem sameBand_of_band (upright : ∀ line ∈ lines, Upright line) (member : band ∈ bands lines)
    (inBand : a ∈ band) (inBand' : b ∈ band) : SameBand lines a b := by
  intro c isLine between
  obtain ⟨below, above⟩ | ⟨below, above⟩ := between
  · exact close_above upright member inBand inBand' isLine below above
  · exact close_above upright member inBand' inBand isLine below above

/-- Lines of two bands have a gap between them. -/
theorem not_sameBand (upright : ∀ line ∈ lines, Upright line) {before after : List (List PdfLine)}
    (shape : bands lines = before ++ band :: after) (isBefore : a ∈ before.flatten)
    (inBand : b ∈ band) : ¬ SameBand lines a b := by
  have member : band ∈ bands lines := by simp [shape]
  have apart := bands_apart lines
  rw [GroupsApart, shape, List.pairwise_append] at apart
  obtain ⟨-, later, earlier⟩ := apart
  have far : ∀ upper ∈ before.flatten, ∀ lower ∈ band, 45 < lower.top - upper.bottom := by
    intro upper isUpper lower isLower
    obtain ⟨band', isEarlier, inBand'⟩ := List.mem_flatten.mp isUpper
    exact earlier band' isEarlier band List.mem_cons_self upper inBand' lower isLower
  obtain ⟨first, rest, rfl⟩ := List.exists_cons_of_ne_nil (List.ne_nil_of_mem inBand)
  have lowest : ∀ line ∈ first :: rest, first.top ≤ line.top := by
    intro line isLine
    obtain rfl | isLine := List.mem_cons.mp isLine
    · exact le_refl _
    · exact top_le_of_position ((List.pairwise_cons.mp (band_sorted member)).1 line isLine)
  have isLine : a ∈ lines := by
    obtain ⟨band', isEarlier, inBand'⟩ := List.mem_flatten.mp isBefore
    exact mem_of_band (by rw [shape]; exact List.mem_append_left _ isEarlier) inBand'
  intro same
  have gap := far a isBefore first List.mem_cons_self
  have vertical := (upright a isLine).vertical
  obtain ⟨line, isLine', less, close⟩ := same first (mem_of_band member List.mem_cons_self)
    (.inl ⟨by linarith, lowest b inBand⟩)
  -- a line above the first one of the band is in an earlier band
  obtain ⟨band', member', inBand'⟩ := exists_band isLine'
  rw [shape, List.mem_append, List.mem_cons] at member'
  obtain isEarlier | rfl | isLater := member'
  · have far' := far line (List.mem_flatten.mpr ⟨band', isEarlier, inBand'⟩) first List.mem_cons_self
    linarith
  · have le := lowest line inBand'
    linarith
  · have far' := (List.pairwise_cons.mp later).1 band' isLater first List.mem_cons_self line inBand'
    have vertical' := (upright first (mem_of_band member List.mem_cons_self)).vertical
    linarith

/-- The lines in the band of a line are those with no gap in between. -/
theorem filter_sameBand (upright : ∀ line ∈ lines, Upright line) (member : band ∈ bands lines)
    (inBand : a ∈ band) : (orderBy position lines).filter (fun line => SameBand lines a line) = band := by
  obtain ⟨before, after, shape⟩ := List.append_of_mem member
  rw [← flatten_bands, shape, List.flatten_append, List.flatten_cons, List.filter_append,
    List.filter_append]
  have noneBefore : before.flatten.filter (fun line => SameBand lines a line) = [] := by
    rw [List.filter_eq_nil_iff]
    intro line isBefore
    rw [decide_eq_true_eq]
    intro same
    exact not_sameBand upright shape isBefore inBand same.symm
  have all : band.filter (fun line => SameBand lines a line) = band := by
    rw [List.filter_eq_self]
    intro line inBand'
    rw [decide_eq_true_eq]
    exact sameBand_of_band upright member inBand inBand'
  have noneAfter : after.flatten.filter (fun line => SameBand lines a line) = [] := by
    rw [List.filter_eq_nil_iff]
    intro line isAfter
    rw [decide_eq_true_eq]
    obtain ⟨band', isLater, inBand'⟩ := List.mem_flatten.mp isAfter
    obtain ⟨between, rest, rfl⟩ := List.append_of_mem isLater
    have shape' : bands lines = (before ++ band :: between) ++ band' :: rest := by
      rw [shape, List.append_assoc, List.cons_append]
    have isBefore : a ∈ (before ++ band :: between).flatten := by simp [inBand]
    exact not_sameBand upright shape' isBefore inBand'
  rw [noneBefore, all, noneAfter, List.nil_append, List.append_nil]

/-- A band is read in columns when its lines are in columns. -/
theorem inColumns_iff {midpoint : ℚ} (upright : ∀ line ∈ lines, Upright line)
    (member : band ∈ bands lines) (inBand : a ∈ band) :
    InColumns midpoint lines a ↔ 2 ≤ (band.filter (isLeft midpoint)).length ∧
      2 ≤ (band.filter (isRight midpoint)).length := by
  have perm : (orderBy position lines).Perm lines := List.perm_insertionSort _ lines
  have count : ∀ p : PdfLine → Bool,
      lines.countP (fun line => SameBand lines a line ∧ p line = true) = (band.filter p).length := by
    intro p
    have inBand := congrArg (List.filter p) (filter_sameBand upright member inBand)
    rw [List.filter_filter] at inBand
    rw [← perm.countP_eq, List.countP_eq_length_filter, ← inBand]
    congr 1
    apply List.filter_congr
    intro line _
    rw [Bool.and_comm, Bool.decide_and, Bool.decide_eq_true]
  rw [InColumns, count, count]

end Bands

/-! ## Order -/

section Order

variable {lines band : List PdfLine} {pageWidth midpoint : ℚ}

theorem not_above_of_position {a b : PdfLine} (upright : Upright b)
    (le : position a ≤ position b) : ¬ DirectlyAbove b a := by
  intro above
  have isAbove := above.1
  have vertical := upright.vertical
  have below := top_le_of_position le
  linarith

theorem not_above_self {a : PdfLine} (upright : Upright a) : ¬ DirectlyAbove a a :=
  not_above_of_position upright (le_refl _)

theorem sorted_not_above (upright : ∀ line ∈ band, Upright line) :
    (orderBy position band).Pairwise fun a b => ¬ DirectlyAbove b a := by
  apply (orderBy_sorted position band).imp_of_mem
  intro a b _ isLine le
  exact not_above_of_position (upright b (mem_orderBy.1 isLine)) le

/-- Lines on both sides of the middle have no common vertical line. -/
theorem columns_apart {a b : PdfLine} (left : isLeft midpoint a = true)
    (right : isRight midpoint b = true) : ¬ DirectlyAbove b a := by
  intro above
  have overlaps := above.2.1
  simp only [isLeft, isRight, decide_eq_true_eq] at left right
  linarith

/-- Where a band is read top to bottom. -/
theorem readBand_pairwise (upright : ∀ line ∈ band, Upright line) :
    ((readBand midpoint band).Pairwise fun a b => ¬ DirectlyAbove b a) ↔
      (2 ≤ (band.filter (isLeft midpoint)).length ∧ 2 ≤ (band.filter (isRight midpoint)).length →
        ∀ a ∈ band, ∀ b ∈ band, isSpanning midpoint a = false → isSpanning midpoint b = true →
          ¬ DirectlyAbove a b) := by
  have inFilter : ∀ p : PdfLine → Bool, ∀ line ∈ band.filter p, Upright line := fun p line isLine =>
    upright line (List.mem_of_mem_filter isLine)
  rw [readBand]
  split
  next few =>
    have whole : ¬ (2 ≤ (band.filter (isLeft midpoint)).length ∧
        2 ≤ (band.filter (isRight midpoint)).length) := by omega
    exact iff_of_true (sorted_not_above upright) fun many => absurd many whole
  next many =>
    have columns : 2 ≤ (band.filter (isLeft midpoint)).length ∧
        2 ≤ (band.filter (isRight midpoint)).length := by omega
    rw [spanning_eq, List.pairwise_append, List.pairwise_append]
    constructor
    · intro order _ a isLine b isLine' column spans above
      obtain ⟨⟨-, -, leftBehind⟩, -, rightBehind⟩ := order
      have isSpanningLine : b ∈ orderBy position (band.filter (isSpanning midpoint)) := by
        rw [mem_orderBy]
        exact List.mem_filter.mpr ⟨isLine', spans⟩
      -- a line that is in a column is read after the spanning ones
      have sides : isLeft midpoint a = true ∨ isRight midpoint a = true := by
        simp only [isSpanning, Bool.and_eq_false_iff, Bool.not_eq_false'] at column
        exact column
      obtain left | right := sides
      · apply leftBehind b isSpanningLine a _ above
        rw [mem_orderBy]
        exact List.mem_filter.mpr ⟨isLine, left⟩
      · apply rightBehind b (List.mem_append_left _ isSpanningLine) a _ above
        rw [mem_orderBy]
        exact List.mem_filter.mpr ⟨isLine, right⟩
    · intro free
      have behind : ∀ p : PdfLine → Bool, (∀ line, p line = true → isSpanning midpoint line = false) →
          ∀ b ∈ orderBy position (band.filter (isSpanning midpoint)),
            ∀ a ∈ orderBy position (band.filter p), ¬ DirectlyAbove a b := by
        intro p column b isLine' a isLine
        rw [mem_orderBy, List.mem_filter] at isLine isLine'
        exact free columns a isLine.1 b isLine'.1 (column a isLine.2) isLine'.2
      refine ⟨⟨sorted_not_above (inFilter _), sorted_not_above (inFilter _), ?_⟩,
        sorted_not_above (inFilter _), ?_⟩
      · exact behind (isLeft midpoint) fun line left => by simp [isSpanning, left]
      · intro b isLine' a isLine
        obtain spans | left := List.mem_append.mp isLine'
        · exact behind (isRight midpoint) (fun line right => by simp [isSpanning, right]) b spans a isLine
        · rw [mem_orderBy, List.mem_filter] at isLine left
          exact columns_apart left.2 isLine.2

/-- No line comes before the text directly above it exactly when no line that spans the page lies
below a column of its band. -/
theorem readingOrder_exact (upright : ∀ line ∈ lines, Upright line) :
    (∀ (i j : Nat) a b, (readingOrder lines pageWidth)[i]? = some a →
        (readingOrder lines pageWidth)[j]? = some b → DirectlyAbove a b → i < j) ↔
      ∀ a ∈ lines, ∀ b ∈ lines, SameBand lines a b → InColumns (pageWidth / 2) lines a →
        isSpanning (pageWidth / 2) a = false → isSpanning (pageWidth / 2) b = true →
          ¬ DirectlyAbove a b := by
  have perm : (readingOrder lines pageWidth).Perm lines := readingOrder_perm fun line isLine =>
    (upright line isLine).horizontal
  rw [positions_iff_pairwise fun line isLine => not_above_self (upright line (perm.mem_iff.mp isLine)),
    readingOrder_eq, List.pairwise_flatMap]
  have inBands : ∀ band ∈ bands lines, ∀ line ∈ band, Upright line := fun band member line inBand =>
    upright line (mem_of_band member inBand)
  constructor
  · intro order a isLine b isLine' same columns column spans
    obtain ⟨inside, -⟩ := order
    obtain ⟨band, member, inBand⟩ := exists_band isLine
    have inBand' : b ∈ band := by
      rw [← filter_sameBand upright member inBand, List.mem_filter, mem_orderBy, decide_eq_true_eq]
      exact ⟨isLine', same⟩
    exact (readBand_pairwise (inBands band member)).mp (inside band member)
      ((inColumns_iff upright member inBand).mp columns) a inBand b inBand' column spans
  · intro free
    constructor
    · intro band member
      rw [readBand_pairwise (inBands band member)]
      intro many a inBand b inBand'
      exact free a (mem_of_band member inBand) b (mem_of_band member inBand')
        (sameBand_of_band upright member inBand inBand')
        ((inColumns_iff upright member inBand).mpr many)
    · apply (bands_apart lines).imp_of_mem
      intro band band' member member' far a inBand b inBand' above
      -- the line of the band above ends before the one of the band below starts
      have isUpper := (readBand_perm fun line isLine =>
        (inBands band member line isLine).horizontal).mem_iff.mp inBand
      have isLower := (readBand_perm fun line isLine =>
        (inBands band' member' line isLine).horizontal).mem_iff.mp inBand'
      have gap := far a isUpper b isLower
      have vertical := (inBands band member a isUpper).vertical
      have vertical' := (inBands band' member' b isLower).vertical
      have isAbove := above.1
      linarith

end Order

/-- A heading above two columns. -/
def sectionLines : List PdfLine :=
  [⟨"Section".toList, 50, 66, 54, 150, 17, "Medium".toList⟩,
    ⟨"left first".toList, 100, 110, 54, 200, 9, "Regular".toList⟩,
    ⟨"left second".toList, 112, 122, 54, 200, 9, "Regular".toList⟩,
    ⟨"right first".toList, 100, 110, 343, 500, 9, "Regular".toList⟩,
    ⟨"right second".toList, 112, 122, 343, 500, 9, "Regular".toList⟩]

theorem readingOrder_exact_section : (∀ line ∈ sectionLines, Upright line) ∧
    ∀ (i j : Nat) a b, (readingOrder sectionLines 612)[i]? = some a →
      (readingOrder sectionLines 612)[j]? = some b → DirectlyAbove a b → i < j := by
  have upright : ∀ line ∈ sectionLines, Upright line := by decide
  exact ⟨upright, (readingOrder_exact upright).mpr (by decide +kernel)⟩

/-- A note below two columns, over the whole width. -/
def noteLines : List PdfLine :=
  sectionLines.tail ++ [⟨"note".toList, 130, 140, 54, 500, 9, "Regular".toList⟩]

/-- The note is read before the columns above it. -/
theorem note_before_columns : (∀ line ∈ noteLines, Upright line) ∧
    ¬ ∀ (i j : Nat) a b, (readingOrder noteLines 612)[i]? = some a →
      (readingOrder noteLines 612)[j]? = some b → DirectlyAbove a b → i < j := by
  refine ⟨by decide, ?_⟩
  intro ordered
  have note : (readingOrder noteLines 612)[0]? = noteLines[4]? := by decide +kernel
  have column : (readingOrder noteLines 612)[1]? = noteLines[0]? := by decide +kernel
  have before := ordered 1 0 _ _ column note (by decide)
  cases before

end SupportPilot.Rag
