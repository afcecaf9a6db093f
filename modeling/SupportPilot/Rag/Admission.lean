import SupportPilot.Rag.HardLimit

/-! # Which documents are rejected

Under a budget that also accepts the parts of what it accepts, `chunk` rejects a document
when a piece gets stuck under the header, or when no token was kept (`chunk_rejects_iff`).
A token that is too long on its own lets a piece get stuck (`stuck_of_unfit`), but the
header, which is never embedded, can do so as well. -/

namespace SupportPilot.Rag

open Lib Lib.Regex ChunkTokenizer StructureAwareChunker

/-- `assert_fits` only raises on what does not fit. -/
def InputBudget.Lawful (budget : InputBudget) : Prop :=
  ∀ text, budget.fits text = true → budget.assertFits text = .ok ()

/-- What fits still fits when it is shortened. -/
def InputBudget.InfixClosed (budget : InputBudget) : Prop :=
  ∀ text part, part <:+: text → budget.fits text = true → budget.fits part = true

section Texts

/-- What `_budget_text` puts before the text of a fragment. -/
def budgetHeader (document : CanonicalDocument) (path : List Text) : Text :=
  let joined := " > ".toList.intercalate path
  let sectionName := if joined = [] then "[root]".toList else joined
  let title := if document.title = [] then "[untitled]".toList else document.title
  "Document: ".toList ++ title ++ "\nSection: ".toList ++ sectionName ++ "\n\n".toList

variable [WordChars]

theorem budgetText_eq (document : CanonicalDocument) (fragments : List Fragment) :
    budgetText document fragments =
      budgetHeader document (commonHeadingPath (mergeFragments fragments)) ++
        joinTexts (mergeFragments fragments) := rfl

theorem budgetText_singleton (document : CanonicalDocument) (part : Fragment) :
    budgetText document [part] = budgetHeader document part.block.headingPath ++ part.text := by
  have merged : mergeFragments [part] = [{ part with tokenCount := count part.text }] := rfl
  have path : commonHeadingPath (mergeFragments [part]) = part.block.headingPath := by
    apply commonHeadingPath_of_same (by simp [merged])
    rw [merged, List.forall_mem_singleton]
  rw [budgetText_eq, path, merged, joinTexts_singleton]
  rfl

theorem text_suffix (document : CanonicalDocument) (fragments : List Fragment) :
    joinTexts (mergeFragments fragments) <:+: budgetText document fragments := by
  rw [budgetText_eq]
  exact (List.suffix_append _ _).isInfix

end Texts

/-! ## Closed budgets -/

section Closed

variable [WordChars] {budget : InputBudget} {document : CanonicalDocument} {piece : Fragment}

/-- A candidate starts with the first token it was built from. -/
theorem candidate_charStart {start stop : Nat} {part : Fragment} (less : start < stop)
    (within : stop ≤ (spans piece.text).length)
    (built : candidate piece (slice start stop (spans piece.text)) = .ok part) :
    ∃ first, (spans piece.text)[start]? = some first ∧
      part.charStart = piece.charStart + first.start := by
  have nonempty := run_ne_nil less within
  rw [candidate, fragmentFromTokens_eq piece.block nonempty] at built
  cases built
  refine ⟨_, ?_, rfl⟩
  rw [← List.head?_eq_some_head nonempty, List.head?_eq_getElem?, getElem?_slice, Nat.add_zero]
  omega

/-- The runs from one start are prefixes of each other, under the same header. -/
theorem prefixClosed_of_infixClosed (closed : budget.InfixClosed) (aligned : piece.Aligned) :
    PrefixClosed budget document piece := by
  intro start stop stop' less le within runFits
  obtain ⟨part', built', fits⟩ := runFits
  obtain ⟨part, built, sameBlock, exact, tokens⟩ := candidate_ok aligned.uncut less (by omega)
  obtain ⟨whole, builtWhole, sameBlock', exact', tokens'⟩ :=
    candidate_ok aligned.uncut (show start < stop' by omega) within
  cases builtWhole.symm.trans built'
  obtain ⟨first, read, atStart⟩ := candidate_charStart less (by omega) built
  obtain ⟨first', read', atStart'⟩ := candidate_charStart (by omega) within built'
  cases read.symm.trans read'
  -- the last token of the shorter run is a token of the longer one
  obtain ⟨last, inPart, atEnd⟩ := exact.last
  have longer : last ∈ part'.tokens := by
    rw [tokens] at inPart
    rw [tokens']
    exact (slice_isInfix_slice (Nat.le_refl start) le piece.tokens).subset inPart
  have behind := ((Fragment.mem_tokens exact'.toAligned).mp longer).2.2
  have shorter : part.text <+: part'.text := by
    have sameStart : part.charStart = part'.charStart := by rw [atStart, atStart']
    have stops : part.charEnd ≤ part'.charEnd := by omega
    rw [Fragment.text, Fragment.text, sameBlock, sameBlock', sameStart, slice_eq_take_drop,
      slice_eq_take_drop]
    exact List.take_prefix_take_left (by omega)
  refine ⟨part, built, closed _ _ ?_ fits⟩
  rw [budgetText_singleton, budgetText_singleton, sameBlock, sameBlock']
  exact ((List.prefix_append_right_inj _).mpr shorter).isInfix

/-- What a fitting part holds fits on its own. -/
theorem fits_of_part (closed : budget.InfixClosed)
    (fits : budget.fits (budgetText document [piece]) = true) {token : TokenSpan}
    (member : token ∈ piece.tokens) : budget.fits token.text = true := by
  obtain ⟨inner, inText, rfl⟩ := List.mem_map.mp member
  have text : inner.text <:+: piece.text := by
    rw [(names_token inText).slice]
    exact isInfix_slice _ _ _
  apply closed _ _ _ fits
  rw [budgetText_singleton]
  exact text.trans (List.suffix_append _ _).isInfix

/-- A piece with a token that is too long gets stuck. -/
theorem stuck_of_unfit (closed : budget.InfixClosed) (exact : piece.Exact) {token : TokenSpan}
    (member : token ∈ piece.tokens) (unfit : budget.fits token.text = false) :
    Stuck budget document piece := by
  have prefixes : PrefixClosed budget document piece :=
    prefixClosed_of_infixClosed closed exact.toAligned
  cases result : fitPiece budget document piece with
  | error e => exact ((fitPiece_error_iff_stuck prefixes).mp result).2
  | ok parts =>
    have spec := fitPiece_ok exact result
    rw [← spec.tokens_eq] at member
    obtain ⟨part, isPart, inPart⟩ := List.mem_flatMap.mp member
    rw [fits_of_part closed (spec.fits part isPart) inPart] at unfit
    cases unfit

/-- Some token of the source is too long on its own. -/
def TokenTooLong (budget : InputBudget) (document : CanonicalDocument) : Prop :=
  ∃ block ∈ document.blocks, ∃ token ∈ spans block.text, budget.fits token.text = false

/-- Some piece gets stuck under its header. -/
def PieceStuck (budget : InputBudget) (document : CanonicalDocument) : Prop :=
  ∃ piece, IsPiece document piece ∧ Stuck budget document piece

theorem pieceStuck_of_kept (closed : budget.InfixClosed) {x : CanonicalBlock × TokenSpan}
    (isKept : x ∈ document.blocks.flatMap kept) (unfit : budget.fits x.2.text = false) :
    PieceStuck budget document := by
  obtain ⟨block, isBlock, inBlock⟩ := List.mem_flatMap.mp isKept
  obtain ⟨pieces, split⟩ := splitBlock_total block
  obtain ⟨token, inPieces, rfl⟩ := List.mem_map.mp inBlock
  rw [← tokens_splitBlock split] at inPieces
  obtain ⟨piece, member, inPiece⟩ := List.mem_flatMap.mp inPieces
  have exact := (splitBlock_exact split piece member).2
  exact ⟨piece, ⟨block, isBlock, pieces, split, member⟩, stuck_of_unfit closed exact inPiece unfit⟩

variable [IdentityDigest]

/-- When a document is rejected. -/
theorem chunk_rejects_iff (closed : budget.InfixClosed) (lawful : budget.Lawful) :
    (∃ e, chunk budget document = .error e) ↔
      document.blocks.flatMap kept = [] ∨ PieceStuck budget document := by
  have prefixes : ∀ {piece}, IsPiece document piece → PrefixClosed budget document piece :=
    fun isPiece => prefixClosed_of_infixClosed closed isPiece.exact.toAligned
  constructor
  · intro rejected
    obtain ⟨e, raised⟩ := rejected
    obtain ⟨piece, isPiece, unfit⟩ | ⟨pack, isPack, refused⟩ | ⟨-, none⟩ := chunk_error raised
    · exact .inr ⟨piece, isPiece, ((fitPiece_error_iff_stuck (prefixes isPiece)).mp unfit).2⟩
    · -- the text of a packed list fits, as it does with a header
      have fits := closed _ _ (text_suffix document pack) isPack.fits
      rw [lawful _ fits] at refused
      cases refused
    · exact .inl none
  · intro condition
    by_contra accepted
    obtain ⟨chunks, returned⟩ := exists_ok fun e raised => accepted ⟨e, raised⟩
    obtain none | ⟨piece, isPiece, stuck⟩ := condition
    · exact kept_of_chunk returned none
    · obtain ⟨parts, fits⟩ := fitted_of_chunk returned isPiece
      have raised := (fitPiece_error_iff_stuck (prefixes isPiece)).mpr ⟨rfl, stuck⟩
      cases fits.symm.trans raised

end Closed

/-! ## A heading longer than the budget -/

/-- A limit on the length of the text. -/
def lengthBudget (maximum : Nat) : InputBudget where
  fits text := text.length ≤ maximum
  assertFits text :=
    if text.length ≤ maximum then .ok () else .error (.valueError "does not fit")

theorem lengthBudget_closed (maximum : Nat) : (lengthBudget maximum).InfixClosed := by
  intro text part isInfix fits
  simp only [lengthBudget, decide_eq_true_eq] at fits ⊢
  exact Nat.le_trans isInfix.length_le fits

theorem lengthBudget_lawful (maximum : Nat) : (lengthBudget maximum).Lawful := by
  intro text fits
  simp only [lengthBudget, decide_eq_true_eq] at fits ⊢
  rw [if_pos fits]

def headedBlock : CanonicalBlock where
  blockId := "b000000".toList
  order := 0
  kind := .paragraph
  text := "b".toList
  headingPath := ["Returns and refunds".toList]
  pageNumber := none
  blockId_nonempty := firstId_nonempty
  text_nonempty := List.cons_ne_nil _ _
  text_normalized := rfl
  page_positive := unpaged_positive

def headedDocument : CanonicalDocument := alone headedBlock rfl

end SupportPilot.Rag
