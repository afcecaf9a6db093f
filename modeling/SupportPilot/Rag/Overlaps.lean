import SupportPilot.Lib.Layout
import SupportPilot.Rag.Chunks

/-! # How the packed lists overlap

`_tail_overlap` returns the last tokens of a list, so the lists that `_pack_section` returns are a
`Layout` of the fitted pieces: each takes up a few tokens of the one before it and goes on with
pieces of its own. -/

namespace SupportPilot.Rag

open Lib Lib.Regex ChunkTokenizer

namespace StructureAwareChunker

variable [WordChars] {budget : InputBudget} {document : CanonicalDocument}
  {done overlap : List Fragment} {piece : Fragment}

/-- Within the target, or a single piece. -/
def Bounded (pack : List Fragment) : Prop :=
  totalTokens pack ≤ PIPELINE.chunkTargetTokens ∨ ∃ piece, pack = [piece]

/-- The state of the loop of `_pack_section` behind the pieces `done`. -/
structure Lays (done : List Fragment) (state : PackState) : Prop where
  counted : Counted state
  layout : Layout Fragment.placed PIPELINE.chunkOverlapTokens done state.packs
  bounded : ∀ pack ∈ state.packs, Bounded pack

omit [WordChars] in
@[simp] theorem packs_append (packed : List (List Fragment)) (current : List Fragment)
    (piece : Fragment) (currentTokens : Nat) :
    PackState.packs ⟨packed, current ++ [piece], currentTokens⟩ = packed ++ [current ++ [piece]] := by
  simp [PackState.packs]

theorem Lays.nil : Lays [] ⟨[], [], 0⟩ := by
  refine ⟨⟨by simp, rfl⟩, .nil, ?_⟩
  simp [PackState.packs]

/-- What is left of the overlap holds the last tokens of the list. -/
theorem overlap_isTail {current : List Fragment} (exact : ∀ f ∈ current, f.Exact)
    (isTail : overlap <:+ tailOverlap current (overlapLimit piece)) :
    overlap.flatMap Fragment.placed <:+ current.flatMap Fragment.placed := by
  have kept : overlap.flatMap Fragment.placed <:+
      (tailOverlap current (overlapLimit piece)).flatMap Fragment.placed := by
    obtain ⟨dropped, whole⟩ := isTail
    exact ⟨dropped.flatMap Fragment.placed, by rw [← whole, List.flatMap_append]⟩
  rw [placed_tailOverlap fun f member => (exact f member).uncut] at kept
  exact kept.trans (List.drop_suffix _ _)

/-- The overlap leaves room for the piece. -/
theorem totalTokens_overlap {current : List Fragment} (exact : ∀ f ∈ current, f.Exact)
    (isTail : overlap <:+ tailOverlap current (overlapLimit piece)) :
    totalTokens overlap ≤ PIPELINE.chunkOverlapTokens ∧
      totalTokens overlap ≤ PIPELINE.chunkTargetTokens - piece.tokenCount := by
  have bound := totalTokens_tailOverlap exact (overlapLimit piece)
  obtain ⟨dropped, whole⟩ := isTail
  have sum := totalTokens_append dropped overlap
  rw [whole] at sum
  have limit : (overlapLimit piece).toNat ≤ PIPELINE.chunkOverlapTokens ∧
      (overlapLimit piece).toNat ≤ PIPELINE.chunkTargetTokens - piece.tokenCount := by
    rw [overlapLimit]
    omega
  omega

/-- Nothing overlaps a piece above the target. -/
theorem bounded_append (exactOverlap : ∀ f ∈ overlap, f.Exact)
    (fits : totalTokens overlap ≤ PIPELINE.chunkTargetTokens - piece.tokenCount) :
    Bounded (overlap ++ [piece]) := by
  by_cases small : piece.tokenCount ≤ PIPELINE.chunkTargetTokens
  · left
    rw [totalTokens_append]
    simp only [totalTokens, List.map_singleton, List.sum_singleton] at fits ⊢
    omega
  · have none : totalTokens overlap = 0 := by omega
    rw [totalTokens_eq exactOverlap, List.length_eq_zero_iff, List.flatMap_eq_nil_iff] at none
    have empty : overlap = [] := by
      rw [List.eq_nil_iff_forall_not_mem]
      intro f member
      have tokens := Fragment.tokens_ne_nil (exactOverlap f member).toAligned
      exact tokens (List.map_eq_nil_iff.mp (none f member))
    rw [empty]
    exact .inr ⟨piece, rfl⟩

theorem Lays.step {state state' : PackState} (lays : Lays done state) (exact : piece.Exact)
    (packs : Packs budget document state piece state') : Lays (done ++ [piece]) state' := by
  obtain ⟨⟨exactCurrent, counted⟩, layout, bounded⟩ := lays
  have pieceTokens : totalTokens [piece] = piece.tokenCount := by simp [totalTokens]
  cases packs with
  | extend room =>
    have total : Counted ⟨state.packed, state.current ++ [piece],
        state.currentTokens + piece.tokenCount⟩ := by
      constructor
      · rw [List.forall_mem_append, List.forall_mem_singleton]
        exact ⟨exactCurrent, exact⟩
      · rw [totalTokens_append, counted, pieceTokens]
    cases empty : state.current with
    | nil =>
      -- the piece is the first one of the section
      simp only [PackState.packs, empty, List.isEmpty_nil, if_true] at layout bounded
      have noTail : ([] : List Fragment).flatMap Fragment.placed <:+
          (state.packed.getLast?.getD []).flatMap Fragment.placed := List.nil_suffix
      have started := layout.start piece noTail (Nat.zero_le _)
      rw [empty] at total
      refine ⟨total, by rwa [packs_append], ?_⟩
      rw [packs_append, List.forall_mem_append, List.forall_mem_singleton]
      exact ⟨bounded, .inr ⟨piece, rfl⟩⟩
    | cons f rest =>
      obtain ⟨target, -⟩ := room.resolve_left (by simp [empty])
      have current : totalTokens (f :: rest ++ [piece]) ≤ PIPELINE.chunkTargetTokens := by
        rw [totalTokens_append, ← empty, ← counted, pieceTokens]
        exact target
      simp only [PackState.packs, empty, List.isEmpty_cons, Bool.false_eq_true, if_false,
        List.forall_mem_append, List.forall_mem_singleton] at layout bounded
      rw [empty] at total
      refine ⟨total, by rw [packs_append]; exact layout.grow piece, ?_⟩
      rw [packs_append, List.forall_mem_append, List.forall_mem_singleton]
      exact ⟨bounded.1, .inl current⟩
  | close overlap some isTail room =>
    have closed : state.packs = state.packed ++ [state.current] := by
      simp [PackState.packs, some]
    have exactOverlap : ∀ f ∈ overlap, f.Exact := fun f member =>
      ((tailOverlap_ok exactCurrent (overlapLimit piece)).1 f (isTail.subset member)).1
    obtain ⟨short, fits⟩ := totalTokens_overlap exactCurrent isTail
    rw [closed] at layout bounded
    have tail : overlap.flatMap Fragment.placed <:+
        ((state.packed ++ [state.current]).getLast?.getD []).flatMap Fragment.placed := by
      simpa using overlap_isTail exactCurrent isTail
    rw [totalTokens_eq exactOverlap] at short
    refine ⟨⟨?_, ?_⟩, by rw [packs_append]; exact layout.start piece tail short, ?_⟩
    · rw [List.forall_mem_append, List.forall_mem_singleton]
      exact ⟨exactOverlap, exact⟩
    · rw [totalTokens_append, pieceTokens]
    · rw [packs_append, List.forall_mem_append, List.forall_mem_singleton]
      exact ⟨bounded, bounded_append exactOverlap fits⟩

/-- `_pack_section` lays out the fitted pieces. -/
theorem foldlM_packStep_lays {fitted : List Fragment} {state : PackState}
    (exact : ∀ f ∈ fitted, f.Exact)
    (folded : fitted.foldlM (packStep budget document) ⟨[], [], 0⟩ = .ok state) :
    Lays fitted state := by
  apply foldlM_ok (motive := Lays) .nil _ folded
  intro done piece state state' isPrefix lays returned
  exact lays.step (exact piece (isPrefix.subset (by simp))) (packStep_ok returned)

/-! ## The tokens of a section -/

/-- The tokens of a block that its pieces hold: all of them, or those in sentences. -/
def keptTokens (block : CanonicalBlock) : List TokenSpan :=
  if count block.text ≤ PIPELINE.chunkMaxTokens then spans block.text
  else (finditer sentencePattern block.text).flatMap fun s =>
    (spans block.text).filter (Span.inside s.start s.stop)

def kept (block : CanonicalBlock) : List (CanonicalBlock × TokenSpan) :=
  (keptTokens block).map fun token => (block, token)

/-- Fragments of one block. -/
theorem flatMap_placed {fragments : List Fragment} {block : CanonicalBlock}
    (sameBlock : ∀ f ∈ fragments, f.block = block) :
    fragments.flatMap Fragment.placed =
      (fragments.flatMap Fragment.tokens).map fun token => (block, token) := by
  rw [List.map_flatMap]
  apply List.flatMap_congr
  intro f member
  rw [Fragment.placed, sameBlock f member]

theorem tokens_splitBlock {block : CanonicalBlock} {pieces : List Fragment}
    (returned : splitBlock block = .ok pieces) :
    pieces.flatMap Fragment.tokens = keptTokens block := by
  rcases Nat.lt_or_ge PIPELINE.chunkMaxTokens (count block.text) with large | small
  · obtain ⟨pieces', split, -, tokens⟩ := splitBlock_large large
    cases split.symm.trans returned
    rw [tokens, keptTokens, if_neg (Nat.not_le.mpr large)]
  · obtain ⟨piece, split, -, -, tokens⟩ := splitBlock_small small
    cases split.symm.trans returned
    rw [List.flatMap_singleton, tokens, keptTokens, if_pos small]

theorem placed_splitBlock {block : CanonicalBlock} {pieces : List Fragment}
    (returned : splitBlock block = .ok pieces) : pieces.flatMap Fragment.placed = kept block := by
  have sameBlock : ∀ p ∈ pieces, p.block = block := fun p member =>
    (splitBlock_exact returned p member).1
  rw [flatMap_placed sameBlock, tokens_splitBlock returned, kept]

theorem placed_fitPiece {parts : List Fragment} (exact : piece.Exact)
    (returned : fitPiece budget document piece = .ok parts) :
    parts.flatMap Fragment.placed = piece.placed := by
  have spec := fitPiece_ok exact returned
  rw [flatMap_placed spec.sameBlock, spec.tokens_eq, Fragment.placed]

/-- What `_pack_section` makes of the blocks of a section. -/
structure SectionPacks (blocks : List CanonicalBlock) (packs : List (List Fragment))
    (fitted : List Fragment) : Prop where
  exact : ∀ f ∈ fitted, f.Exact
  small : ∀ f ∈ fitted, f.tokenCount ≤ PIPELINE.chunkMaxTokens
  layout : Layout Fragment.placed PIPELINE.chunkOverlapTokens fitted packs
  bounded : ∀ pack ∈ packs, Bounded pack
  tokens : fitted.flatMap Fragment.placed = blocks.flatMap kept

/-- What `_pack_section` returns, over the pieces as they were fitted. -/
theorem packSection_layout {pieces : List Fragment} {packs : List (List Fragment)}
    (source : ∀ p ∈ pieces, p.Exact ∧ p.tokenCount ≤ PIPELINE.chunkMaxTokens)
    (returned : packSection budget document pieces = .ok packs) :
    ∃ groups, pieces.mapM (fitPiece budget document) = .ok groups ∧
      (∀ f ∈ groups.flatten, f.Exact ∧ f.tokenCount ≤ PIPELINE.chunkMaxTokens) ∧
      Layout Fragment.placed PIPELINE.chunkOverlapTokens groups.flatten packs ∧
      ∀ pack ∈ packs, Bounded pack := by
  rw [packSection, bind_eq_ok] at returned
  obtain ⟨groups, fits, returned⟩ := returned
  rw [bind_eq_ok] at returned
  obtain ⟨state, folded, returned⟩ := returned
  have fitted := fitted_bounded source fits
  have lays := foldlM_packStep_lays (fun f member => (fitted f member).1) folded
  simp only [pure, Except.pure, Except.ok.injEq] at returned
  rw [← returned]
  exact ⟨groups, fits, fitted, lays.layout, lays.bounded⟩

theorem packBlocks_layout {blocks : List CanonicalBlock} {packs : List (List Fragment)}
    (returned : packBlocks budget document blocks = .ok packs) :
    ∃ fitted, SectionPacks blocks packs fitted := by
  rw [packBlocks, bind_eq_ok] at returned
  obtain ⟨pieces, split, returned⟩ := returned
  have splits := mapM_eq_ok.1 split
  have source : ∀ p ∈ pieces.flatten, p.Exact ∧ p.tokenCount ≤ PIPELINE.chunkMaxTokens :=
    fun p member => ⟨(piece_of_mem split member).2.1, (piece_of_mem split member).2.2.1⟩
  obtain ⟨groups, fits, fitted, layout, bounded⟩ := packSection_layout source returned
  have parts : List.Forall₂ (fun p group => p ∈ pieces.flatten ∧
      fitPiece budget document p = .ok group) pieces.flatten groups := by
    obtain ⟨length, each⟩ := List.forall₂_iff_get.mp (mapM_eq_ok.1 fits)
    exact List.forall₂_iff_get.mpr ⟨length, fun i left right => ⟨List.get_mem _ _, each i left right⟩⟩
  refine ⟨groups.flatten, fun f member => (fitted f member).1, fun f member => (fitted f member).2,
    layout, bounded, ?_⟩
  -- the parts hold the tokens of the pieces, and these the kept ones
  have refitted : groups.flatten.flatMap Fragment.placed =
      pieces.flatten.flatMap Fragment.placed := by
    rw [List.flatten_eq_flatMap, List.flatMap_assoc]
    exact flatMap_of_forall₂ (parts.imp fun p group called =>
      placed_fitPiece (source p called.1).1 called.2)
  rw [refitted, List.flatten_eq_flatMap, List.flatMap_assoc]
  exact flatMap_of_forall₂ (splits.imp fun block group called => placed_splitBlock called)

end StructureAwareChunker

end SupportPilot.Rag
