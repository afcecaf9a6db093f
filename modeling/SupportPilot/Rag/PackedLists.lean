import SupportPilot.Rag.Admission

/-! # What `_pack_section` returns

Every fitted piece is packed once, behind a tail of the list before, and the sum that the
loop keeps stays within the target (`packSection_lays`). -/

namespace SupportPilot.Rag

open Lib Lib.Regex ChunkTokenizer

namespace StructureAwareChunker

variable [WordChars] {budget : InputBudget} {document : CanonicalDocument}
  {pieces : List Fragment}

/-! ## The counts are those of the texts -/

theorem Packs.exact {state state' : PackState} {piece : Fragment}
    (packs : Packs budget document state piece state') (exactPiece : piece.Exact)
    (exact : ∀ pack ∈ state.packs, ∀ f ∈ pack, f.Exact) :
    ∀ pack ∈ state'.packs, ∀ f ∈ pack, f.Exact := by
  cases packs with
  | extend room =>
    rw [packs_append]
    cases empty : state.current with
    | nil =>
      simp only [PackState.packs, empty, List.isEmpty_nil, if_true] at exact
      simpa [or_imp, forall_and] using ⟨exact, exactPiece⟩
    | cons f rest =>
      simp only [PackState.packs, empty, List.isEmpty_cons, Bool.false_eq_true, if_false,
        List.forall_mem_append, List.forall_mem_singleton] at exact
      simp only [List.forall_mem_append, List.forall_mem_singleton]
      exact ⟨exact.1, exact.2, exactPiece⟩
  | close overlap some isTail room =>
    have closed : state.packs = state.packed ++ [state.current] := by
      simp [PackState.packs, some]
    rw [closed, List.forall_mem_append, List.forall_mem_singleton] at exact
    have kept : ∀ f ∈ overlap, f.Exact := fun f member =>
      ((tailOverlap_ok exact.2 (overlapLimit piece)).1 f (isTail.subset member)).1
    rw [packs_append]
    simp only [List.forall_mem_append, List.forall_mem_singleton]
    exact ⟨exact, kept, exactPiece⟩

theorem packSection_exact {packs : List (List Fragment)}
    (source : ∀ p ∈ pieces, p.Exact ∧ p.tokenCount ≤ PIPELINE.chunkMaxTokens)
    (returned : packSection budget document pieces = .ok packs) :
    ∀ pack ∈ packs, ∀ f ∈ pack, f.Exact := by
  rw [packSection, bind_eq_ok] at returned
  obtain ⟨groups, fits, returned⟩ := returned
  rw [bind_eq_ok] at returned
  obtain ⟨state, folded, returned⟩ := returned
  simp only [pure, Except.pure, Except.ok.injEq] at returned
  rw [← returned]
  have fitted := fitted_bounded source fits
  apply foldlM_ok (motive := fun _ state => ∀ pack ∈ state.packs, ∀ f ∈ pack, f.Exact) _ _ folded
  · simp [PackState.packs]
  · intro done piece state state' isPrefix exact stepped
    exact (packStep_ok stepped).exact (fitted piece (isPrefix.subset (by simp))).1 exact

/-! ## The whole run -/

theorem placed_eq_nil {fragments : List Fragment} (exact : ∀ f ∈ fragments, f.Exact)
    (none : fragments.flatMap Fragment.placed = []) : fragments = [] := by
  rw [List.flatMap_eq_nil_iff] at none
  rw [List.eq_nil_iff_forall_not_mem]
  intro f member
  have tokens := Fragment.tokens_ne_nil (exact f member).toAligned
  exact tokens (List.map_eq_nil_iff.mp (none f member))

/-- The pieces are packed once each, and only tails of lists overlap.  The error above the
hard maximum is not raised. -/
theorem packSection_lays (budget : InputBudget) (document : CanonicalDocument)
    (source : ∀ p ∈ pieces, p.Exact ∧ p.tokenCount ≤ PIPELINE.chunkMaxTokens) :
    packSection budget document pieces ≠ .error hardMaximum ∧
    ∀ packs, packSection budget document pieces = .ok packs →
      ∃ (groups : List (List Fragment)) (parts : List (Laid Fragment)),
        pieces.mapM (fitPiece budget document) = .ok groups ∧
        packs = parts.map Laid.list ∧
        parts.flatMap Laid.rest = groups.flatten ∧
        (∀ part ∈ parts, part.rest ≠ [] ∧
          totalTokens part.overlap ≤ PIPELINE.chunkOverlapTokens) ∧
        (∀ part ∈ parts.head?, part.overlap = []) ∧
        (parts.IsChain fun part next =>
          next.overlap.flatMap Fragment.placed <:+ part.list.flatMap Fragment.placed) ∧
        ∀ pack ∈ packs, (∀ f ∈ pack, f.tokenCount = count f.text) ∧
          totalTokens pack ≤ PIPELINE.chunkMaxTokens ∧
          (totalTokens pack ≤ PIPELINE.chunkTargetTokens ∨
            ∃ piece ∈ groups.flatten, pack = [piece]) := by
  constructor
  · intro raised
    obtain ⟨piece, -, raised⟩ := packSection_error source raised
    -- `_fit_piece` raises another error
    obtain ⟨-, returned⟩ | ⟨-, ⟨parts, returned, -⟩ | ⟨returned, -⟩⟩ :=
      fitPiece_cases budget document piece
    · cases returned.symm.trans raised
    · cases returned.symm.trans raised
    · exact absurd (returned.symm.trans raised) (by decide)
  intro packs returned
  obtain ⟨groups, fits, fitted, layout, bounded⟩ := packSection_layout source returned
  have exact := packSection_exact source returned
  obtain ⟨parts, rfl, rests, each, first, chained⟩ := layout.exists_laid
  have exactOverlap : ∀ part ∈ parts, ∀ f ∈ part.overlap, f.Exact := by
    intro part member f inside
    exact exact part.list (List.mem_map_of_mem member) f (List.mem_append_left _ inside)
  refine ⟨groups, parts, fits, rfl, rests, ?_, ?_, chained, ?_⟩
  · intro part member
    rw [totalTokens_eq (exactOverlap part member)]
    exact each part member
  · intro part isFirst
    exact placed_eq_nil (exactOverlap part (List.mem_of_mem_head? isFirst)) (first part isFirst)
  · intro pack member
    have counted : ∀ f ∈ pack, f.tokenCount = count f.text := by
      intro f inside
      rw [(exact pack member f inside).tokenCount_eq, Fragment.length_tokens]
    obtain target | ⟨piece, rfl⟩ := bounded pack member
    · exact ⟨counted, Nat.le_trans target (by decide), .inl target⟩
    · -- a list of one piece ends with a fitted one
      have isFitted : piece ∈ groups.flatten :=
        layout.lasts.subset (List.mem_filterMap.mpr ⟨[piece], member, rfl⟩)
      refine ⟨counted, ?_, .inr ⟨piece, isFitted, rfl⟩⟩
      simpa [totalTokens] using (fitted piece isFitted).2

end StructureAwareChunker

/-! ## Three paragraphs of which two fit -/

/-- A paragraph of one word as one piece. -/
def word (order : Nat) : Fragment := ⟨neighbour headedBlock order, 0, 1, 1⟩

theorem word_exact (order : Nat) : @Fragment.Exact asciiWords (word order) := by
  let := asciiWords
  have tokens : spans (neighbour headedBlock order).text = [⟨"a".toList, 0, 1⟩] := by
    change spans "a".toList = _
    decide
  refine ⟨⟨⟨⟨"a".toList, 0, 1⟩, ?_, rfl⟩, ⟨⟨"a".toList, 0, 1⟩, ?_, rfl⟩, Nat.zero_lt_one⟩, ?_⟩
  · exact tokens ▸ List.mem_singleton_self _
  · exact tokens ▸ List.mem_singleton_self _
  · rw [Fragment.length_tokens, count]
    change 1 = (spans (slice 0 1 "a".toList)).length
    decide

theorem word_small (order : Nat) :
    @Fragment.Exact asciiWords (word order) ∧ (word order).tokenCount ≤ PIPELINE.chunkMaxTokens :=
  ⟨word_exact order, by simp [word]⟩

namespace StructureAwareChunker

theorem packSection_lays_words :
    (∀ p ∈ [word 1, word 2, word 3],
      @Fragment.Exact asciiWords p ∧ p.tokenCount ≤ PIPELINE.chunkMaxTokens) ∧
    @packSection asciiWords (lengthBudget 55) headedDocument [word 1, word 2, word 3] =
      .ok [[word 1, word 2], [word 2, word 3]] ∧
    ∃ parts : List (Laid Fragment),
      [[word 1, word 2], [word 2, word 3]] = parts.map Laid.list ∧
      parts.flatMap Laid.rest = [word 1, word 2, word 3] := by
  let := asciiWords
  have source : ∀ p ∈ [word 1, word 2, word 3],
      p.Exact ∧ p.tokenCount ≤ PIPELINE.chunkMaxTokens := by
    simp only [List.forall_mem_cons]
    exact ⟨word_small 1, word_small 2, word_small 3, by simp⟩
  have fits : [word 1, word 2, word 3].mapM (fitPiece (lengthBudget 55) headedDocument) =
      .ok [[word 1], [word 2], [word 3]] :=
    eq_ok_of_toOption (by decide)
  have returned : packSection (lengthBudget 55) headedDocument [word 1, word 2, word 3] =
      .ok [[word 1, word 2], [word 2, word 3]] :=
    eq_ok_of_toOption (by decide)
  obtain ⟨groups, parts, fitted, packed, rests, -⟩ :=
    (packSection_lays (lengthBudget 55) headedDocument source).2 _ returned
  cases fits.symm.trans fitted
  exact ⟨source, returned, parts, packed, rests⟩

end StructureAwareChunker

end SupportPilot.Rag
