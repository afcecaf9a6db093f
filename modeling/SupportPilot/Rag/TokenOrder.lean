import SupportPilot.Rag.Coverage
import SupportPilot.Rag.Rejection

/-! # The order of the kept tokens

The pieces keep the tokens of the blocks in document order (`kept_sorted`), and the
blocks that are intact keep all of them (`mem_kept_of_intact`). -/

namespace SupportPilot.Rag

open Lib Lib.Regex ChunkTokenizer StructureAwareChunker

/-- The one token ends before the other one starts. -/
def Before (left right : CanonicalBlock × TokenSpan) : Prop :=
  left.1.order < right.1.order ∨ left.1 = right.1 ∧ left.2.stop ≤ right.2.start

variable [WordChars]

theorem spans_sorted (text : Text) : (spans text).Pairwise fun x y => x.stop ≤ y.start :=
  finditer_sorted tokenPattern_nonEmpty text

theorem spans_nodup (text : Text) : (spans text).Nodup := by
  rw [List.nodup_iff_pairwise_ne]
  apply (spans_sorted text).imp_of_mem
  intro x y left _ before same
  have nonempty := (names_token left).nonempty
  rw [same] at nonempty before
  omega

theorem keptTokens_sorted (block : CanonicalBlock) :
    (keptTokens block).Pairwise fun x y => x.stop ≤ y.start := by
  rw [keptTokens]
  split
  next => exact spans_sorted block.text
  next =>
    rw [List.pairwise_flatMap]
    constructor
    · intro sentence _
      exact (spans_sorted block.text).sublist List.filter_sublist
    · apply (finditer_sorted sentencePattern_nonEmpty block.text).imp
      intro s s' before x left y right
      rw [List.mem_filter, Span.inside_iff] at left right
      omega

theorem keptTokens_subset (block : CanonicalBlock) : keptTokens block ⊆ spans block.text := by
  rw [keptTokens]
  split
  next => exact fun x member => member
  next =>
    intro x member
    obtain ⟨sentence, -, inside⟩ := List.mem_flatMap.mp member
    exact (List.mem_filter.mp inside).1

/-- Blocks in document order keep their tokens in document order. -/
theorem kept_sorted {blocks : List CanonicalBlock}
    (sorted : blocks.Pairwise fun b b' => b.order < b'.order) :
    (blocks.flatMap kept).Pairwise Before := by
  rw [List.pairwise_flatMap]
  constructor
  · intro block _
    rw [kept, List.pairwise_map]
    exact (keptTokens_sorted block).imp fun before => .inr ⟨rfl, before⟩
  · apply sorted.imp
    intro b b' less x left y right
    obtain ⟨token, -, rfl⟩ := List.mem_map.mp left
    obtain ⟨token', -, rfl⟩ := List.mem_map.mp right
    exact .inl less

theorem mem_kept {block b : CanonicalBlock} {token : TokenSpan} :
    (b, token) ∈ kept block ↔ b = block ∧ token ∈ keptTokens block := by
  simp only [kept, List.mem_map, Prod.mk.injEq]
  constructor
  · intro found
    obtain ⟨x, member, rfl, rfl⟩ := found
    exact ⟨rfl, member⟩
  · intro found
    obtain ⟨rfl, member⟩ := found
    exact ⟨token, member, rfl, rfl⟩

theorem mem_kept_of_intact {block : CanonicalBlock} (intact : Intact block) {token : TokenSpan}
    (member : token ∈ spans block.text) : token ∈ keptTokens block := by
  obtain ⟨pieces, split⟩ := splitBlock_total block
  obtain ⟨piece, isPiece, inside⟩ := pieces_cover intact split member
  rw [← tokens_splitBlock split]
  exact List.mem_flatMap.mpr ⟨piece, isPiece, inside⟩

end SupportPilot.Rag
