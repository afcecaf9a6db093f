import SupportPilot.Rag.Sentences

/-! # Fragments as runs of tokens

A fragment of the chunker starts and ends where tokens of its block start and
end (`Aligned`).  Tokenizing its text then gives the tokens of the block that
lie in it, moved to its start (`tokens_eq_filter`), and these are consecutive
tokens of the block (`tokens_consecutive`).  Every fragment the chunker builds
from consecutive tokens has exactly these tokens (`fragmentFromTokens_run`), so
the functions above this layer are specified by the tokens of the fragments
they return. -/

namespace SupportPilot.Rag

open Lib Lib.Regex ChunkTokenizer

theorem isApostrophe_of_isStop {c : Char} (stop : isStop c = true) : isApostrophe c = false := by
  simp only [isStop, Bool.or_eq_true, decide_eq_true_eq] at stop
  rcases stop with (rfl | rfl) | rfl <;> rfl

theorem fragmentFromTokens_eq (block : CanonicalBlock) {run : List TokenSpan} (nonempty : run ≠ []) :
    fragmentFromTokens block run =
      .ok ⟨block, (run.head nonempty).start, (run.getLast nonempty).stop, run.length⟩ := by
  rw [fragmentFromTokens, List.head?_eq_some_head nonempty, List.getLast?_eq_some_getLast nonempty]

variable [WordChars]

/-! ## Token boundaries -/

theorem isWord_of_isStop {c : Char} (stop : isStop c = true) : isWord c = false := by
  simp only [isStop, Bool.or_eq_true, decide_eq_true_eq] at stop
  rcases stop with (rfl | rfl) | rfl <;> exact WordChars.ascii _ (by decide)

theorem boundary_zero (text : Text) : Boundary tokenPattern text 0 :=
  fun x _ => .inr (Nat.zero_le x.start)

theorem boundary_length (text : Text) : Boundary tokenPattern text text.length :=
  fun _ member => .inl (names_token member).within

/-- A stop is a token of its own, so a token ends behind it. -/
theorem boundary_afterStop {text : Text} {k : Nat} (after : AfterStop text k) :
    Boundary tokenPattern text k := by
  obtain ⟨i, c, rfl, read, stop⟩ := after
  intro x member
  by_cases start : x.start ≤ i
  · by_cases bound : i < x.stop
    · have single := token_of_symbol member start bound read (isWord_of_isStop stop)
        (isApostrophe_of_isStop stop)
      exact .inl (by omega)
    · exact .inl (by omega)
  · exact .inr (by omega)

theorem sentence_boundaries {text : Text} {s : Span} (member : s ∈ finditer sentencePattern text) :
    Boundary tokenPattern text s.start ∧ Boundary tokenPattern text s.stop := by
  obtain ⟨start, stop⟩ := sentence_edges s member
  constructor
  · rcases start with zero | after
    · rw [zero]
      exact boundary_zero text
    · exact boundary_afterStop after
  · rcases stop with atEnd | after
    · rw [atEnd]
      exact boundary_length text
    · exact boundary_afterStop after

/-- Tokens of a slice that cuts no token. -/
theorem spans_slice {text : Text} {a b : Nat} (le : a ≤ b) (left : Boundary tokenPattern text a)
    (right : Boundary tokenPattern text b) :
    (spans (slice a b text)).map (Span.shift a) = (spans text).filter (Span.inside a b) :=
  finditer_slice tokenPattern_local tokenPattern_nonEmpty le left right

/-! ## Aligned fragments -/

namespace Fragment

/-- The tokens of the fragment's text, at their positions in the block. -/
def tokens (fragment : Fragment) : List TokenSpan :=
  (spans fragment.text).map (Span.shift fragment.charStart)

/-- The fragment cuts no token of its block. -/
structure Uncut (fragment : Fragment) : Prop where
  starts : Boundary tokenPattern fragment.block.text fragment.charStart
  stops : Boundary tokenPattern fragment.block.text fragment.charEnd

/-- The fragment starts and ends with tokens of its block. -/
structure Aligned (fragment : Fragment) : Prop where
  starts : ∃ x ∈ spans fragment.block.text, x.start = fragment.charStart
  stops : ∃ x ∈ spans fragment.block.text, x.stop = fragment.charEnd
  nonempty : fragment.charStart < fragment.charEnd

/-- An aligned fragment that carries its number of tokens. -/
structure Exact (fragment : Fragment) : Prop extends Aligned fragment where
  tokenCount_eq : fragment.tokenCount = fragment.tokens.length

/-- A part of another fragment of the same block. -/
structure Within (fragment whole : Fragment) : Prop where
  sameBlock : fragment.block = whole.block
  tokens : fragment.tokens ⊆ whole.tokens

theorem Within.refl (fragment : Fragment) : Within fragment fragment :=
  ⟨rfl, fun _ member => member⟩

theorem Within.trans {f g h : Fragment} (first : Within f g) (second : Within g h) : Within f h :=
  ⟨first.sameBlock.trans second.sameBlock, fun _ member => second.tokens (first.tokens member)⟩

variable {fragment : Fragment}

theorem length_tokens (fragment : Fragment) : fragment.tokens.length = count fragment.text := by
  rw [tokens, List.length_map, count]

theorem Aligned.uncut (aligned : Aligned fragment) : Uncut fragment := by
  obtain ⟨⟨x, first, start⟩, ⟨y, last, stop⟩, -⟩ := aligned
  constructor
  · rw [← start]
    exact boundary_start tokenPattern_nonEmpty first
  · rw [← stop]
    exact boundary_stop tokenPattern_nonEmpty last

theorem Aligned.within (aligned : Aligned fragment) :
    fragment.charEnd ≤ fragment.block.text.length := by
  obtain ⟨x, member, stop⟩ := aligned.stops
  rw [← stop]
  exact (names_token member).within

theorem tokens_eq_nil (empty : fragment.charEnd ≤ fragment.charStart) : fragment.tokens = [] := by
  have none : fragment.text = [] := by
    rw [← List.length_eq_zero_iff, Fragment.text, length_slice]
    omega
  rw [tokens, none]
  rfl

theorem tokens_eq_filter (uncut : Uncut fragment) :
    fragment.tokens =
      (spans fragment.block.text).filter (Span.inside fragment.charStart fragment.charEnd) := by
  rcases Nat.le_total fragment.charStart fragment.charEnd with le | ge
  · exact spans_slice le uncut.starts uncut.stops
  · rw [tokens_eq_nil ge, eq_comm, List.filter_eq_nil_iff]
    intro x member inside
    rw [Span.inside_iff] at inside
    have := (names_token member).nonempty
    omega

theorem tokens_consecutive (uncut : Uncut fragment) :
    fragment.tokens <:+: spans fragment.block.text := by
  rcases Nat.le_total fragment.charStart fragment.charEnd with le | ge
  · exact slice_consecutive tokenPattern_local tokenPattern_nonEmpty le uncut.starts uncut.stops
  · rw [tokens_eq_nil ge]
    exact List.nil_infix

theorem mem_tokens (aligned : Aligned fragment) {x : TokenSpan} :
    x ∈ fragment.tokens ↔ x ∈ spans fragment.block.text ∧ fragment.charStart ≤ x.start ∧
      x.stop ≤ fragment.charEnd := by
  rw [tokens_eq_filter aligned.uncut, List.mem_filter, Span.inside_iff]

/-- The first token of an aligned fragment. -/
theorem Aligned.first (aligned : Aligned fragment) :
    ∃ x ∈ fragment.tokens, x.start = fragment.charStart := by
  obtain ⟨x, member, start⟩ := aligned.starts
  refine ⟨x, (mem_tokens aligned).mpr ⟨member, by omega, ?_⟩, start⟩
  have := aligned.uncut.stops x member
  have := aligned.nonempty
  omega

/-- The last token of an aligned fragment. -/
theorem Aligned.last (aligned : Aligned fragment) :
    ∃ x ∈ fragment.tokens, x.stop = fragment.charEnd := by
  obtain ⟨x, member, stop⟩ := aligned.stops
  refine ⟨x, (mem_tokens aligned).mpr ⟨member, ?_, by omega⟩, stop⟩
  have := aligned.uncut.starts x member
  have := aligned.nonempty
  omega

theorem tokens_ne_nil (aligned : Aligned fragment) : fragment.tokens ≠ [] := by
  obtain ⟨x, member, -⟩ := aligned.first
  exact List.ne_nil_of_mem member

theorem Exact.positive (exact : Exact fragment) : 1 ≤ fragment.tokenCount := by
  rw [exact.tokenCount_eq]
  exact List.length_pos_of_ne_nil (tokens_ne_nil exact.toAligned)

/-- An exact fragment is determined by its tokens. -/
theorem eq_of_tokens {f g : Fragment} (left : Exact f) (right : Exact g)
    (sameBlock : f.block = g.block) (tokens : f.tokens = g.tokens) : f = g := by
  have bounds : ∀ {f g : Fragment}, Exact f → Exact g → f.tokens = g.tokens →
      g.charStart ≤ f.charStart ∧ f.charEnd ≤ g.charEnd := by
    intro f g left right tokens
    obtain ⟨x, first, start⟩ := left.first
    obtain ⟨y, last, stop⟩ := left.last
    rw [tokens, mem_tokens right.toAligned] at first last
    omega
  have lower := bounds left right tokens
  have upper := bounds right left tokens.symm
  have counts : f.tokenCount = g.tokenCount := by
    rw [left.tokenCount_eq, right.tokenCount_eq, tokens]
  obtain ⟨block, charStart, charEnd, tokenCount⟩ := f
  obtain ⟨block', charStart', charEnd', tokenCount'⟩ := g
  simp only [mk.injEq] at lower upper sameBlock counts ⊢
  exact ⟨sameBlock, by omega, by omega, counts⟩

/-- The text of an aligned fragment is not blank. -/
theorem strip_text_ne_nil (aligned : Aligned fragment) : strip fragment.text ≠ [] := by
  intro blank
  have none := spans_blank (strip_eq_nil.1 blank)
  exact tokens_ne_nil aligned (by rw [tokens, none, List.map_nil])

end Fragment

/-! ## Building fragments -/

/-- A fragment built from consecutive tokens of its block has these tokens. -/
theorem fragmentFromTokens_run {block : CanonicalBlock} {run : List TokenSpan}
    (consecutive : run <:+: spans block.text) (nonempty : run ≠ []) :
    ∃ fragment, fragmentFromTokens block run = .ok fragment ∧ fragment.block = block ∧
      fragment.Exact ∧ fragment.tokens = run := by
  have same := finditer_run tokenPattern_local tokenPattern_nonEmpty consecutive nonempty
  have first := consecutive.subset (List.head_mem nonempty)
  have last := consecutive.subset (List.getLast_mem nonempty)
  have kept := filter_inside_run tokenPattern_nonEmpty consecutive nonempty
  refine ⟨_, fragmentFromTokens_eq block nonempty, rfl, ⟨⟨⟨_, first, rfl⟩, ⟨_, last, rfl⟩, ?_⟩, ?_⟩,
    same⟩
  · have member : ∀ x ∈ run, x.inside (run.head nonempty).start (run.getLast nonempty).stop = true := by
      intro x member
      rw [← kept] at member
      exact (List.mem_filter.mp member).2
    have inside := Span.inside_iff.1 (member _ (List.head_mem nonempty))
    have := (names_token first).nonempty
    dsimp only
    omega
  · exact (congrArg List.length same).symm

/-! ## Splitting a block -/

theorem block_spans_ne_nil (block : CanonicalBlock) : spans block.text ≠ [] := by
  intro none
  refine block.text_nonempty (strip_eq_nil.2 fun c member => ?_)
  by_contra visible
  exact spans_ne_nil member (by simpa using visible) none

/-- The windows of consecutive tokens. -/
theorem windows_ok {block : CanonicalBlock} {run : List TokenSpan} {size : Nat}
    (positive : 0 < size) (consecutive : run <:+: spans block.text) :
    ∃ pieces, (rangeStep run.length size).mapM
        (fun start => fragmentFromTokens block (slice start (start + size) run)) = .ok pieces ∧
      (∀ piece ∈ pieces, piece.block = block ∧ piece.Exact ∧ piece.tokenCount ≤ size) ∧
      pieces.flatMap Fragment.tokens = run := by
  have window : ∀ start ∈ rangeStep run.length size, ∃ piece,
      fragmentFromTokens block (slice start (start + size) run) = .ok piece ∧
        (piece.block = block ∧ piece.Exact ∧
          piece.tokens = slice start (start + size) run) := by
    intro start member
    have early := lt_of_mem_rangeStep positive member
    refine fragmentFromTokens_run ((isInfix_slice _ _ _).trans consecutive) ?_
    rw [← List.length_pos_iff, length_slice]
    omega
  obtain ⟨pieces, mapped, related⟩ := exists_mapM _ window
  refine ⟨pieces, mapped, fun piece member => ?_, ?_⟩
  · obtain ⟨start, -, sameBlock, exact, tokens⟩ := exists_of_mem_forall₂ related member
    refine ⟨sameBlock, exact, ?_⟩
    rw [exact.tokenCount_eq, tokens, length_slice]
    omega
  · rw [flatMap_of_forall₂ (related.imp fun _ _ holds => holds.2.2), flatMap_windows positive]

namespace StructureAwareChunker

/-- A block within the limit is one piece. -/
theorem splitBlock_small {block : CanonicalBlock}
    (small : count block.text ≤ PIPELINE.chunkMaxTokens) :
    ∃ piece, splitBlock block = .ok [piece] ∧ piece.block = block ∧ piece.Exact ∧
      piece.tokens = spans block.text := by
  obtain ⟨piece, built, sameBlock, exact, tokens⟩ :=
    fragmentFromTokens_run List.infix_rfl (block_spans_ne_nil block)
  refine ⟨piece, ?_, sameBlock, exact, tokens⟩
  rw [count] at small
  simp only [splitBlock, if_pos small, built]
  rfl

/-- The pieces of a longer block hold the tokens that lie in sentences. -/
theorem splitBlock_large {block : CanonicalBlock}
    (large : PIPELINE.chunkMaxTokens < count block.text) :
    ∃ pieces, splitBlock block = .ok pieces ∧
      (∀ piece ∈ pieces, piece.block = block ∧ piece.Exact ∧
        piece.tokenCount ≤ PIPELINE.chunkTargetTokens) ∧
      pieces.flatMap Fragment.tokens = (finditer sentencePattern block.text).flatMap
        fun s => (spans block.text).filter (Span.inside s.start s.stop) := by
  have sentence : ∀ s ∈ finditer sentencePattern block.text, ∃ pieces,
      (do
        let sentenceTokens := spans s.text
        if sentenceTokens.isEmpty then
          return []
        let absolute := sentenceTokens.map (Span.shift s.start)
        (rangeStep absolute.length PIPELINE.chunkTargetTokens).mapM fun start =>
          fragmentFromTokens block
            (slice start (start + PIPELINE.chunkTargetTokens) absolute)) = .ok pieces ∧
      ((∀ piece ∈ pieces, piece.block = block ∧ piece.Exact ∧
        piece.tokenCount ≤ PIPELINE.chunkTargetTokens) ∧
      pieces.flatMap Fragment.tokens =
        (spans block.text).filter (Span.inside s.start s.stop)) := by
    intro s member
    obtain ⟨nonempty, within, same⟩ := names_of_mem_finditer sentencePattern_nonEmpty member
    obtain ⟨left, right⟩ := sentence_boundaries member
    have le := Nat.le_of_lt nonempty
    have absolute : (spans s.text).map (Span.shift s.start) =
        (spans block.text).filter (Span.inside s.start s.stop) := by
      rw [same]
      exact spans_slice le left right
    have consecutive : (spans s.text).map (Span.shift s.start) <:+: spans block.text := by
      rw [same]
      exact slice_consecutive tokenPattern_local tokenPattern_nonEmpty le left right
    dsimp only
    split
    -- a sentence without tokens
    next empty =>
      rw [List.isEmpty_iff] at empty
      rw [← absolute, empty]
      exact ⟨[], rfl, by simp, rfl⟩
    next =>
      rw [← absolute]
      exact windows_ok (by simp) consecutive
  obtain ⟨groups, mapped, related⟩ := exists_mapM _ sentence
  refine ⟨groups.flatten, ?_, fun piece member => ?_, ?_⟩
  · rw [count] at large
    simp only [splitBlock, if_neg (Nat.not_le.mpr large)]
    rw [mapped]
    rfl
  · obtain ⟨pieces, present, inside⟩ := List.mem_flatten.mp member
    obtain ⟨s, -, holds, -⟩ := exists_of_mem_forall₂ related present
    exact holds piece inside
  · rw [List.flatten_eq_flatMap, List.flatMap_assoc]
    exact flatMap_of_forall₂ (related.imp fun _ _ holds => holds.2)

end StructureAwareChunker

end SupportPilot.Rag
