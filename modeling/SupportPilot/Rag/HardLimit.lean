import Mathlib.Algebra.Order.BigOperators.Group.List
import SupportPilot.Rag.TokenOrder

/-! # The hard maximum

`_pack_section` adds up the token counts of fragments, and no sum exceeds the hard
maximum.  What is stored is the text between the first and the last fragment of each
block, which also holds what lies between two sentences and in none: the stored counts
keep the limit where that is little enough (`Compact`). -/

namespace SupportPilot.Rag

open Lib Lib.Regex ChunkTokenizer StructureAwareChunker

/-- The error that `_pack_section` keeps for a list above the hard maximum. -/
def hardMaximum : PyError := .valueError "C1 chunk exceeded its hard maximum"

section Limit

variable [WordChars]

/-- The token lies between tokens of the run that are in its block. -/
def spanned (run : List (CanonicalBlock × TokenSpan)) (block : CanonicalBlock)
    (token : TokenSpan) : Bool :=
  (run.any fun x => x.1 = block && x.2.start ≤ token.start) &&
    run.any fun x => x.1 = block && token.stop ≤ x.2.stop

/-- The number of tokens of the blocks that the run spans. -/
def extent (blocks : List CanonicalBlock) (run : List (CanonicalBlock × TokenSpan)) : Nat :=
  (blocks.map fun block => (spans block.text).countP (spanned run block)).sum

/-- In each section, tokens for one chunk that are kept one after the other do not span more
tokens than the hard maximum. -/
def Compact (document : CanonicalDocument) : Prop :=
  ∀ blocks ∈ sections document.blocks, ∀ run, run <:+: blocks.flatMap kept →
    run.length ≤ PIPELINE.chunkTargetTokens →
      extent document.blocks run ≤ PIPELINE.chunkMaxTokens

/-! ## What a chunk stores -/

section Stored

variable {document : CanonicalDocument} {fragments : List Fragment}

/-- A merged fragment holds tokens that the fragments span. -/
theorem length_merged_tokens (aligned : ∀ f ∈ fragments, f.Aligned) {merged : List Fragment}
    (spec : Merged fragments merged) {m : Fragment} (member : m ∈ merged) :
    m.tokens.length ≤
      (spans m.block.text).countP (spanned (fragments.flatMap Fragment.placed) m.block) := by
  have alignedMerged := spec.aligned m member
  obtain ⟨f, isFirst, sameBlock, start⟩ := spec.starts m member
  obtain ⟨g, isLast, sameBlock', stop⟩ := spec.stops m member
  obtain ⟨x, inFirst, atStart⟩ := (aligned f isFirst).first
  obtain ⟨y, inLast, atStop⟩ := (aligned g isLast).last
  have first : (m.block, x) ∈ fragments.flatMap Fragment.placed :=
    List.mem_flatMap.mpr ⟨f, isFirst, Fragment.mem_placed.2 ⟨sameBlock, inFirst⟩⟩
  have last : (m.block, y) ∈ fragments.flatMap Fragment.placed :=
    List.mem_flatMap.mpr ⟨g, isLast, Fragment.mem_placed.2 ⟨sameBlock', inLast⟩⟩
  rw [Fragment.tokens_eq_filter alignedMerged.uncut, ← List.countP_eq_length_filter]
  apply List.countP_mono_left
  intro token _ inside
  rw [Span.inside_iff] at inside
  simp only [spanned, Bool.and_eq_true, List.any_eq_true, decide_eq_true_eq]
  exact ⟨⟨_, first, rfl, by dsimp only; omega⟩, _, last, rfl, by dsimp only; omega⟩

/-- The stored text has no more tokens than the fragments span. -/
theorem count_merged (aligned : ∀ f ∈ fragments, f.Aligned) (ordered : Ordered document fragments) :
    count (joinTexts (mergeFragments fragments)) ≤
      extent document.blocks (fragments.flatMap Fragment.placed) := by
  obtain ⟨spec, -⟩ := mergeFragments_ok aligned ordered
  -- the merged fragments belong to different blocks of the document
  have different : ((mergeFragments fragments).map Fragment.block).Nodup := by
    rw [List.nodup_iff_pairwise_ne, List.pairwise_map]
    apply spec.sorted.imp
    intro m m' less same
    rw [same] at less
    exact Nat.lt_irrefl _ less
  have inDocument : (mergeFragments fragments).map Fragment.block ⊆ document.blocks := by
    intro block member
    obtain ⟨m, isMerged, rfl⟩ := List.mem_map.mp member
    obtain ⟨f, isFragment, sameBlock, -⟩ := spec.starts m isMerged
    rw [← sameBlock]
    exact ordered.inDocument f isFragment
  obtain ⟨blocks, permuted, sublist⟩ := List.subperm_of_subset different inDocument
  calc count (joinTexts (mergeFragments fragments))
      = ((mergeFragments fragments).map fun m => m.tokens.length).sum := by
        rw [count_joinTexts]
        simp only [Fragment.length_tokens]
    _ ≤ ((mergeFragments fragments).map fun m => (spans m.block.text).countP
          (spanned (fragments.flatMap Fragment.placed) m.block)).sum :=
        List.sum_le_sum fun m member => length_merged_tokens aligned spec member
    _ = extent ((mergeFragments fragments).map Fragment.block)
          (fragments.flatMap Fragment.placed) := by
        rw [extent, List.map_map]
        rfl
    _ = extent blocks (fragments.flatMap Fragment.placed) :=
        (permuted.map _).sum_eq.symm
    _ ≤ extent document.blocks (fragments.flatMap Fragment.placed) :=
        (sublist.map _).sum_le_sum fun _ _ => Nat.zero_le _

end Stored

/-! ## The limit -/

variable {document : CanonicalDocument}

/-- What the tokens of a packed list span. -/
theorem extent_of_pack {budget : InputBudget} (compact : Compact document) {pack : List Fragment}
    (isPack : IsPack budget document pack) :
    count (joinTexts (mergeFragments pack)) ≤ PIPELINE.chunkMaxTokens := by
  obtain ⟨-, aligned, ordered⟩ := isPack.ordered
  obtain ⟨group, member, packs, returned, present⟩ := isPack
  obtain ⟨fitted, spec⟩ := packBlocks_layout returned
  obtain target | ⟨piece, rfl⟩ := spec.bounded pack present
  · -- the list holds consecutive tokens, no more than the target
    have consecutive := spec.layout.isInfix pack present
    rw [spec.tokens] at consecutive
    rw [totalTokens_eq ((section_ok member returned).exact pack present)] at target
    exact Nat.le_trans (count_merged aligned ordered)
      (compact group member _ consecutive target)
  · -- a single piece is stored as it is
    have isFitted : piece ∈ fitted :=
      spec.layout.lasts.subset (List.mem_filterMap.mpr ⟨[piece], present, rfl⟩)
    have exact := spec.exact piece isFitted
    have alone : joinTexts (mergeFragments [piece]) = piece.text := joinTexts_singleton _
    rw [alone, ← Fragment.length_tokens, ← exact.tokenCount_eq]
    exact spec.small piece isFitted

/-- A document is compact when its blocks are intact: between two tokens of a run lie only
tokens of the run. -/
theorem compact_of_intact (intact : ∀ block ∈ document.blocks, Intact block) :
    Compact document := by
  intro group member run isInfix short
  have sublist := List.sublist_flatten_of_mem member
  rw [flatten_sections] at sublist
  have sorted := document.orders_sorted.sublist sublist
  have between : ∀ block ∈ document.blocks, ∀ token ∈ spans block.text,
      spanned run block token = true → (block, token) ∈ run := by
    intro block isBlock token isToken inside
    simp only [spanned, Bool.and_eq_true, List.any_eq_true, decide_eq_true_eq] at inside
    obtain ⟨⟨x, left, sameBlock, start⟩, y, right, sameBlock', stop⟩ := inside
    have nonempty := (names_token isToken).nonempty
    have inGroup : block ∈ group := by
      obtain ⟨b, isBlock, isKept⟩ := List.mem_flatMap.mp (isInfix.subset left)
      rwa [← sameBlock, (mem_kept.1 isKept).1]
    have isKept : (block, token) ∈ group.flatMap kept := List.mem_flatMap.mpr
      ⟨block, inGroup, mem_kept.2 ⟨rfl, mem_kept_of_intact (intact block isBlock) isToken⟩⟩
    apply mem_of_between (kept_sorted sorted) isInfix left right isKept
    · simp only [Before, sameBlock]
      omega
    · simp only [Before, sameBlock']
      omega
  -- the tokens that the run spans are different tokens of the run
  have counted : extent document.blocks run = ((document.blocks.flatMap fun block =>
      (spans block.text).map fun token => (block, token)).filter fun x =>
        spanned run x.1 x.2).length := by
    rw [extent, ← List.countP_eq_length_filter, List.countP_flatMap]
    congr 1
    apply List.map_congr_left
    intro block _
    rw [Function.comp_apply, List.countP_map]
    rfl
  have different : (document.blocks.flatMap fun block =>
      (spans block.text).map fun token => (block, token)).Nodup := by
    rw [List.nodup_flatMap]
    constructor
    · intro block _
      exact (spans_nodup block.text).map fun x y same => (Prod.mk.inj same).2
    · apply document.orders_sorted.imp
      intro b b' less x left right
      obtain ⟨token, -, rfl⟩ := List.mem_map.mp left
      obtain ⟨token', -, same⟩ := List.mem_map.mp right
      rw [(Prod.mk.inj same).1] at less
      exact Nat.lt_irrefl _ less
  rw [counted]
  apply Nat.le_trans _ (Nat.le_trans short (by decide))
  apply List.Subperm.length_le
  apply List.subperm_of_subset (different.filter _)
  intro x present
  obtain ⟨inDocument, inside⟩ := List.mem_filter.mp present
  obtain ⟨block, isBlock, inBlock⟩ := List.mem_flatMap.mp inDocument
  obtain ⟨token, isToken, rfl⟩ := List.mem_map.mp inBlock
  exact between block isBlock token isToken inside

end Limit

/-! ## A paragraph with a short sentence at either end -/

/-- `n` words. -/
def padding : Nat → Text
  | 0 => []
  | n + 1 => " ".toList ++ "a".toList ++ padding n

attribute [local simp] padding

theorem count_padding (n : Nat) (text : Text) :
    @count asciiWords (text ++ padding n) = @count asciiWords text + n := by
  let := asciiWords
  induction n generalizing text with
  | zero => rw [padding, List.append_nil, Nat.add_zero]
  | succ n ih =>
    have word : count "a".toList = 1 := by decide
    rw [padding, List.append_assoc, ← List.append_assoc,
      count_append (by simp) (List.all_eq_true.mp rfl), ih, word]
    omega

theorem noStops_padding (n : Nat) : NoStops (padding n) := by
  induction n with
  | zero => simp [NoStops]
  | succ n ih =>
    intro c member
    simp only [padding, List.mem_append] at member
    obtain (space | word) | later := member
    · rw [List.mem_singleton.mp space]
      rfl
    · rw [List.mem_singleton.mp word]
      rfl
    · exact ih c later

theorem length_padding (n : Nat) : (padding n).length = 2 * n := by
  induction n with
  | zero => rfl
  | succ n ih =>
    simp [ih]
    omega

/-- `s.`, then `n` words, then `1.5.`. -/
def gapped (n : Nat) : Text :=
  "s".toList ++ ".".toList ++ (padding n ++ " 1".toList ++ ".".toList ++ "5.".toList)

theorem count_gapped (n : Nat) : @count asciiWords (gapped n) = n + 6 := by
  let := asciiWords
  have first : count "s.".toList = 2 := by decide
  have number : count "1.5.".toList = 4 := by decide
  have shape : gapped n = ("s.".toList ++ padding n) ++ " ".toList ++ "1.5.".toList := by
    simp [gapped]
  rw [shape, count_append (by simp) (List.all_eq_true.mp rfl), count_padding, first, number]
  omega

theorem length_gapped (n : Nat) : (gapped n).length = 2 * n + 7 := by
  simp [gapped, length_padding]

/-- The words lie in no sentence. -/
theorem sentences_gapped (n : Nat) : finditer sentencePattern (gapped n) =
    [⟨"s.".toList, 0, 2⟩, ⟨"5.".toList, 2 * n + 5, 2 * n + 7⟩] := by
  have first : matchLength sentencePattern (gapped n) = some 2 := by
    apply match_accepted (by simp) (by simp [NoStops, isStop]) (by simp) (by simp [Stops, isStop])
    · cases n <;> simp [RunEnds, isStop]
    · cases n <;> simp [Ahead, isSpace]
  have words : NoStops (padding n ++ " 1".toList) := by
    intro c member
    obtain early | late := List.mem_append.mp member
    · exact noStops_padding n c early
    · simp at late
      obtain rfl | rfl := late <;> rfl
  have last : finditer sentencePattern "5.".toList = [⟨"5.".toList, 0, 2⟩] := by decide
  rw [finditer_matched (by omega) first]
  have rest : (gapped n).drop 2 = padding n ++ " 1".toList ++ ".".toList ++ "5.".toList := rfl
  rw [rest, finditer_rejected words (by simp) (by simp [Stops, isStop]) (by simp [RunEnds, isStop])
    (by simp [Ahead, isSpace]), last]
  simp [gapped, Span.shift, length_padding]
  omega

theorem strip_gapped (n : Nat) : strip (gapped n) = gapped n := by
  have head : (gapped n).dropWhile isSpace = gapped n := rfl
  have shape : gapped n =
      ("s".toList ++ ".".toList ++ (padding n ++ " 1".toList ++ ".".toList ++ ['5'])) ++ ['.'] := by
    simp [gapped]
  rw [strip, head, List.rdropWhile_eq_self_iff]
  intro nonempty
  simp only [shape, List.getLast_append_singleton]
  decide

theorem plainText_nonempty : "text/plain".toList ≠ [] := List.cons_ne_nil _ _

/-- A document of one block. -/
def alone (block : CanonicalBlock) (first : block.order = 0) : CanonicalDocument where
  documentId := 0
  versionId := 0
  title := []
  mediaType := "text/plain".toList
  blocks := [block]
  mediaType_nonempty := plainText_nonempty
  blocks_nonempty := List.cons_ne_nil block []
  blockIds_unique := List.nodup_singleton block.blockId
  orders_contiguous := by simp [first]

def gappedBlock : CanonicalBlock where
  blockId := "b000000".toList
  order := 0
  kind := .paragraph
  text := gapped 500
  headingPath := []
  pageNumber := none
  blockId_nonempty := firstId_nonempty
  text_nonempty := by
    rw [strip_gapped]
    exact List.cons_ne_nil _ _
  text_normalized := strip_gapped 500
  page_positive := unpaged_positive

def gappedDocument : CanonicalDocument := alone gappedBlock rfl

/-- A budget without a limit. -/
def unlimited : InputBudget := ⟨fun _ => true, fun _ => .ok ()⟩

theorem splitBlock_gapped : @splitBlock asciiWords gappedBlock =
    .ok [⟨gappedBlock, 0, 2, 2⟩, ⟨gappedBlock, 1005, 1007, 2⟩] := by
  let := asciiWords
  have sentences : finditer sentencePattern gappedBlock.text =
      [⟨"s.".toList, 0, 2⟩, ⟨"5.".toList, 1005, 1007⟩] := sentences_gapped 500
  have large : ¬ (spans gappedBlock.text).length ≤ PIPELINE.chunkMaxTokens := by
    have counted := count_gapped 500
    rw [show gapped 500 = gappedBlock.text from rfl, count] at counted
    rw [counted]
    decide
  have first : spans "s.".toList = [⟨"s".toList, 0, 1⟩, ⟨".".toList, 1, 2⟩] := by decide
  have last : spans "5.".toList = [⟨"5".toList, 0, 1⟩, ⟨".".toList, 1, 2⟩] := by decide
  simp only [splitBlock, if_neg large, sentences, List.mapM_cons, List.mapM_nil, first, last]
  rfl

end SupportPilot.Rag
