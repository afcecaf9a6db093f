import Mathlib.Algebra.Order.BigOperators.Group.List
import Mathlib.Algebra.Order.Group.Nat
import SupportPilot.Rag.Chunks

/-! # Which tokens the chunks cover

A block within the limit is covered as a whole.  A longer block is cut into
sentences, and the sentence pattern skips text where the block is not
`Readable`: then a document and a budget exist under which chunking succeeds and
a token of the block lies in no locator (`chunk_covers_iff`).  The chunks reach
the blocks in document order in any case. -/

namespace SupportPilot.Rag

open Lib Lib.Regex ChunkTokenizer StructureAwareChunker

section Coverage

variable [WordChars] {budget : InputBudget} {document : CanonicalDocument}
  {block : CanonicalBlock}

/-- The token lies inside a locator of one of the chunks. -/
def Located (chunks : List Chunk) (block : CanonicalBlock) (token : TokenSpan) : Prop :=
  ∃ chunk ∈ chunks, ∃ l ∈ chunk.locators, l.blockId = block.blockId ∧ l.blockIndex = block.order ∧
    l.charStart ≤ token.start ∧ token.stop ≤ l.charEnd

/-- The chunks reach the blocks in document order: within a chunk the locators go
forward, and no chunk goes back to a block that an earlier chunk has passed,
unless the earlier chunk holds that block too. -/
def ReachInOrder (chunks : List Chunk) : Prop :=
  (∀ chunk ∈ chunks, chunk.locators.Pairwise fun l l' => l.blockIndex < l'.blockIndex) ∧
    chunks.Pairwise fun earlier later => ∀ l ∈ earlier.locators, ∀ l' ∈ later.locators,
      l'.blockIndex < l.blockIndex → ∃ l'' ∈ earlier.locators, l''.blockIndex = l'.blockIndex

/-- Within the limit, or covered by its sentences. -/
def Intact (block : CanonicalBlock) : Prop :=
  count block.text ≤ PIPELINE.chunkMaxTokens ∨ Readable block.text

/-! ## Order -/

theorem exists_locator {fragments merged : List Fragment} {chunk : Chunk}
    (spec : ChunkSpec document fragments merged chunk) {f : Fragment} (member : f ∈ fragments) :
    ∃ l ∈ chunk.locators, l.blockId = f.block.blockId ∧ l.blockIndex = f.block.order ∧
      l.charStart ≤ f.charStart ∧ f.charEnd ≤ l.charEnd := by
  obtain ⟨m, present, sameBlock, start, stop⟩ := spec.spec.covers f member
  obtain ⟨l, isLocator, locates⟩ := exists_of_mem_forall₂ spec.locates.flip present
  refine ⟨l, isLocator, ?_, ?_, ?_, ?_⟩
  · rw [locates.blockId, sameBlock]
  · rw [locates.blockIndex, sameBlock]
  · rwa [locates.charStart]
  · rwa [locates.charEnd]

/-- Every locator comes from a fragment of its block that starts with it. -/
theorem exists_fragment {fragments merged : List Fragment} {chunk : Chunk}
    (spec : ChunkSpec document fragments merged chunk) {l : SourceLocator}
    (member : l ∈ chunk.locators) :
    ∃ m ∈ merged, Locates m l ∧ ∃ f ∈ fragments, f.block = m.block ∧
      f.charStart = m.charStart := by
  obtain ⟨m, present, locates⟩ := exists_of_mem_forall₂ spec.locates member
  exact ⟨m, present, locates, spec.spec.starts m present⟩

theorem chunkSpecs [IdentityDigest] {chunks : List Chunk}
    (returned : chunk budget document = .ok chunks) :
    ∃ packs, BlockPacks budget document document.blocks packs ∧
      List.Forall₂ (fun pack c => pack ∈ packs ∧ ChunkSpec document pack (mergeFragments pack) c)
        packs chunks := by
  obtain ⟨packs, spec, related⟩ := chunk_ok returned
  refine ⟨packs, spec, ?_⟩
  obtain ⟨length, each⟩ := List.forall₂_iff_get.mp related
  exact List.forall₂_iff_get.mpr ⟨length, fun i left right =>
    ⟨List.get_mem _ _, chunkSpec_of_pack spec (List.get_mem _ _) (each i left right)⟩⟩

theorem reachInOrder [IdentityDigest] {chunks : List Chunk}
    (returned : chunk budget document = .ok chunks) : ReachInOrder chunks := by
  obtain ⟨packs, packed, related⟩ := chunkSpecs returned
  constructor
  · intro c member
    obtain ⟨pack, -, -, spec⟩ := exists_of_mem_forall₂ related member
    refine pairwise_of_forall₂ spec.locates spec.spec.sorted ?_
    intro m _ m' _ l l' less holds holds'
    rwa [holds.blockIndex, holds'.blockIndex]
  · refine pairwise_of_forall₂ related packed.follows ?_
    rintro earlier _ later _ c c' follows ⟨-, spec⟩ ⟨-, spec'⟩ l isLocator l' isLocator' less
    obtain ⟨m, -, locates, g, inEarlier, sameBlock, -⟩ := exists_fragment spec isLocator
    obtain ⟨m', -, locates', f, inLater, sameBlock', -⟩ := exists_fragment spec' isLocator'
    rw [locates.blockIndex, locates'.blockIndex, ← sameBlock, ← sameBlock'] at less
    obtain ⟨h, present, same⟩ := follows f inLater g inEarlier less
    obtain ⟨l'', isLocator'', -, index, -⟩ := exists_locator spec present
    exact ⟨l'', isLocator'', by rw [index, same, sameBlock', locates'.blockIndex]⟩

/-- A locator starts with a token of a piece of its block. -/
theorem locator_start [IdentityDigest] {chunks : List Chunk}
    (returned : chunk budget document = .ok chunks) (isBlock : block ∈ document.blocks)
    {pieces : List Fragment} (split : splitBlock block = .ok pieces) {c : Chunk}
    (isChunk : c ∈ chunks) {l : SourceLocator} (isLocator : l ∈ c.locators)
    (sameId : l.blockId = block.blockId) :
    ∃ p ∈ pieces, ∃ x ∈ p.tokens, x.start = l.charStart := by
  obtain ⟨packs, packed, related⟩ := chunkSpecs returned
  obtain ⟨pack, present, inPacks, spec⟩ := exists_of_mem_forall₂ related isChunk
  obtain ⟨m, isMerged, locates, f, inside, sameBlock, start⟩ := exists_fragment spec isLocator
  have mBlock : m.block = block := CanonicalDocument.eq_of_blockId (spec.inDocument m isMerged)
    isBlock (locates.blockId.symm.trans sameId)
  obtain ⟨x, inFragment, first⟩ := (packed.exact pack inPacks f inside).toAligned.first
  obtain ⟨-, pieces', split', p, isPiece, within⟩ := packed.fromBlocks pack inPacks f inside
  rw [sameBlock, mBlock] at split'
  cases split.symm.trans split'
  exact ⟨p, isPiece, x, within.tokens inFragment, by rw [first, start, locates.charStart]⟩

/-! ## Intact blocks are covered -/

/-- The pieces of an intact block hold all its tokens. -/
theorem pieces_cover (intact : Intact block) {pieces : List Fragment}
    (split : splitBlock block = .ok pieces) {token : TokenSpan} (member : token ∈ spans block.text) :
    ∃ p ∈ pieces, token ∈ p.tokens := by
  rcases Nat.lt_or_ge PIPELINE.chunkMaxTokens (count block.text) with large | small
  · obtain ⟨pieces', split', -, tokens⟩ := splitBlock_large large
    cases split'.symm.trans split
    have readable := intact.resolve_left (Nat.not_le.mpr large)
    obtain ⟨nonempty, within, -⟩ := names_token member
    obtain ⟨s, isSentence, start, stop⟩ := inSentence_of_readable readable
      (show token.start < block.text.length by omega)
    -- the sentence that holds the start of the token holds all of it
    have whole := (sentence_boundaries isSentence).2 token member
    refine List.mem_flatMap.mp (tokens ▸ List.mem_flatMap.mpr ⟨s, isSentence, ?_⟩)
    rw [List.mem_filter, Span.inside_iff]
    exact ⟨member, start, by omega⟩
  · obtain ⟨piece, split', -, -, tokens⟩ := splitBlock_small small
    cases split'.symm.trans split
    exact ⟨piece, by simp, tokens ▸ member⟩

theorem located_of_intact [IdentityDigest] {chunks : List Chunk}
    (returned : chunk budget document = .ok chunks) (isBlock : block ∈ document.blocks)
    (intact : Intact block) : ∀ token ∈ spans block.text, Located chunks block token := by
  intro token member
  obtain ⟨packs, packed, related⟩ := chunkSpecs returned
  obtain ⟨pieces, split⟩ := splitBlock_total block
  obtain ⟨p, isPiece, inPiece⟩ := pieces_cover intact split member
  obtain ⟨pack, present, f, inside, sameBlock, inFragment⟩ :=
    packed.covered block isBlock pieces split p isPiece token inPiece
  obtain ⟨c, isChunk, -, spec⟩ := exists_of_mem_forall₂ related.flip present
  obtain ⟨l, isLocator, blockId, blockIndex, start, stop⟩ := exists_locator spec inside
  obtain ⟨-, first, last⟩ :=
    (Fragment.mem_tokens (packed.exact pack present f inside).toAligned).mp inFragment
  rw [sameBlock] at blockId blockIndex
  exact ⟨c, isChunk, l, isLocator, blockId, blockIndex, by omega, by omega⟩

/-! ## A block that is not intact

Between neighbours that only make the document complete, and under a budget
with room for one token, every chunk holds one token.  No chunk can then span
a gap between two sentences of the block. -/

/-- What `_budget_text` puts in front of the text of fragments under this path. -/
def header (path : List Text) : Text :=
  let joined := " > ".toList.intercalate path
  "Document: ".toList ++ "[untitled]".toList ++ "\nSection: ".toList ++
    if joined = [] then "[root]".toList else joined

/-- Room for the header and one token. -/
def oneToken (path : List Text) : InputBudget where
  fits text := count text ≤ count (header path) + 1
  assertFits _ := .ok ()

omit [WordChars] in
/-- A block at another position than the given one. -/
def neighbour (block : CanonicalBlock) (order : Nat) : CanonicalBlock where
  blockId := List.replicate (block.blockId.length + order + 1) 'a'
  order := order
  kind := .paragraph
  text := "a".toList
  headingPath := block.headingPath
  pageNumber := none
  blockId_nonempty := by simp
  text_nonempty := List.cons_ne_nil _ _
  text_normalized := rfl
  page_positive := unpaged_positive

omit [WordChars] in
theorem neighbour_readable {order : Nat} : Readable (neighbour block order).text :=
  readable_of_noStops (show NoStops ['a'] by simp [NoStops, isStop])

def place (block : CanonicalBlock) (order : Nat) : CanonicalBlock :=
  if order = block.order then block else neighbour block order

omit [WordChars] in
theorem place_order (block : CanonicalBlock) (order : Nat) : (place block order).order = order := by
  rw [place]
  split
  next same => exact same.symm
  next => rfl

omit [WordChars] in
theorem place_headingPath (block : CanonicalBlock) (order : Nat) :
    (place block order).headingPath = block.headingPath := by
  rw [place]
  split <;> rfl

/-- The block among neighbours. -/
def surroundings (block : CanonicalBlock) : CanonicalDocument where
  documentId := 0
  versionId := 0
  title := []
  mediaType := "text/plain".toList
  blocks := (List.range (block.order + 2)).map (place block)
  mediaType_nonempty := List.cons_ne_nil _ _
  blocks_nonempty := by simp
  blockIds_unique := by
    rw [List.map_map]
    refine List.Nodup.map_on ?_ List.nodup_range
    intro i _ j _ same
    -- the length of the identifier tells the position
    have lengths := congrArg List.length same
    simp only [Function.comp_apply, place, neighbour] at lengths
    split at lengths <;> split at lengths <;> simp only [List.length_replicate] at lengths <;> omega
  orders_contiguous := by
    rw [List.map_map, List.length_map, List.length_range]
    refine (List.map_congr_left fun i _ => ?_).trans (List.map_id _)
    rw [Function.comp_apply, place_order, id]

omit [WordChars] in
theorem mem_surroundings (block : CanonicalBlock) : block ∈ (surroundings block).blocks :=
  List.mem_map.mpr ⟨block.order, by simp, if_pos rfl⟩

omit [WordChars] in
theorem surroundings_headingPath {b : CanonicalBlock} (member : b ∈ (surroundings block).blocks) :
    b.headingPath = block.headingPath := by
  obtain ⟨order, -, rfl⟩ := List.mem_map.mp member
  exact place_headingPath block order

/-- The block behind the given one has a piece. -/
theorem exists_piece (block : CanonicalBlock) : ∃ b ∈ (surroundings block).blocks,
    ∃ pieces, splitBlock b = .ok pieces ∧ pieces ≠ [] := by
  have next : neighbour block (block.order + 1) ∈ (surroundings block).blocks :=
    List.mem_map.mpr ⟨block.order + 1, by simp, if_neg (by omega)⟩
  obtain ⟨pieces, split⟩ := splitBlock_total (neighbour block (block.order + 1))
  obtain ⟨x, isToken⟩ := List.exists_mem_of_ne_nil _ (block_spans_ne_nil (neighbour block _))
  obtain ⟨p, isPiece, -⟩ := pieces_cover (.inr neighbour_readable) split isToken
  exact ⟨_, next, pieces, split, List.ne_nil_of_mem isPiece⟩

theorem count_budgetText {fragments : List Fragment} (aligned : ∀ f ∈ fragments, f.Aligned)
    (ordered : Ordered (surroundings block) fragments) (some : fragments ≠ []) :
    count (budgetText (surroundings block) fragments) = count (header block.headingPath) +
      ((mergeFragments fragments).map fun m => count m.text).sum := by
  obtain ⟨merged, -⟩ := mergeFragments_ok aligned ordered
  obtain ⟨f, isFragment⟩ := List.exists_mem_of_ne_nil _ some
  obtain ⟨m, isMerged, -⟩ := merged.covers f isFragment
  have path : commonHeadingPath (mergeFragments fragments) = block.headingPath := by
    refine commonHeadingPath_of_same (List.ne_nil_of_mem isMerged) fun m present => ?_
    obtain ⟨f, inside, sameBlock, -⟩ := merged.starts m present
    rw [← sameBlock]
    exact surroundings_headingPath (ordered.inDocument f inside)
  have shape : budgetText (surroundings block) fragments =
      header block.headingPath ++ "\n\n".toList ++ joinTexts (mergeFragments fragments) := by
    have untitled : (surroundings block).title = [] := rfl
    unfold budgetText header
    dsimp only
    rw [path, if_pos untitled]
  rw [shape, count_append (by simp) (List.all_eq_true.mp rfl), count_joinTexts]

theorem tokensFit_oneToken {b : CanonicalBlock} (member : b ∈ (surroundings block).blocks) :
    TokensFit (oneToken block.headingPath) (surroundings block) b := by
  intro pieces split p isPiece i inside
  obtain ⟨sameBlock, exact⟩ := splitBlock_exact split p isPiece
  obtain ⟨part, built, partBlock, partExact, tokens⟩ :=
    candidate_ok exact.uncut (Nat.lt_succ_self i) inside
  refine ⟨part, built, ?_⟩
  have single : count part.text = 1 := by
    rw [← Fragment.length_tokens, tokens, length_slice, Fragment.tokens, List.length_map]
    omega
  have total : count (budgetText (surroundings block) [part]) = _ := count_budgetText
    (List.forall_mem_singleton.mpr partExact.toAligned)
    ⟨List.forall_mem_singleton.mpr (by rwa [partBlock, sameBlock]), by simp⟩ (by simp)
  have merged : mergeFragments [part] = [{ part with tokenCount := count part.text }] := rfl
  rw [merged] at total
  simp only [oneToken, total, decide_eq_true_eq]
  exact Nat.add_le_add_left (Nat.le_of_eq single) _

/-- Two tokens of the fragment. -/
theorem two_le_count {m : Fragment} {x y : TokenSpan} (left : x ∈ m.tokens) (right : y ∈ m.tokens)
    (differ : x ≠ y) : 2 ≤ count m.text := by
  rw [← Fragment.length_tokens]
  by_contra few
  match tokens : m.tokens with
  | [] => simp [tokens] at left
  | [z] =>
    rw [tokens, List.mem_singleton] at left right
    exact differ (left.trans right.symm)
  | _ :: _ :: _ => simp [tokens] at few

/-- Chunks of one token locate only the tokens of pieces. -/
theorem mem_piece_of_located [IdentityDigest] {chunks : List Chunk}
    (returned : chunk (oneToken block.headingPath) (surroundings block) = .ok chunks)
    {pieces : List Fragment} (split : splitBlock block = .ok pieces) {token : TokenSpan}
    (member : token ∈ spans block.text) (located : Located chunks block token) :
    ∃ p ∈ pieces, token ∈ p.tokens := by
  obtain ⟨c, isChunk, l, isLocator, sameId, -, start, stop⟩ := located
  have isBlock := mem_surroundings block
  obtain ⟨p, isPiece, x, inPiece, first⟩ :=
    locator_start returned isBlock split isChunk isLocator sameId
  obtain ⟨packs, packed, related⟩ := chunkSpecs returned
  obtain ⟨pack, -, inPacks, spec⟩ := exists_of_mem_forall₂ related isChunk
  obtain ⟨m, isMerged, locates, -⟩ := exists_fragment spec isLocator
  have mBlock : m.block = block := CanonicalDocument.eq_of_blockId (spec.inDocument m isMerged)
    isBlock (locates.blockId.symm.trans sameId)
  have aligned := spec.spec.aligned m isMerged
  have tokenInside : token ∈ m.tokens := (Fragment.mem_tokens aligned).mpr
    ⟨mBlock.symm ▸ member, locates.charStart ▸ start, locates.charEnd ▸ stop⟩
  -- the locator starts with a token of a piece, and the budget has room for one token
  have firstInside : x ∈ m.tokens := by
    obtain ⟨pBlock, exact⟩ := splitBlock_exact split p isPiece
    have inBlock := ((Fragment.mem_tokens exact.toAligned).mp inPiece).1
    rw [pBlock, ← mBlock] at inBlock
    have ends := aligned.uncut.stops x inBlock
    have := aligned.nonempty
    rw [locates.charStart] at first
    exact (Fragment.mem_tokens aligned).mpr ⟨inBlock, by omega, by omega⟩
  by_cases same : token = x
  · exact ⟨p, isPiece, same ▸ inPiece⟩
  · obtain ⟨alignedAll, ordered⟩ := packed.ordered inPacks
    have fits := packed.fits pack inPacks
    have counted := List.le_sum_of_mem (List.mem_map_of_mem (f := fun m => count m.text) isMerged)
    have two := two_le_count tokenInside firstInside same
    have total := count_budgetText alignedAll ordered (packed.nonempty pack inPacks)
    simp only [oneToken, total, decide_eq_true_eq] at fits
    omega

/-- Some token of a block that is not intact lies in no piece. -/
theorem exists_uncovered (broken : ¬ Intact block) {pieces : List Fragment}
    (split : splitBlock block = .ok pieces) :
    ∃ token ∈ spans block.text, ∀ p ∈ pieces, token ∉ p.tokens := by
  rw [Intact, not_or, Nat.not_le] at broken
  obtain ⟨large, unreadable⟩ := broken
  obtain ⟨i, c, read, stop, outside⟩ : ∃ i c, block.text[i]? = some c ∧ isStop c = true ∧
      ¬ InSentence block.text i := by
    by_contra covered
    refine unreadable (readable_of_stops fun i c read stop => ?_)
    by_contra outside
    exact covered ⟨i, c, read, stop, outside⟩
  obtain ⟨token, member, start, bound⟩ := exists_token read (isSpace_of_isStop stop)
  obtain ⟨atStop, behind⟩ := token_of_symbol member start bound read (isWord_of_isStop stop)
    (isApostrophe_of_isStop stop)
  refine ⟨token, member, fun p isPiece inside => outside ?_⟩
  obtain ⟨pieces', split', -, tokens⟩ := splitBlock_large large
  cases split'.symm.trans split
  obtain ⟨s, isSentence, kept⟩ :=
    List.mem_flatMap.mp (tokens ▸ List.mem_flatMap.mpr ⟨p, isPiece, inside⟩)
  rw [List.mem_filter, Span.inside_iff] at kept
  exact ⟨s, isSentence, by omega, by omega⟩

/-- The chunker keeps every token of a block, in every document and under every
budget, exactly when the block is intact. -/
theorem chunk_covers_iff [IdentityDigest] (block : CanonicalBlock) :
    (∀ document budget chunks, chunk budget document = .ok chunks →
      ReachInOrder chunks ∧
        (block ∈ document.blocks → ∀ token ∈ spans block.text, Located chunks block token)) ↔
      Intact block := by
  constructor
  · intro covers
    by_contra broken
    obtain ⟨pieces, split⟩ := splitBlock_total block
    obtain ⟨token, member, uncovered⟩ := exists_uncovered broken split
    obtain ⟨chunks, returned⟩ := chunk_total (oneToken block.headingPath) (surroundings block)
      (fun b isBlock => tokensFit_oneToken isBlock) (fun _ => rfl) (exists_piece block)
    obtain ⟨p, isPiece, inside⟩ := mem_piece_of_located returned split member
      ((covers _ _ _ returned).2 (mem_surroundings block) token member)
    exact uncovered p isPiece inside
  · intro intact document budget chunks returned
    exact ⟨reachInOrder returned, fun isBlock => located_of_intact returned isBlock intact⟩

end Coverage

/-! ## A paragraph that starts with a decimal number -/

/-- `1.5` and then `n` words. -/
def decimals : Nat → Text
  | 0 => "1.5".toList
  | n + 1 => decimals n ++ " ".toList ++ "a".toList

theorem decimals_shape (n : Nat) : ∃ rest, decimals n = "1".toList ++ ".".toList ++ '5' :: rest := by
  induction n with
  | zero => exact ⟨[], rfl⟩
  | succ n ih =>
    obtain ⟨rest, shape⟩ := ih
    exact ⟨rest ++ " ".toList ++ "a".toList, by rw [decimals, shape]; simp⟩

theorem count_decimals (n : Nat) : @count asciiWords (decimals n) = n + 3 := by
  let := asciiWords
  induction n with
  | zero => decide
  | succ n ih =>
    have word : count "a".toList = 1 := by decide
    rw [decimals, count_append (by simp) (List.all_eq_true.mp rfl), ih, word]

theorem strip_decimals (n : Nat) : strip (decimals n) = decimals n := by
  have head : (decimals n).dropWhile isSpace = decimals n := by
    obtain ⟨rest, shape⟩ := decimals_shape n
    rw [shape]
    rfl
  have last : ∀ nonempty, isSpace ((decimals n).getLast nonempty) = false := by
    cases n with
    | zero => exact fun _ => rfl
    | succ n =>
      intro nonempty
      have shape : decimals (n + 1) = decimals n ++ " ".toList ++ ['a'] := rfl
      simp only [shape, List.getLast_append_singleton]
      rfl
  rw [strip, head]
  exact List.rdropWhile_eq_self_iff.mpr fun nonempty => by simp [last nonempty]

def decimalsBlock : CanonicalBlock where
  blockId := "b000000".toList
  order := 0
  kind := .paragraph
  text := decimals 500
  headingPath := []
  pageNumber := none
  blockId_nonempty := List.cons_ne_nil _ _
  text_nonempty := by
    obtain ⟨rest, shape⟩ := decimals_shape 500
    rw [strip_decimals, shape]
    exact List.cons_ne_nil _ _
  text_normalized := strip_decimals 500
  page_positive := unpaged_positive

/-- A digest that no claim about coverage looks at. -/
@[reducible] def fixedDigest : IdentityDigest where
  hexdigest _ := List.replicate 64 '0'
  length_hexdigest _ := List.length_replicate

/-- Under a budget without a limit the number `1` is lost. -/
theorem chunk_loses_decimals :
    ∃ chunks, @chunk asciiWords ⟨fun _ => true, fun _ => .ok ()⟩ fixedDigest
        (surroundings decimalsBlock) = .ok chunks ∧
      ∃ token ∈ @spans asciiWords decimalsBlock.text, ¬ Located chunks decimalsBlock token := by
  let := asciiWords
  let := fixedDigest
  obtain ⟨rest, shape⟩ := decimals_shape 500
  -- the first sentence starts at the `5`
  have sentences : finditer sentencePattern decimalsBlock.text =
      (finditer sentencePattern ('5' :: rest)).map (Span.shift 2) := by
    rw [show decimalsBlock.text = decimals 500 from rfl, shape]
    exact finditer_rejected (by simp [NoStops, isStop]) (by decide) (by simp [Stops, isStop])
      (by simp [RunEnds, isStop]) (by simp [Ahead, isSpace])
  have large : PIPELINE.chunkMaxTokens < count decimalsBlock.text := by
    rw [show decimalsBlock.text = decimals 500 from rfl, count_decimals]
    decide
  obtain ⟨pieces, split, -, tokens⟩ := splitBlock_large large
  obtain ⟨chunks, returned⟩ := chunk_total ⟨fun _ => true, fun _ => .ok ()⟩
    (surroundings decimalsBlock) (fun b _ pieces split p isPiece i inside => by
      obtain ⟨-, exact⟩ := splitBlock_exact split p isPiece
      obtain ⟨part, built, -⟩ := candidate_ok exact.uncut (Nat.lt_succ_self i) inside
      exact ⟨part, built, rfl⟩) (fun _ => rfl) (exists_piece decimalsBlock)
  have read : decimalsBlock.text[0]? = some '1' := by
    rw [show decimalsBlock.text = decimals 500 from rfl, shape]
    rfl
  obtain ⟨token, member, zero, -⟩ := exists_token read rfl
  refine ⟨chunks, returned, token, member, ?_⟩
  rintro ⟨c, isChunk, l, isLocator, sameId, -, start, -⟩
  obtain ⟨p, isPiece, x, inPiece, first⟩ :=
    locator_start returned (mem_surroundings _) split isChunk isLocator sameId
  obtain ⟨s, isSentence, kept⟩ :=
    List.mem_flatMap.mp (tokens ▸ List.mem_flatMap.mpr ⟨p, isPiece, inPiece⟩)
  rw [List.mem_filter, Span.inside_iff] at kept
  rw [sentences] at isSentence
  obtain ⟨s', -, rfl⟩ := List.mem_map.mp isSentence
  rw [Span.shift_start] at kept
  omega

end SupportPilot.Rag
