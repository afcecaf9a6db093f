import Mathlib.Data.List.Dedup
import Mathlib.Data.List.SplitBy
import SupportPilot.Rag.Packing

/-! # The chunks of a document

`Merged` specifies `_merge_fragments`, `fitted_ok` the fitted pieces of a
section, and `chunk_eq_ok` puts the sections together: `chunk` returns one chunk
for each list of the packed sections (`ChunkOf`), and `DocumentPacks` says what
these lists are. -/

namespace SupportPilot.Rag

open Lib Lib.Regex ChunkTokenizer

/-- Facts about the fragments survive more fragments. -/
theorem exists_append {P : Fragment → Prop} {fragments : List Fragment} (fragment : Fragment)
    (found : ∃ f ∈ fragments, P f) : ∃ f ∈ fragments ++ [fragment], P f := by
  obtain ⟨f, member, holds⟩ := found
  exact ⟨f, List.mem_append_left _ member, holds⟩

/-! ## Sections -/

namespace StructureAwareChunker

theorem flatten_sections (blocks : List CanonicalBlock) : (sections blocks).flatten = blocks :=
  List.flatten_splitBy _ _

theorem sectionKey_of_mem {blocks group : List CanonicalBlock} (member : group ∈ sections blocks)
    {b b' : CanonicalBlock} (left : b ∈ group) (right : b' ∈ group) :
    sectionKey b = sectionKey b' := by
  have chain := List.isChain_of_mem_splitBy member
  simp only [decide_eq_true_eq] at chain
  have : IsTrans CanonicalBlock fun b b' => sectionKey b = sectionKey b' :=
    ⟨fun _ _ _ => Eq.trans⟩
  have : Std.Symm fun b b' : CanonicalBlock => sectionKey b = sectionKey b' := ⟨fun _ _ => Eq.symm⟩
  have same : group.Pairwise fun b b' => sectionKey b = sectionKey b' :=
    List.isChain_iff_pairwise.mp chain
  by_cases differ : b = b'
  · rw [differ]
  · exact same.forall left right differ

/-- Lists built from the items of a list, each from its own block. -/
theorem sorted_of_forall₂ {α : Type} (key : α → CanonicalBlock) {items : List α}
    {lists : List (List Fragment)}
    (related : List.Forall₂ (fun a fragments => ∀ f ∈ fragments, f.block = key a) items lists)
    (sorted : (items.map key).Pairwise fun b b' => b.order ≤ b'.order) :
    (lists.flatten.map Fragment.block).Pairwise fun b b' => b.order ≤ b'.order := by
  induction related with
  | nil => exact .nil
  | @cons a fragments items lists head rest ih =>
    rw [List.map_cons, List.pairwise_cons] at sorted
    rw [List.flatten_cons, List.map_append, List.pairwise_append]
    refine ⟨?_, ih sorted.2, ?_⟩
    · refine List.pairwise_map.mpr (List.pairwise_of_forall_mem_list fun f left g right => ?_)
      rw [head f left, head g right]
    · intro b isHead b' isRest
      obtain ⟨f, left, rfl⟩ := List.mem_map.mp isHead
      obtain ⟨g, right, rfl⟩ := List.mem_map.mp isRest
      obtain ⟨group, present, inside⟩ := List.mem_flatten.mp right
      obtain ⟨a', member, same⟩ := exists_of_mem_forall₂ rest present
      rw [head f left, same g inside]
      exact sorted.1 _ (List.mem_map_of_mem member)

end StructureAwareChunker

/-- The columns of equal rows. -/
theorem zipColumns_replicate {α : Type} (n : Nat) (row : List α) :
    zipColumns (List.replicate (n + 1) row) = row.map (List.replicate (n + 1)) := by
  have width : ((List.replicate (n + 1) row).map List.length).min? = some row.length := by
    rw [List.map_replicate, List.min?_eq_some_iff]
    simp
  rw [zipColumns, width]
  refine List.ext_getElem (by simp) fun i left right => ?_
  have inside : i < row.length := by simpa using right
  simp only [List.getElem_map, List.getElem_range]
  exact List.filterMap_replicate_of_some (List.getElem?_eq_getElem inside)

theorem commonHeadingPath_of_same {fragments : List Fragment} {path : List Text}
    (some : fragments ≠ []) (same : ∀ f ∈ fragments, f.block.headingPath = path) :
    commonHeadingPath fragments = path := by
  obtain ⟨first, rest, rfl⟩ := List.exists_cons_of_ne_nil some
  have rows : (first :: rest).map (·.block.headingPath) = List.replicate (rest.length + 1) path := by
    rw [List.eq_replicate_iff]
    refine ⟨by simp, fun p member => ?_⟩
    obtain ⟨f, inside, rfl⟩ := List.mem_map.mp member
    exact same f inside
  rw [commonHeadingPath, rows, zipColumns_replicate, List.takeWhile_eq_self_iff.mpr, List.filterMap_map]
  · simp [List.head?_replicate]
  · intro column member
    obtain ⟨text, -, rfl⟩ := List.mem_map.mp member
    simp [List.replicate_dedup]

variable [WordChars]

/-! ## Joining texts -/

omit [WordChars] in
theorem joinTexts_cons {fragment : Fragment} {rest : List Fragment} (some : rest ≠ []) :
    joinTexts (fragment :: rest) = fragment.text ++ "\n\n".toList ++ joinTexts rest := by
  obtain ⟨next, rest, rfl⟩ := List.exists_cons_of_ne_nil some
  simp [joinTexts, List.intercalate]

omit [WordChars] in
theorem joinTexts_singleton (fragment : Fragment) : joinTexts [fragment] = fragment.text := by
  simp [joinTexts, List.intercalate]

omit [WordChars] in
theorem subset_joinTexts {fragments : List Fragment} {fragment : Fragment}
    (member : fragment ∈ fragments) : fragment.text ⊆ joinTexts fragments := by
  induction fragments with
  | nil => cases member
  | cons first rest ih =>
    by_cases last : rest = []
    · subst last
      rw [List.mem_singleton.mp member, joinTexts_singleton]
      exact fun c inside => inside
    · rw [joinTexts_cons last]
      intro c inside
      rcases List.mem_cons.mp member with rfl | later
      · simp [inside]
      · exact List.mem_append_right _ (ih later inside)

/-- The tokens of joined texts are the tokens of the texts. -/
theorem count_joinTexts (fragments : List Fragment) :
    count (joinTexts fragments) = (fragments.map fun f => count f.text).sum := by
  induction fragments with
  | nil => rfl
  | cons first rest ih =>
    by_cases last : rest = []
    · subst last
      simp [joinTexts_singleton]
    · rw [joinTexts_cons last, count_append (by simp) (List.all_eq_true.mp rfl), ih]
      simp

/-! ## Merging the fragments of a block -/

structure Merged (fragments merged : List Fragment) : Prop where
  aligned : ∀ m ∈ merged, m.Aligned
  starts : ∀ m ∈ merged, ∃ f ∈ fragments, f.block = m.block ∧ f.charStart = m.charStart
  stops : ∀ m ∈ merged, ∃ f ∈ fragments, f.block = m.block ∧ f.charEnd = m.charEnd
  covers : ∀ f ∈ fragments, ∃ m ∈ merged, m.block = f.block ∧ m.charStart ≤ f.charStart ∧
    f.charEnd ≤ m.charEnd
  sorted : merged.Pairwise fun m m' => m.block.order < m'.block.order

/-- The fragment starts a new entry. -/
theorem Merged.snoc {fragments merged : List Fragment} (spec : Merged fragments merged)
    {fragment : Fragment} (aligned : fragment.Aligned)
    (later : ∀ m ∈ merged, m.block.order < fragment.block.order) :
    Merged (fragments ++ [fragment]) (merged ++ [fragment]) := by
  constructor
  case aligned =>
    rw [List.forall_mem_append, List.forall_mem_singleton]
    exact ⟨spec.aligned, aligned⟩
  case starts =>
    rw [List.forall_mem_append, List.forall_mem_singleton]
    exact ⟨fun m member => exists_append _ (spec.starts m member), fragment, by simp, rfl, rfl⟩
  case stops =>
    rw [List.forall_mem_append, List.forall_mem_singleton]
    exact ⟨fun m member => exists_append _ (spec.stops m member), fragment, by simp, rfl, rfl⟩
  case covers =>
    rw [List.forall_mem_append, List.forall_mem_singleton]
    exact ⟨fun f member => exists_append _ (spec.covers f member), fragment, by simp, rfl,
      Nat.le_refl _, Nat.le_refl _⟩
  case sorted =>
    rw [List.pairwise_append]
    refine ⟨spec.sorted, List.pairwise_singleton _ _, fun m member m' isNew => ?_⟩
    rw [List.mem_singleton.mp isNew]
    exact later m member

/-- The fragment widens the last entry. -/
theorem Merged.widen {fragments init : List Fragment} {previous fragment : Fragment}
    (spec : Merged fragments (init ++ [previous])) (aligned : fragment.Aligned)
    (sameBlock : previous.block = fragment.block) :
    Merged (fragments ++ [fragment]) (init ++ [⟨previous.block,
      min previous.charStart fragment.charStart, max previous.charEnd fragment.charEnd, 0⟩]) := by
  obtain ⟨alignedAll, starts, stops, covers, sorted⟩ := spec
  rw [List.forall_mem_append, List.forall_mem_singleton] at alignedAll starts stops
  constructor
  case aligned =>
    rw [List.forall_mem_append, List.forall_mem_singleton]
    refine ⟨alignedAll.1, ?_, ?_, ?_⟩
    · rcases Nat.le_total previous.charStart fragment.charStart with le | le
      · simpa [Nat.min_eq_left le] using alignedAll.2.starts
      · simpa [Nat.min_eq_right le, sameBlock] using aligned.starts
    · rcases Nat.le_total previous.charEnd fragment.charEnd with le | le
      · simpa [Nat.max_eq_right le, sameBlock] using aligned.stops
      · simpa [Nat.max_eq_left le] using alignedAll.2.stops
    · have := aligned.nonempty
      dsimp only
      omega
  case starts =>
    rw [List.forall_mem_append, List.forall_mem_singleton]
    refine ⟨fun m member => exists_append _ (starts.1 m member), ?_⟩
    rcases Nat.le_total previous.charStart fragment.charStart with le | le
    · simpa [Nat.min_eq_left le] using exists_append fragment starts.2
    · exact ⟨fragment, by simp, sameBlock.symm, by simp [Nat.min_eq_right le]⟩
  case stops =>
    rw [List.forall_mem_append, List.forall_mem_singleton]
    refine ⟨fun m member => exists_append _ (stops.1 m member), ?_⟩
    rcases Nat.le_total previous.charEnd fragment.charEnd with le | le
    · exact ⟨fragment, by simp, sameBlock.symm, by simp [Nat.max_eq_right le]⟩
    · simpa [Nat.max_eq_left le] using exists_append fragment stops.2
  case covers =>
    rw [List.forall_mem_append, List.forall_mem_singleton]
    refine ⟨fun f member => ?_, ⟨_, List.mem_append_right _ (List.mem_singleton_self _), sameBlock,
      Nat.min_le_right _ _, Nat.le_max_right _ _⟩⟩
    obtain ⟨m, present, block, start, stop⟩ := covers f member
    -- the widened fragment covers what the last one covered
    rcases List.mem_append.mp present with before | last
    · exact ⟨m, List.mem_append_left _ before, block, start, stop⟩
    · rw [List.mem_singleton] at last
      subst last
      exact ⟨_, List.mem_append_right _ (List.mem_singleton_self _), block,
        Nat.le_trans (Nat.min_le_left _ _) start, Nat.le_trans stop (Nat.le_max_left _ _)⟩
  case sorted =>
    rw [List.pairwise_append] at sorted ⊢
    refine ⟨sorted.1, List.pairwise_singleton _ _, fun m member m' isLast => ?_⟩
    rw [List.mem_singleton.mp isLast]
    exact sorted.2.2 m member previous (by simp)

variable {document : CanonicalDocument}

/-- Blocks of the document, in order. -/
structure Ordered (document : CanonicalDocument) (fragments : List Fragment) : Prop where
  inDocument : ∀ f ∈ fragments, f.block ∈ document.blocks
  sorted : (fragments.map Fragment.block).Pairwise fun b b' => b.order ≤ b'.order

theorem foldl_mergeStep_ok {fragments : List Fragment} (aligned : ∀ f ∈ fragments, f.Aligned)
    (ordered : Ordered document fragments) : Merged fragments (fragments.foldl mergeStep []) := by
  induction fragments using List.reverseRecOn with
  | nil => exact ⟨by simp, by simp, by simp, by simp, .nil⟩
  | append_singleton fragments fragment ih =>
    obtain ⟨inDocument, sorted⟩ := ordered
    rw [List.forall_mem_append, List.forall_mem_singleton] at aligned inDocument
    rw [List.map_append, List.pairwise_append] at sorted
    have spec := ih aligned.1 ⟨inDocument.1, sorted.1⟩
    rw [List.foldl_append, List.foldl_cons, List.foldl_nil]
    generalize fragments.foldl mergeStep [] = merged at spec
    -- the runs so far are of blocks up to the one of the fragment
    have source : ∀ m ∈ merged, m.block ∈ document.blocks ∧ m.block.order ≤ fragment.block.order := by
      intro m member
      obtain ⟨f, present, sameBlock, -⟩ := spec.starts m member
      rw [← sameBlock]
      exact ⟨inDocument.1 f present, sorted.2.2 _ (List.mem_map_of_mem present) _ (by simp)⟩
    rw [mergeStep]
    split
    next none =>
      rw [List.getLast?_eq_none_iff] at none
      subst none
      exact spec.snoc aligned.2 (by simp)
    next previous last =>
      obtain ⟨init, rfl⟩ := List.getLast?_eq_some_iff.mp last
      obtain ⟨inDoc, le⟩ := source previous (by simp)
      split
      -- the fragment goes on with the last run, or it starts a new one
      next sameId =>
        rw [List.dropLast_concat]
        exact spec.widen aligned.2 (CanonicalDocument.eq_of_blockId inDoc inDocument.2 sameId)
      next otherId =>
        refine spec.snoc aligned.2 fun m member => ?_
        have differ : previous.block.order ≠ fragment.block.order := fun same =>
          otherId (congrArg CanonicalBlock.blockId
            (CanonicalDocument.eq_of_order inDoc inDocument.2 same))
        rcases List.mem_append.mp member with before | isLast
        · have := (List.pairwise_append.mp spec.sorted).2.2 m before previous (by simp)
          omega
        · rw [List.mem_singleton.mp isLast]
          omega

theorem mergeFragments_ok {fragments : List Fragment} (aligned : ∀ f ∈ fragments, f.Aligned)
    (ordered : Ordered document fragments) :
    Merged fragments (mergeFragments fragments) ∧ ∀ m ∈ mergeFragments fragments, m.Exact := by
  obtain ⟨alignedAll, starts, stops, covers, sorted⟩ := foldl_mergeStep_ok aligned ordered
  have recount : ∀ m : Fragment, m.Aligned → Fragment.Exact { m with tokenCount := count m.text } :=
    fun m ⟨start, stop, nonempty⟩ => ⟨⟨start, stop, nonempty⟩, (Fragment.length_tokens m).symm⟩
  have exact : ∀ m ∈ mergeFragments fragments, m.Exact := by
    intro m member
    obtain ⟨item, present, rfl⟩ := List.mem_map.mp member
    exact recount item (alignedAll item present)
  refine ⟨⟨fun m member => (exact m member).toAligned, ?_, ?_, ?_, ?_⟩, exact⟩
  · intro m member
    obtain ⟨item, present, rfl⟩ := List.mem_map.mp member
    exact starts item present
  · intro m member
    obtain ⟨item, present, rfl⟩ := List.mem_map.mp member
    exact stops item present
  · intro f member
    obtain ⟨m, present, holds⟩ := covers f member
    exact ⟨_, List.mem_map_of_mem present, holds⟩
  · exact List.pairwise_map.mpr sorted

namespace StructureAwareChunker

variable {budget : InputBudget} {document : CanonicalDocument}

theorem splitBlock_exact {block : CanonicalBlock} {pieces : List Fragment}
    (returned : splitBlock block = .ok pieces) : ∀ p ∈ pieces, p.block = block ∧ p.Exact := by
  rcases Nat.lt_or_ge PIPELINE.chunkMaxTokens (count block.text) with large | small
  · obtain ⟨pieces', split, exact, -⟩ := splitBlock_large large
    cases split.symm.trans returned
    exact fun p member => ⟨(exact p member).1, (exact p member).2.1⟩
  · obtain ⟨piece, split, sameBlock, exact, -⟩ := splitBlock_small small
    cases split.symm.trans returned
    exact List.forall_mem_singleton.mpr ⟨sameBlock, exact⟩

theorem splitBlock_total (block : CanonicalBlock) : ∃ pieces, splitBlock block = .ok pieces := by
  rcases Nat.lt_or_ge PIPELINE.chunkMaxTokens (count block.text) with large | small
  · obtain ⟨pieces, split, -⟩ := splitBlock_large large
    exact ⟨pieces, split⟩
  · obtain ⟨piece, split, -⟩ := splitBlock_small small
    exact ⟨[piece], split⟩

/-- No piece is above the hard maximum. -/
theorem splitBlock_bounded {block : CanonicalBlock} {pieces : List Fragment}
    (returned : splitBlock block = .ok pieces) :
    ∀ p ∈ pieces, p.tokenCount ≤ PIPELINE.chunkMaxTokens := by
  rcases Nat.lt_or_ge PIPELINE.chunkMaxTokens (count block.text) with large | small
  · obtain ⟨pieces', split, exact, -⟩ := splitBlock_large large
    cases split.symm.trans returned
    exact fun p member => Nat.le_trans (exact p member).2.2 (by decide)
  · obtain ⟨piece, split, -, exact, tokens⟩ := splitBlock_small small
    cases split.symm.trans returned
    rw [List.forall_mem_singleton, exact.tokenCount_eq, tokens]
    exact small

/-- The pieces of some blocks. -/
theorem piece_of_mem {blocks : List CanonicalBlock} {groups : List (List Fragment)}
    (split : blocks.mapM splitBlock = .ok groups) {p : Fragment} (member : p ∈ groups.flatten) :
    p.block ∈ blocks ∧ p.Exact ∧ p.tokenCount ≤ PIPELINE.chunkMaxTokens ∧
      ∃ pieces, splitBlock p.block = .ok pieces ∧ p ∈ pieces := by
  obtain ⟨pieces, present, inside⟩ := List.mem_flatten.mp member
  obtain ⟨block, isBlock, returned⟩ := mem_mapM split present
  obtain ⟨sameBlock, exact⟩ := splitBlock_exact returned p inside
  rw [sameBlock]
  exact ⟨isBlock, exact, splitBlock_bounded returned p inside, pieces, returned, inside⟩

theorem sorted_pieces {blocks : List CanonicalBlock} {groups : List (List Fragment)}
    (sorted : blocks.Pairwise fun b b' => b.order < b'.order)
    (split : blocks.mapM splitBlock = .ok groups) :
    (groups.flatten.map Fragment.block).Pairwise fun b b' => b.order ≤ b'.order := by
  have sameBlock := (mapM_eq_ok.1 split).imp fun block pieces returned p inside =>
    (splitBlock_exact returned p inside).1
  apply sorted_of_forall₂ id sameBlock
  rw [List.map_id]
  exact sorted.imp Nat.le_of_lt

/-! ## The fitted pieces of a section -/

structure Fitted (budget : InputBudget) (document : CanonicalDocument)
    (pieces fitted : List Fragment) : Prop where
  exact : ∀ f ∈ fitted, f.Exact
  fits : ∀ f ∈ fitted, budget.fits (budgetText document [f]) = true
  fromPieces : ∀ f ∈ fitted, ∃ p ∈ pieces, f.Within p
  covered : ∀ p ∈ pieces, ∀ x ∈ p.tokens, ∃ f ∈ fitted, f.block = p.block ∧ x ∈ f.tokens
  bounded : ∀ f ∈ fitted, ∃ p ∈ pieces, f.tokenCount ≤ p.tokenCount
  sorted : (fitted.map Fragment.block).Pairwise fun b b' => b.order ≤ b'.order

theorem fitted_ok {pieces : List Fragment} {groups : List (List Fragment)}
    (exact : ∀ p ∈ pieces, p.Exact)
    (sorted : (pieces.map Fragment.block).Pairwise fun b b' => b.order ≤ b'.order)
    (returned : pieces.mapM (fitPiece budget document) = .ok groups) :
    Fitted budget document pieces groups.flatten := by
  have called := mapM_eq_ok.1 returned
  have parts : List.Forall₂ (fun p parts => p ∈ pieces ∧ Parts budget document p p.tokens parts)
      pieces groups := by
    refine List.forall₂_iff_get.mpr ?_
    obtain ⟨length, each⟩ := List.forall₂_iff_get.mp called
    exact ⟨length, fun i left right =>
      ⟨List.get_mem _ _, fitPiece_ok (exact _ (List.get_mem _ _)) (each i left right)⟩⟩
  -- every fitted fragment is a part of one piece
  have source : ∀ f ∈ groups.flatten, ∃ p ∈ pieces, ∃ parts, f ∈ parts ∧
      Parts budget document p p.tokens parts := by
    intro f member
    obtain ⟨group, present, inside⟩ := List.mem_flatten.mp member
    obtain ⟨p, isPiece, -, spec⟩ := exists_of_mem_forall₂ parts present
    exact ⟨p, isPiece, group, inside, spec⟩
  refine ⟨?_, ?_, ?_, ?_, ?_, ?_⟩
  · intro f member
    obtain ⟨p, -, parts, inside, spec⟩ := source f member
    exact spec.exact f inside
  · intro f member
    obtain ⟨p, -, parts, inside, spec⟩ := source f member
    exact spec.fits f inside
  · intro f member
    obtain ⟨p, isPiece, parts, inside, spec⟩ := source f member
    refine ⟨p, isPiece, spec.sameBlock f inside, fun x token => ?_⟩
    rw [← spec.tokens_eq]
    exact List.mem_flatMap.mpr ⟨f, inside, token⟩
  · intro p isPiece x token
    obtain ⟨group, present, spec⟩ := exists_of_mem_forall₂ parts.flip isPiece
    rw [← spec.2.tokens_eq] at token
    obtain ⟨f, inside, token⟩ := List.mem_flatMap.mp token
    exact ⟨f, List.mem_flatten_of_mem present inside, spec.2.sameBlock f inside, token⟩
  · intro f member
    obtain ⟨p, isPiece, parts, inside, spec⟩ := source f member
    refine ⟨p, isPiece, ?_⟩
    rw [(exact p isPiece).tokenCount_eq]
    exact spec.bounded f inside
  · exact sorted_of_forall₂ Fragment.block (parts.imp fun p group spec => spec.2.sameBlock) sorted

/-! ## All packed lists of a document -/

/-- What holds of the lists into which the pieces of some blocks were packed. -/
structure BlockPacks (budget : InputBudget) (document : CanonicalDocument)
    (blocks : List CanonicalBlock) (packs : List (List Fragment)) : Prop where
  nonempty : ∀ pack ∈ packs, pack ≠ []
  exact : ∀ pack ∈ packs, ∀ f ∈ pack, f.Exact
  fromBlocks : ∀ pack ∈ packs, ∀ f ∈ pack, f.block ∈ blocks ∧
    ∃ pieces, splitBlock f.block = .ok pieces ∧ ∃ p ∈ pieces, f.Within p
  sameSection : ∀ pack ∈ packs, ∀ f ∈ pack, ∀ g ∈ pack, sectionKey f.block = sectionKey g.block
  sorted : ∀ pack ∈ packs, (pack.map Fragment.block).Pairwise fun b b' => b.order ≤ b'.order
  covered : ∀ block ∈ blocks, ∀ pieces, splitBlock block = .ok pieces → ∀ p ∈ pieces,
    ∀ x ∈ p.tokens, ∃ pack ∈ packs, ∃ f ∈ pack, f.block = block ∧ x ∈ f.tokens
  follows : packs.Pairwise Follows
  fits : ∀ pack ∈ packs, budget.fits (budgetText document pack) = true

/-- The part of `chunk` that packs one section. -/
def packBlocks (budget : InputBudget) (document : CanonicalDocument)
    (blocks : List CanonicalBlock) : Except PyError (List (List Fragment)) := do
  let pieces ← blocks.mapM splitBlock
  packSection budget document pieces.flatten

theorem packSection_ok {pieces : List Fragment} {packs : List (List Fragment)}
    (exact : ∀ p ∈ pieces, p.Exact)
    (sorted : (pieces.map Fragment.block).Pairwise fun b b' => b.order ≤ b'.order)
    (returned : packSection budget document pieces = .ok packs) :
    ∃ fitted, Fitted budget document pieces fitted ∧ Packed budget document fitted packs := by
  rw [packSection, bind_eq_ok] at returned
  obtain ⟨groups, fits, returned⟩ := returned
  rw [bind_eq_ok] at returned
  obtain ⟨state, folded, returned⟩ := returned
  have fitted := fitted_ok exact sorted fits
  have packed := foldlM_packStep_ok fitted.exact fitted.fits fitted.sorted folded
  refine ⟨groups.flatten, fitted, ?_⟩
  simp only [pure, Except.pure, Except.ok.injEq] at returned
  rwa [PackState.packs, returned] at packed

theorem packBlocks_ok {blocks : List CanonicalBlock} {packs : List (List Fragment)}
    (sorted : blocks.Pairwise fun b b' => b.order < b'.order)
    (sameSection : ∀ b ∈ blocks, ∀ b' ∈ blocks, sectionKey b = sectionKey b')
    (returned : packBlocks budget document blocks = .ok packs) :
    BlockPacks budget document blocks packs := by
  rw [packBlocks, bind_eq_ok] at returned
  obtain ⟨groups, split, returned⟩ := returned
  have called := mapM_eq_ok.1 split
  obtain ⟨fitted, fits, packed⟩ := packSection_ok
    (fun p member => (piece_of_mem split member).2.1) (sorted_pieces sorted split) returned
  -- a fragment of a list is a part of a fitted piece, which is a part of a piece of a block
  have fromPieces : ∀ pack ∈ packs, ∀ f ∈ pack, f.block ∈ blocks ∧
      ∃ pieces, splitBlock f.block = .ok pieces ∧ ∃ p ∈ pieces, f.Within p := by
    intro pack present f inside
    obtain ⟨g, isFitted, within⟩ := packed.fromDone pack present f inside
    obtain ⟨p, isPiece, within'⟩ := fits.fromPieces g isFitted
    have whole := within.trans within'
    obtain ⟨isBlock, -, -, pieces, returned, member⟩ := piece_of_mem split isPiece
    rw [whole.sameBlock]
    exact ⟨isBlock, pieces, returned, p, member, whole⟩
  refine ⟨packed.nonempty, packed.exact, fromPieces, ?_, packed.sorted, ?_, packed.follows,
    packed.fits⟩
  · intro pack present f left g right
    exact sameSection _ (fromPieces pack present f left).1 _ (fromPieces pack present g right).1
  · intro block isBlock pieces split p isPiece x token
    obtain ⟨pieces', present, split'⟩ := exists_of_mem_forall₂ called.flip isBlock
    cases split.symm.trans split'
    obtain ⟨f, isFitted, sameBlock, token⟩ :=
      fits.covered p (List.mem_flatten_of_mem present isPiece) x token
    obtain ⟨pack, inPacks, inside⟩ := packed.covered f isFitted
    exact ⟨pack, inPacks, f, inside, sameBlock.trans (splitBlock_exact split p isPiece).1, token⟩

theorem BlockPacks.append {blocks blocks' : List CanonicalBlock} {packs packs' : List (List Fragment)}
    (first : BlockPacks budget document blocks packs)
    (second : BlockPacks budget document blocks' packs')
    (apart : ∀ b ∈ blocks, ∀ b' ∈ blocks', b.order < b'.order) :
    BlockPacks budget document (blocks ++ blocks') (packs ++ packs') := by
  constructor
  case nonempty => exact List.forall_mem_append.mpr ⟨first.nonempty, second.nonempty⟩
  case exact => exact List.forall_mem_append.mpr ⟨first.exact, second.exact⟩
  case sameSection => exact List.forall_mem_append.mpr ⟨first.sameSection, second.sameSection⟩
  case sorted => exact List.forall_mem_append.mpr ⟨first.sorted, second.sorted⟩
  case fits => exact List.forall_mem_append.mpr ⟨first.fits, second.fits⟩
  case fromBlocks =>
    refine List.forall_mem_append.mpr ⟨fun pack present f inside => ?_, fun pack present f inside => ?_⟩
    · obtain ⟨isBlock, holds⟩ := first.fromBlocks pack present f inside
      exact ⟨List.mem_append_left _ isBlock, holds⟩
    · obtain ⟨isBlock, holds⟩ := second.fromBlocks pack present f inside
      exact ⟨List.mem_append_right _ isBlock, holds⟩
  case covered =>
    refine List.forall_mem_append.mpr ⟨fun block isBlock pieces split p isPiece x token => ?_,
      fun block isBlock pieces split p isPiece x token => ?_⟩
    · obtain ⟨pack, present, holds⟩ := first.covered block isBlock pieces split p isPiece x token
      exact ⟨pack, List.mem_append_left _ present, holds⟩
    · obtain ⟨pack, present, holds⟩ := second.covered block isBlock pieces split p isPiece x token
      exact ⟨pack, List.mem_append_right _ present, holds⟩
  case follows =>
    refine List.pairwise_append.mpr ⟨first.follows, second.follows, ?_⟩
    intro pack present pack' present' f inside g inside' less
    -- the blocks of the second half all come later
    have := apart _ (first.fromBlocks pack present g inside').1 _
      (second.fromBlocks pack' present' f inside).1
    omega

/-- The lists packed in the sections of the document, together. -/
theorem packBlocks_flatten {groups : List (List CanonicalBlock)}
    {lists : List (List (List Fragment))}
    (sorted : groups.flatten.Pairwise fun b b' => b.order < b'.order)
    (sameSection : ∀ group ∈ groups, ∀ b ∈ group, ∀ b' ∈ group, sectionKey b = sectionKey b')
    (packed : List.Forall₂ (fun group packs => packBlocks budget document group = .ok packs)
      groups lists) :
    BlockPacks budget document groups.flatten lists.flatten := by
  induction packed with
  | nil => constructor <;> simp
  | cons head _ ih =>
    rw [List.flatten_cons, List.pairwise_append] at sorted
    have first := packBlocks_ok sorted.1 (sameSection _ List.mem_cons_self) head
    have rest := ih sorted.2.1 fun group member => sameSection group (.tail _ member)
    exact first.append rest sorted.2.2

/-- One chunk, made from one packed list. -/
structure ChunkOf (budget : InputBudget) (document : CanonicalDocument)
    (fragments : List Fragment) (chunk : Chunk) : Prop where
  text_eq : chunk.text = joinTexts (mergeFragments fragments)
  embeddingText_eq : chunk.embeddingText = chunk.text
  tokenCount_eq : chunk.tokenCount = count chunk.text
  locators_eq : (mergeFragments fragments).mapM Fragment.locator = .ok chunk.locators
  headingPath_eq : chunk.headingPath = commonHeadingPath (mergeFragments fragments)
  pageNumber_eq : chunk.pageNumber =
    singlePage ((mergeFragments fragments).map (·.block.pageNumber)).dedup
  assertFits : budget.assertFits chunk.embeddingText = .ok ()

section Document

variable [IdentityDigest]

theorem addChunk_ok {chunks chunks' : List Chunk} {fragments : List Fragment}
    (returned : addChunk budget document chunks fragments = .ok chunks') :
    ∃ chunk, chunks' = chunks ++ [chunk] ∧ ChunkOf budget document fragments chunk := by
  simp only [addChunk, bind_eq_ok] at returned
  obtain ⟨locators, located, chunk, created, ⟨⟩, fits, returned⟩ := returned
  cases returned
  obtain ⟨-, -, -, text, embeddingText, tokenCount, locatorsEq, headingPath, pageNumber, -⟩ :=
    Chunk.create_ok created
  refine ⟨chunk, rfl, text, embeddingText.trans text.symm, ?_, ?_, headingPath, pageNumber, fits⟩
  · rw [tokenCount, text]
  · rw [located, locatorsEq]

theorem chunkSection_eq (budget : InputBudget) (document : CanonicalDocument) (chunks : List Chunk)
    (blocks : List CanonicalBlock) :
    chunkSection budget document chunks blocks =
      packBlocks budget document blocks >>= fun packed =>
        packed.foldlM (addChunk budget document) chunks := by
  cases pieces : blocks.mapM splitBlock with
  | error e => simp [chunkSection, packBlocks, pieces, bind, Except.bind]
  | ok pieces' => simp [chunkSection, packBlocks, pieces, bind, Except.bind]

/-- Packing all sections first, and making the chunks after that, returns the
same chunks. -/
theorem chunk_eq_ok {chunks : List Chunk} :
    chunk budget document = .ok chunks ↔ chunks ≠ [] ∧
      ∃ lists, (sections document.blocks).mapM (packBlocks budget document) = .ok lists ∧
        lists.flatten.foldlM (addChunk budget document) [] = .ok chunks := by
  have split := funext fun chunks => funext (chunkSection_eq budget document chunks)
  rw [chunk, bind_eq_ok, split]
  simp only [foldlM_foldlM_eq_ok]
  constructor
  · rintro ⟨chunks', folded, returned⟩
    cases empty : chunks'.isEmpty with
    | true => simp [empty] at returned; cases returned
    | false =>
      simp only [empty, Bool.false_eq_true, if_false] at returned
      cases returned
      exact ⟨by simpa using empty, folded⟩
  · rintro ⟨some, folded⟩
    refine ⟨chunks, folded, ?_⟩
    simp [some]
    rfl

/-- `chunk` packs the sections and makes one chunk of each packed list. -/
theorem chunk_sections {chunks : List Chunk} (returned : chunk budget document = .ok chunks) :
    ∃ lists, List.Forall₂ (fun group packs => packBlocks budget document group = .ok packs)
        (sections document.blocks) lists ∧
      BlockPacks budget document document.blocks lists.flatten ∧
      List.Forall₂ (ChunkOf budget document) lists.flatten chunks := by
  obtain ⟨-, lists, packed, folded⟩ := chunk_eq_ok.1 returned
  have sections_eq := flatten_sections document.blocks
  have spec := packBlocks_flatten (sections_eq.symm ▸ document.orders_sorted)
    (fun group member b left b' right => sectionKey_of_mem member left right)
    (mapM_eq_ok.1 packed)
  rw [sections_eq] at spec
  refine ⟨lists, mapM_eq_ok.1 packed, spec, ?_⟩
  refine foldlM_ok (motive := List.Forall₂ (ChunkOf budget document)) .nil ?_ folded
  intro done fragments chunks chunks' _ related returned
  obtain ⟨chunk, rfl, isChunk⟩ := addChunk_ok returned
  exact List.rel_append related (.cons isChunk .nil)

/-- `chunk` makes one chunk of each packed list of the document. -/
theorem chunk_ok {chunks : List Chunk} (returned : chunk budget document = .ok chunks) :
    ∃ packs, BlockPacks budget document document.blocks packs ∧
      List.Forall₂ (ChunkOf budget document) packs chunks := by
  obtain ⟨lists, -, spec, related⟩ := chunk_sections returned
  exact ⟨lists.flatten, spec, related⟩

end Document

/-! ## The locators of a chunk -/

/-- The locator points at the fragment. -/
structure Locates (fragment : Fragment) (locator : SourceLocator) : Prop where
  blockId : locator.blockId = fragment.block.blockId
  blockIndex : locator.blockIndex = fragment.block.order
  charStart : locator.charStart = fragment.charStart
  charEnd : locator.charEnd = fragment.charEnd
  pageNumber : locator.pageNumber = fragment.block.pageNumber

theorem locator_of_aligned {fragment : Fragment} (aligned : fragment.Aligned) :
    ∃ locator, fragment.locator = .ok locator ∧ Locates fragment locator := by
  have valid := SourceLocator.new_of_valid ⟨fragment.block.blockId, fragment.block.order,
    fragment.charStart, fragment.charEnd, fragment.block.pageNumber,
    fragment.block.blockId_nonempty, aligned.nonempty, fragment.block.page_positive⟩
  exact ⟨_, valid, rfl, rfl, rfl, rfl, rfl⟩

theorem locates_of_ok {fragment : Fragment} (aligned : fragment.Aligned) {locator : SourceLocator}
    (returned : fragment.locator = .ok locator) : Locates fragment locator := by
  obtain ⟨locator', built, locates⟩ := locator_of_aligned aligned
  cases built.symm.trans returned
  exact locates

/-- What `chunk` makes of a packed list. -/
structure ChunkSpec (document : CanonicalDocument) (fragments merged : List Fragment)
    (chunk : Chunk) : Prop where
  spec : Merged fragments merged
  inDocument : ∀ m ∈ merged, m.block ∈ document.blocks
  nonempty : merged ≠ []
  text_eq : chunk.text = joinTexts merged
  locates : List.Forall₂ Locates merged chunk.locators

theorem BlockPacks.ordered {packs : List (List Fragment)}
    (spec : BlockPacks budget document document.blocks packs) {pack : List Fragment}
    (member : pack ∈ packs) : (∀ f ∈ pack, f.Aligned) ∧ Ordered document pack :=
  ⟨fun f inside => (spec.exact pack member f inside).toAligned,
    fun f inside => (spec.fromBlocks pack member f inside).1, spec.sorted pack member⟩

theorem chunkSpec_of_pack {packs : List (List Fragment)}
    (spec : BlockPacks budget document document.blocks packs) {pack : List Fragment}
    (member : pack ∈ packs) {chunk : Chunk} (isChunk : ChunkOf budget document pack chunk) :
    ChunkSpec document pack (mergeFragments pack) chunk := by
  obtain ⟨aligned, ordered⟩ := spec.ordered member
  obtain ⟨merged, exact⟩ := mergeFragments_ok aligned ordered
  refine ⟨merged, fun m inside => ?_, ?_, isChunk.text_eq, ?_⟩
  · obtain ⟨f, present, sameBlock, -⟩ := merged.starts m inside
    rw [← sameBlock]
    exact ordered.inDocument f present
  · obtain ⟨f, inside⟩ := List.exists_mem_of_ne_nil pack (spec.nonempty pack member)
    obtain ⟨m, present, -⟩ := merged.covers f inside
    exact List.ne_nil_of_mem present
  · have called := mapM_eq_ok.1 isChunk.locators_eq
    obtain ⟨length, each⟩ := List.forall₂_iff_get.mp called
    exact List.forall₂_iff_get.mpr ⟨length, fun i left right =>
      locates_of_ok (merged.aligned _ (List.get_mem _ _)) (each i left right)⟩

/-! ## When chunking succeeds -/

/-- Every token of the block's pieces fits the budget on its own. -/
def TokensFit (budget : InputBudget) (document : CanonicalDocument) (block : CanonicalBlock) :
    Prop :=
  ∀ pieces, splitBlock block = .ok pieces → ∀ p ∈ pieces, ∀ i < (spans p.text).length,
    RunFits budget document p i (i + 1)

/-- Fitted pieces are no larger than the pieces. -/
theorem fitted_bounded {pieces : List Fragment} {groups : List (List Fragment)}
    (source : ∀ p ∈ pieces, p.Exact ∧ p.tokenCount ≤ PIPELINE.chunkMaxTokens)
    (returned : pieces.mapM (fitPiece budget document) = .ok groups) :
    ∀ f ∈ groups.flatten, f.Exact ∧ f.tokenCount ≤ PIPELINE.chunkMaxTokens := by
  intro f member
  obtain ⟨group, present, inside⟩ := List.mem_flatten.mp member
  obtain ⟨p, isPiece, called⟩ := mem_mapM returned present
  obtain ⟨exact, small⟩ := source p isPiece
  have spec := fitPiece_ok exact called
  rw [exact.tokenCount_eq] at small
  exact ⟨spec.exact f inside, Nat.le_trans (spec.bounded f inside) small⟩

/-- Packing pieces raises what fitting one of them raises: the loop over the fitted pieces
does not raise. -/
theorem packSection_error {pieces : List Fragment} {e : PyError}
    (source : ∀ p ∈ pieces, p.Exact ∧ p.tokenCount ≤ PIPELINE.chunkMaxTokens)
    (raised : packSection budget document pieces = .error e) :
    ∃ p ∈ pieces, fitPiece budget document p = .error e := by
  rw [packSection, bind_eq_error] at raised
  obtain unfitted | ⟨parts, fits, raised⟩ := raised
  · exact mapM_error unfitted
  · have bounded := fitted_bounded source fits
    obtain ⟨state, folded⟩ := foldlM_packStep_total budget document
      (fun f member => (bounded f member).1) fun f member => (bounded f member).2
    simp only [folded, bind, Except.bind, pure, Except.pure, reduceCtorEq] at raised

/-- Packing some blocks raises what fitting one of their pieces raises. -/
theorem packBlocks_error {blocks : List CanonicalBlock} {e : PyError}
    (raised : packBlocks budget document blocks = .error e) :
    ∃ block ∈ blocks, ∃ pieces, splitBlock block = .ok pieces ∧ ∃ p ∈ pieces,
      fitPiece budget document p = .error e := by
  rw [packBlocks, bind_eq_error] at raised
  obtain unsplit | ⟨groups, split, raised⟩ := raised
  · obtain ⟨block, -, raised⟩ := mapM_error unsplit
    obtain ⟨pieces, returned⟩ := splitBlock_total block
    cases returned.symm.trans raised
  obtain ⟨p, member, raised⟩ := packSection_error (fun p member =>
    ⟨(piece_of_mem split member).2.1, (piece_of_mem split member).2.2.1⟩) raised
  obtain ⟨isBlock, -, -, pieces, returned, inside⟩ := piece_of_mem split member
  exact ⟨p.block, isBlock, pieces, returned, p, inside, raised⟩

theorem packBlocks_total {blocks : List CanonicalBlock}
    (tokensFit : ∀ block ∈ blocks, TokensFit budget document block) :
    ∃ packs, packBlocks budget document blocks = .ok packs := by
  apply exists_ok
  intro e raised
  obtain ⟨block, isBlock, pieces, split, p, isPiece, unfit⟩ := packBlocks_error raised
  obtain ⟨parts, fits⟩ := fitPiece_total (tokensFit block isBlock pieces split p isPiece)
  cases fits.symm.trans unfit

section Document

variable [IdentityDigest]

/-- For a packed list, only the final check of the budget can raise. -/
theorem addChunk_eq (budget : InputBudget) {pack : List Fragment} (some : pack ≠ [])
    (aligned : ∀ f ∈ pack, f.Aligned) (ordered : Ordered document pack) (chunks : List Chunk) :
    ∃ chunk, addChunk budget document chunks pack = do
      budget.assertFits (joinTexts (mergeFragments pack))
      return chunks ++ [chunk] := by
  obtain ⟨merged, exact⟩ := mergeFragments_ok aligned ordered
  obtain ⟨locators, located, locates⟩ := exists_mapM (mergeFragments pack)
    (P := Locates) fun m inside => locator_of_aligned (merged.aligned m inside)
  obtain ⟨f, inside⟩ := List.exists_mem_of_ne_nil pack some
  obtain ⟨m, present, -⟩ := merged.covers f inside
  -- the chunk has a visible character, as every merged fragment does
  obtain ⟨c, inText, visible⟩ : ∃ c ∈ joinTexts (mergeFragments pack), isSpace c = false := by
    by_contra blank
    refine Fragment.strip_text_ne_nil (merged.aligned m present) (strip_eq_nil.2 fun c inM => ?_)
    by_contra visible
    exact blank ⟨c, subset_joinTexts present inM, by simpa using visible⟩
  have content : strip (joinTexts (mergeFragments pack)) ≠ [] := by
    intro blank
    rw [strip_eq_nil.1 blank c inText] at visible
    cases visible
  have tokens : 1 ≤ count (joinTexts (mergeFragments pack)) :=
    List.length_pos_of_ne_nil (spans_ne_nil inText visible)
  have located' : locators ≠ [] := by
    rintro rfl
    rw [List.forall₂_nil_right_iff] at locates
    rw [locates] at present
    cases present
  obtain ⟨chunk, created⟩ := Chunk.create_of_content document.documentId document.versionId
    chunks.length (commonHeadingPath (mergeFragments pack))
    (singlePage ((mergeFragments pack).map (·.block.pageNumber)).dedup) document.title content
    tokens located'
  have embedded : chunk.embeddingText = joinTexts (mergeFragments pack) :=
    (Chunk.create_ok created).2.2.2.2.1
  refine ⟨chunk, ?_⟩
  simp only [addChunk, located, created, embedded, bind, Except.bind]

/-- Chunking succeeds when the document has a piece, every token fits the budget
on its own, and the final check accepts every text. -/
theorem chunk_total (budget : InputBudget) (document : CanonicalDocument)
    (tokensFit : ∀ block ∈ document.blocks, TokensFit budget document block)
    (accepts : ∀ text, budget.assertFits text = .ok ())
    (some : ∃ block ∈ document.blocks, ∃ pieces, splitBlock block = .ok pieces ∧ pieces ≠ []) :
    ∃ chunks, chunk budget document = .ok chunks := by
  have sections_eq := flatten_sections document.blocks
  have sorted : (sections document.blocks).flatten.Pairwise fun b b' => b.order < b'.order :=
    sections_eq.symm ▸ document.orders_sorted
  -- every section can be packed
  obtain ⟨lists, packed, related⟩ := exists_mapM (sections document.blocks)
    (P := fun group packs => packBlocks budget document group = .ok packs) fun group member => by
      obtain ⟨packs, packed⟩ := packBlocks_total fun block isBlock =>
        tokensFit block (by rw [← sections_eq]; exact List.mem_flatten_of_mem member isBlock)
      exact ⟨packs, packed, packed⟩
  have spec := packBlocks_flatten sorted
    (fun group member b left b' right => sectionKey_of_mem member left right) related
  rw [sections_eq] at spec
  -- every list becomes a chunk
  obtain ⟨chunks, folded, length⟩ := foldlM_total lists.flatten
    (motive := fun done chunks => chunks.length = done.length)
    (f := addChunk budget document) (s := []) rfl
    fun done pack chunks isPrefix length => by
      have member : pack ∈ lists.flatten := isPrefix.subset (by simp)
      obtain ⟨aligned, ordered⟩ := spec.ordered member
      obtain ⟨chunk, added⟩ := addChunk_eq budget (spec.nonempty pack member) aligned ordered chunks
      rw [added, accepts]
      exact ⟨_, rfl, by simp [length]⟩
  -- some token is covered, so there is a chunk
  refine ⟨chunks, chunk_eq_ok.2 ⟨?_, lists, packed, folded⟩⟩
  obtain ⟨block, isBlock, pieces, split, nonempty⟩ := some
  obtain ⟨p, isPiece⟩ := List.exists_mem_of_ne_nil pieces nonempty
  obtain ⟨x, token, -⟩ := ((splitBlock_exact split p isPiece).2.toAligned).first
  obtain ⟨pack, present, -⟩ := spec.covered block isBlock pieces split p isPiece x token
  rintro rfl
  rw [List.length_nil, eq_comm, List.length_eq_zero_iff] at length
  rw [length] at present
  cases present

end Document

end StructureAwareChunker

end SupportPilot.Rag
