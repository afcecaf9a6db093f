import SupportPilot.Rag.Chunks
import SupportPilot.Rag.Repository

/-! # Citations are faithful

The locators of a chunk resolve in its document, in order and on one page under
one heading path, and the resolved texts make up the text of the chunk.  A chunk
survives the way into the database and back. -/

namespace SupportPilot.Rag

open Lib Lib.Regex ChunkTokenizer StructureAwareChunker

section Citations

variable [WordChars] {budget : InputBudget} {document : CanonicalDocument}

/-! ## What the locators name -/

theorem Merged.sameKey {fragments merged : List Fragment} (spec : Merged fragments merged)
    (sameSection : ∀ f ∈ fragments, ∀ g ∈ fragments, sectionKey f.block = sectionKey g.block) :
    ∀ m ∈ merged, ∀ m' ∈ merged, sectionKey m.block = sectionKey m'.block := by
  intro m left m' right
  obtain ⟨f, inside, sameBlock, -⟩ := spec.starts m left
  obtain ⟨g, inside', sameBlock', -⟩ := spec.starts m' right
  rw [← sameBlock, ← sameBlock']
  exact sameSection f inside g inside'

/-- A locator of an aligned fragment resolves to its text. -/
theorem resolve_locator {m : Fragment} {locator : SourceLocator} (aligned : m.Aligned)
    (inDocument : m.block ∈ document.blocks) (locates : Locates m locator) :
    document.resolve locator = .ok m.text := by
  obtain ⟨blockId, blockIndex, charStart, charEnd, pageNumber⟩ := locates
  have within := aligned.within
  rw [CanonicalDocument.resolve, blockIndex, CanonicalDocument.getElem?_order inDocument]
  simp only [blockId, pageNumber, charStart, charEnd, ne_eq, not_true_eq_false, or_self, if_false,
    Nat.not_lt.mpr within]
  rfl

omit [WordChars] in
theorem singlePage_of_same {fragments : List Fragment} {page : Option Nat}
    (some : fragments ≠ []) (same : ∀ f ∈ fragments, f.block.pageNumber = page) :
    singlePage (fragments.map (·.block.pageNumber)).dedup = page := by
  obtain ⟨first, rest, rfl⟩ := List.exists_cons_of_ne_nil some
  have pages : (first :: rest).map (·.block.pageNumber) = List.replicate (rest.length + 1) page := by
    rw [List.eq_replicate_iff]
    refine ⟨by simp, fun p member => ?_⟩
    obtain ⟨f, inside, rfl⟩ := List.mem_map.mp member
    exact same f inside
  rw [pages, List.replicate_dedup (Nat.succ_ne_zero _)]
  rfl

/-- What a citation of the chunk relies on. -/
structure Faithful (document : CanonicalDocument) (chunk : Chunk) : Prop where
  resolves : ∃ texts, chunk.locators.mapM document.resolve = .ok texts ∧
    "\n\n".toList.intercalate texts = chunk.text
  ordered : chunk.locators.Pairwise fun l l' =>
    l.blockIndex < l'.blockIndex ∧ l.blockId ≠ l'.blockId
  oneSection : ∀ l ∈ chunk.locators, l.pageNumber = chunk.pageNumber ∧
    ∃ block, document.blocks[l.blockIndex]? = some block ∧ block.blockId = l.blockId ∧
      block.pageNumber = chunk.pageNumber ∧ block.headingPath = chunk.headingPath
  tokenCount_eq : chunk.tokenCount = count chunk.text
  stored : ∀ (int : Text → Except PyError Int) (workspaceId : UUID) (record : EmbeddedChunk),
    record.chunk = chunk → storedChunk int (documentChunk workspaceId record) = .ok chunk ∧
      ∀ rows records written, replaceVersion rows workspaceId records = .ok written →
        record ∈ records → documentChunk workspaceId record ∈ written

section Document

variable [IdentityDigest]

/-- The merged fragments behind a chunk. -/
theorem exists_chunkSpec {chunks : List Chunk} (returned : chunk budget document = .ok chunks)
    {c : Chunk} (member : c ∈ chunks) :
    ∃ packs, BlockPacks budget document document.blocks packs ∧ ∃ pack ∈ packs,
      ChunkOf budget document pack c ∧ ChunkSpec document pack (mergeFragments pack) c := by
  obtain ⟨packs, spec, related⟩ := chunk_ok returned
  obtain ⟨pack, present, isChunk⟩ := exists_of_mem_forall₂ related member
  exact ⟨packs, spec, pack, present, isChunk, chunkSpec_of_pack spec present isChunk⟩

/-- Every chunk that the chunker returns can be cited. -/
theorem citations_faithful {chunks : List Chunk} (returned : chunk budget document = .ok chunks) :
    ∀ c ∈ chunks, Faithful document c := by
  intro c member
  obtain ⟨packs, packed, pack, present, isChunk, merged, inDocument, some, text, locates⟩ :=
    exists_chunkSpec returned member
  -- all fragments of a pack share the page and the heading path of the first
  have sameKey := merged.sameKey (packed.sameSection pack present)
  obtain ⟨first, isFirst⟩ := List.exists_mem_of_ne_nil _ some
  have path : c.headingPath = first.block.headingPath := by
    rw [isChunk.headingPath_eq]
    exact commonHeadingPath_of_same some fun m inside =>
      (Prod.mk.inj (sameKey m inside first isFirst)).2
  have page : c.pageNumber = first.block.pageNumber := by
    rw [isChunk.pageNumber_eq]
    exact singlePage_of_same some fun m inside =>
      (Prod.mk.inj (sameKey m inside first isFirst)).1
  constructor
  case resolves =>
    refine ⟨(mergeFragments pack).map Fragment.text, ?_, text.symm⟩
    rw [mapM_eq_ok, List.forall₂_map_right_iff]
    obtain ⟨length, each⟩ := List.forall₂_iff_get.mp locates
    exact List.forall₂_iff_get.mpr ⟨length.symm, fun i left right =>
      resolve_locator (merged.aligned _ (List.get_mem _ _)) (inDocument _ (List.get_mem _ _))
        (each i right left)⟩
  case ordered =>
    refine pairwise_of_forall₂ locates merged.sorted ?_
    intro m left m' right l l' less holds holds'
    rw [holds.blockIndex, holds'.blockIndex, holds.blockId, holds'.blockId]
    refine ⟨less, fun same => ?_⟩
    have sameBlock := CanonicalDocument.eq_of_blockId (inDocument m left) (inDocument m' right) same
    rw [sameBlock] at less
    exact Nat.lt_irrefl _ less
  case oneSection =>
    intro l isLocator
    obtain ⟨m, inside, holds⟩ := exists_of_mem_forall₂ locates isLocator
    obtain ⟨samePage, samePath⟩ := Prod.mk.inj (sameKey m inside first isFirst)
    refine ⟨by rw [holds.pageNumber, samePage, page], m.block, ?_, holds.blockId.symm,
      by rw [samePage, page], by rw [samePath, path]⟩
    rw [holds.blockIndex]
    exact CanonicalDocument.getElem?_order (inDocument m inside)
  case tokenCount_eq => exact isChunk.tokenCount_eq
  case stored =>
    rintro int workspaceId record rfl
    refine ⟨storedChunk_documentChunk int workspaceId record isChunk.embeddingText_eq, ?_⟩
    intro rows records written replaced inRecords
    obtain ⟨versionId, documentId, -, -, -, rfl⟩ := replaceVersion_ok replaced
    exact List.mem_append_right _ (List.mem_map_of_mem inRecords)

end Document

end Citations

/-- A document with one paragraph. -/
def helloDocument : CanonicalDocument where
  documentId := 1
  versionId := 2
  title := []
  mediaType := "text/plain".toList
  blocks := [⟨"b000000".toList, 0, .paragraph, "Hello".toList, [], none, by decide, by decide,
    by decide, by decide⟩]
  mediaType_nonempty := by decide
  blocks_nonempty := by decide
  blockIds_unique := by decide
  orders_contiguous := by decide

/-- The digest of the chunk of `helloDocument`. -/
@[reducible] def helloDigest : IdentityDigest where
  hexdigest _ := "d63581a567dd13d3f2b82a9704210453d10252a7b2b51e103e593f29d4dbca74".toList
  length_hexdigest _ := by
    rw [String.toList_ofList]
    rfl

theorem citations_faithful_hello :
    ∃ c, @Faithful asciiWords helloDocument c ∧ c.text = "Hello".toList := by
  let := asciiWords
  let := helloDigest
  have returned : chunk ⟨fun _ => true, fun _ => .ok ()⟩ helloDocument = .ok [
      ⟨"d63581a567dd13d3f2b82a9704210453d10252a7b2b51e103e593f29d4dbca74".toList, 1, 2, 0,
        "Hello".toList, "Hello".toList, 1,
        [⟨"b000000".toList, 0, 0, 5, none, by decide, by decide, by decide⟩], [], none, [],
        by decide, by decide, by decide, by decide, by decide⟩] := by
    decide
  exact ⟨_, citations_faithful returned _ (List.mem_singleton_self _), rfl⟩

end SupportPilot.Rag
