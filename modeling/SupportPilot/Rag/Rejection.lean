import SupportPilot.Rag.Fitting
import SupportPilot.Rag.Overlaps

/-! # Why a document is rejected

`chunk` raises in three places: a piece cannot be fitted, the budget's own check refuses
a text, or there is no piece (`chunk_error`). -/

namespace SupportPilot.Rag

open Lib Lib.Regex ChunkTokenizer StructureAwareChunker

/-- The error of `chunk` on a document without pieces. -/
def noContent : PyError := .valueError "chunking produced no content"

variable [WordChars]

/-- A piece of a block of the document. -/
def IsPiece (document : CanonicalDocument) (piece : Fragment) : Prop :=
  ∃ block ∈ document.blocks, ∃ pieces, splitBlock block = .ok pieces ∧ piece ∈ pieces

/-- A list that is packed for a section of the document. -/
def IsPack (budget : InputBudget) (document : CanonicalDocument) (pack : List Fragment) : Prop :=
  ∃ group ∈ sections document.blocks, ∃ packs,
    packBlocks budget document group = .ok packs ∧ pack ∈ packs

variable {budget : InputBudget} {document : CanonicalDocument}

theorem IsPiece.exact {piece : Fragment} (isPiece : IsPiece document piece) : piece.Exact := by
  obtain ⟨block, -, pieces, split, member⟩ := isPiece
  exact (splitBlock_exact split piece member).2

/-! ## The sections of a document -/

section Sections

variable {group : List CanonicalBlock} {packs : List (List Fragment)}

omit [WordChars] in
theorem section_subset (member : group ∈ sections document.blocks) :
    group ⊆ document.blocks := by
  have sublist := List.sublist_flatten_of_mem member
  rw [flatten_sections] at sublist
  exact sublist.subset

theorem section_ok (member : group ∈ sections document.blocks)
    (returned : packBlocks budget document group = .ok packs) :
    BlockPacks budget document group packs := by
  have sublist := List.sublist_flatten_of_mem member
  rw [flatten_sections] at sublist
  apply packBlocks_ok (document.orders_sorted.sublist sublist) _ returned
  intro b left b' right
  exact sectionKey_of_mem member left right

omit [WordChars] in
theorem exists_section {block : CanonicalBlock} (member : block ∈ document.blocks) :
    ∃ group ∈ sections document.blocks, block ∈ group := by
  rw [← flatten_sections document.blocks] at member
  exact List.mem_flatten.mp member

end Sections

theorem IsPack.ordered {pack : List Fragment} (isPack : IsPack budget document pack) :
    pack ≠ [] ∧ (∀ f ∈ pack, f.Aligned) ∧ Ordered document pack := by
  obtain ⟨group, member, packs, returned, present⟩ := isPack
  have spec := section_ok member returned
  refine ⟨spec.nonempty pack present, ?_, ?_, spec.sorted pack present⟩
  · intro f inside
    exact (spec.exact pack present f inside).toAligned
  · intro f inside
    exact section_subset member (spec.fromBlocks pack present f inside).1

theorem IsPack.fits {pack : List Fragment} (isPack : IsPack budget document pack) :
    budget.fits (budgetText document pack) = true := by
  obtain ⟨group, member, packs, returned, present⟩ := isPack
  exact (section_ok member returned).fits pack present

/-! ## The places that raise -/

variable [IdentityDigest] {chunks : List Chunk} {e : PyError}

theorem addChunk_error {pack : List Fragment} (isPack : IsPack budget document pack)
    (raised : addChunk budget document chunks pack = .error e) :
    budget.assertFits (joinTexts (mergeFragments pack)) = .error e := by
  obtain ⟨some, aligned, ordered⟩ := isPack.ordered
  obtain ⟨chunk, added⟩ := addChunk_eq budget some aligned ordered chunks
  rw [added, bind_eq_error] at raised
  obtain refused | ⟨-, -, raised⟩ := raised
  · exact refused
  · cases raised

theorem chunkSection_error {group : List CanonicalBlock}
    (member : group ∈ sections document.blocks)
    (raised : chunkSection budget document chunks group = .error e) :
    (∃ piece, IsPiece document piece ∧ fitPiece budget document piece = .error e) ∨
      ∃ pack, IsPack budget document pack ∧
        budget.assertFits (joinTexts (mergeFragments pack)) = .error e := by
  rw [chunkSection_eq, bind_eq_error] at raised
  obtain unpacked | ⟨packs, packed, raised⟩ := raised
  · obtain ⟨block, isBlock, pieces, split, piece, inside, unfit⟩ := packBlocks_error unpacked
    exact .inl ⟨piece, ⟨block, section_subset member isBlock, pieces, split, inside⟩, unfit⟩
  · obtain ⟨done, pack, chunks, isPrefix, -, refused⟩ :=
      foldlM_error (motive := fun _ _ => True) trivial (fun _ _ _ _ _ _ _ => trivial) raised
    have isPack : IsPack budget document pack :=
      ⟨group, member, packs, packed, isPrefix.subset (by simp)⟩
    exact .inr ⟨pack, isPack, addChunk_error isPack refused⟩

/-- A section that adds no chunk holds no token that is kept. -/
theorem chunkSection_nil {group : List CanonicalBlock}
    (returned : chunkSection budget document chunks group = .ok []) :
    chunks = [] ∧ group.flatMap kept = [] := by
  rw [chunkSection_eq, bind_eq_ok] at returned
  obtain ⟨packs, packed, folded⟩ := returned
  have length : ([] : List Chunk).length = chunks.length + packs.length := by
    apply foldlM_ok (motive := fun done chunks' => chunks'.length = chunks.length + done.length)
      rfl _ folded
    intro done pack s t _ counted added
    obtain ⟨chunk, rfl, -⟩ := addChunk_ok added
    simp [counted, Nat.add_assoc]
  obtain ⟨none, empty⟩ : chunks = [] ∧ packs = [] := by
    rw [← List.length_eq_zero_iff, ← List.length_eq_zero_iff]
    simp only [List.length_nil] at length
    omega
  obtain ⟨fitted, spec⟩ := packBlocks_layout packed
  have unlaid := spec.layout
  rw [empty] at unlaid
  have nothing := spec.tokens
  rw [unlaid.eq_nil] at nothing
  exact ⟨none, nothing.symm⟩

/-- `chunk` raises what a piece raises that cannot be fitted, or what the budget's own check
raises, or it has kept no token. -/
theorem chunk_error (raised : chunk budget document = .error e) :
    (∃ piece, IsPiece document piece ∧ fitPiece budget document piece = .error e) ∨
      (∃ pack, IsPack budget document pack ∧
        budget.assertFits (joinTexts (mergeFragments pack)) = .error e) ∨
      e = noContent ∧ document.blocks.flatMap kept = [] := by
  rw [chunk, bind_eq_error] at raised
  obtain inSection | ⟨chunks, folded, raised⟩ := raised
  · obtain ⟨done, group, chunks, isPrefix, -, raised⟩ :=
      foldlM_error (motive := fun _ _ => True) trivial (fun _ _ _ _ _ _ _ => trivial) inSection
    obtain unfit | refused := chunkSection_error (isPrefix.subset (by simp)) raised
    · exact .inl unfit
    · exact .inr (.inl refused)
  · -- every section was chunked, and there is no chunk
    have nothing : chunks = [] → (sections document.blocks).flatten.flatMap kept = [] := by
      apply foldlM_ok (motive := fun done chunks => chunks = [] → done.flatten.flatMap kept = [])
        (fun _ => rfl) _ folded
      intro done group chunks chunks' _ before returned none
      rw [none] at returned
      obtain ⟨none, unkept⟩ := chunkSection_nil returned
      simp [before none, unkept]
    rw [flatten_sections] at nothing
    cases chunks with
    | nil => exact .inr (.inr ⟨by cases raised; rfl, nothing rfl⟩)
    | cons c chunks => cases raised

/-- Where `chunk` returns, every piece was fitted. -/
theorem fitted_of_chunk (returned : chunk budget document = .ok chunks) {piece : Fragment}
    (isPiece : IsPiece document piece) : ∃ parts, fitPiece budget document piece = .ok parts := by
  obtain ⟨block, isBlock, pieces, split, member⟩ := isPiece
  obtain ⟨group, isSection, inside⟩ := exists_section isBlock
  obtain ⟨lists, packed, -⟩ := chunk_sections returned
  obtain ⟨packs, -, packed⟩ := exists_of_mem_forall₂ packed.flip isSection
  rw [packBlocks, bind_eq_ok] at packed
  obtain ⟨groups, splits, packed⟩ := packed
  rw [packSection, bind_eq_ok] at packed
  obtain ⟨parts, fits, -⟩ := packed
  obtain ⟨pieces', present, split'⟩ := exists_of_mem_forall₂ (mapM_eq_ok.1 splits).flip inside
  cases split.symm.trans split'
  obtain ⟨part, -, fits⟩ := exists_of_mem_forall₂ (mapM_eq_ok.1 fits).flip
    (List.mem_flatten_of_mem present member)
  exact ⟨part, fits⟩

/-- Where `chunk` returns, some token was kept. -/
theorem kept_of_chunk (returned : chunk budget document = .ok chunks) :
    document.blocks.flatMap kept ≠ [] := by
  obtain ⟨lists, packed, spec, related⟩ := chunk_sections returned
  obtain ⟨some, -⟩ := chunk_eq_ok.1 returned
  obtain ⟨c, isChunk⟩ := List.exists_mem_of_ne_nil chunks some
  obtain ⟨pack, present, -⟩ := exists_of_mem_forall₂ related isChunk
  obtain ⟨packs, inLists, inside⟩ := List.mem_flatten.mp present
  obtain ⟨group, isSection, returned⟩ := exists_of_mem_forall₂ packed inLists
  obtain ⟨fitted, laid⟩ := packBlocks_layout returned
  -- the list holds a token, and its tokens are tokens that the section keeps
  obtain ⟨f, inPack⟩ := List.exists_mem_of_ne_nil pack (spec.nonempty pack present)
  obtain ⟨x, inFragment⟩ := List.exists_mem_of_ne_nil _
    (Fragment.tokens_ne_nil (spec.exact pack present f inPack).toAligned)
  have placed := (laid.layout.isInfix pack inside).subset
    (List.mem_flatMap.mpr ⟨f, inPack, Fragment.mem_placed.2 ⟨rfl, inFragment⟩⟩)
  rw [laid.tokens] at placed
  obtain ⟨block, isBlock, isKept⟩ := List.mem_flatMap.mp placed
  exact List.ne_nil_of_mem
    (List.mem_flatMap.mpr ⟨block, section_subset isSection isBlock, isKept⟩)

end SupportPilot.Rag
