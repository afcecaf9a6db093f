import Mathlib.Data.List.Nodup
import SupportPilot.Domain
import SupportPilot.Lib.Text

/-! # Documents, locators and chunks

`packages/rag/models.py`.  A dataclass with checks in `__post_init__` is a
structure that carries what the checks establish, together with a constructor
`new` that makes the checks on raw values, in the order of the source. -/

namespace SupportPilot.Rag

open Lib

inductive BlockKind where
  | heading | paragraph | listItem
  deriving DecidableEq, Repr

/-- The scalars of a JSON object in a `JSON` column. -/
inductive JsonScalar where
  | null
  | int (value : Int)
  | str (value : Text)
  deriving DecidableEq, Repr

/-- A `dict` with string keys, in insertion order. -/
abbrev JsonObject := List (String × JsonScalar)

@[ext] structure SourceLocator where
  blockId : Text
  blockIndex : Nat
  charStart : Nat
  charEnd : Nat
  pageNumber : Option Nat
  blockId_nonempty : blockId ≠ []
  span_nonempty : charStart < charEnd
  page_positive : ∀ page ∈ pageNumber, 1 ≤ page
  deriving DecidableEq

namespace SourceLocator

def new (blockId : Text) (blockIndex charStart charEnd : Int) (pageNumber : Option Int) :
    Except PyError SourceLocator :=
  if identity : blockId = [] ∨ blockIndex < 0 then
    .error (.valueError "source locator block identity is invalid")
  else if span : charStart < 0 ∨ charEnd ≤ charStart then
    .error (.valueError "source locator must contain a non-empty span")
  else if page : ∃ page ∈ pageNumber, page < 1 then
    .error (.valueError "PDF page numbers are one-based")
  else
    .ok {
      blockId := blockId
      blockIndex := blockIndex.toNat
      charStart := charStart.toNat
      charEnd := charEnd.toNat
      pageNumber := pageNumber.map Int.toNat
      blockId_nonempty := fun empty => identity (.inl empty)
      span_nonempty := by omega
      page_positive := by
        intro number member
        obtain ⟨raw, present, rfl⟩ := Option.map_eq_some_iff.mp member
        have : ¬ raw < 1 := fun small => page ⟨raw, present, small⟩
        omega }

/-- Raw values that already satisfy the checks. -/
theorem new_of_valid (locator : SourceLocator) :
    new locator.blockId locator.blockIndex locator.charStart locator.charEnd
      (locator.pageNumber.map Int.ofNat) = .ok locator := by
  have page : ¬ ∃ page ∈ locator.pageNumber.map Int.ofNat, page < 1 := by
    rintro ⟨raw, member, small⟩
    obtain ⟨number, present, rfl⟩ := Option.map_eq_some_iff.mp member
    have := locator.page_positive number present
    simp only [Int.ofNat_eq_natCast] at small
    omega
  have identity : ¬ (locator.blockId = [] ∨ (locator.blockIndex : Int) < 0) := by
    rintro (empty | negative)
    · exact locator.blockId_nonempty empty
    · omega
  have span : ¬ ((locator.charStart : Int) < 0 ∨ (locator.charEnd : Int) ≤ locator.charStart) := by
    have := locator.span_nonempty
    omega
  rw [new, dif_neg identity, dif_neg span, dif_neg page]
  simp [Option.map_map, Function.comp_def]

def asDict (locator : SourceLocator) : JsonObject :=
  [("block_id", .str locator.blockId),
    ("block_index", .int locator.blockIndex),
    ("char_start", .int locator.charStart),
    ("char_end", .int locator.charEnd),
    ("page_number", locator.pageNumber.elim .null fun page => .int page)]

end SourceLocator

/-- A block without a page number meets the check on it. -/
theorem unpaged_positive : ∀ page ∈ (none : Option Nat), 1 ≤ page := nofun

theorem firstId_nonempty : "b000000".toList ≠ [] := List.cons_ne_nil _ _

structure CanonicalBlock where
  blockId : Text
  order : Nat
  kind : BlockKind
  text : Text
  headingPath : List Text
  pageNumber : Option Nat
  blockId_nonempty : blockId ≠ []
  text_nonempty : strip text ≠ []
  text_normalized : strip text = text
  page_positive : ∀ page ∈ pageNumber, 1 ≤ page
  deriving DecidableEq

namespace CanonicalBlock

def new (blockId : Text) (order : Nat) (kind : BlockKind) (text : Text) (headingPath : List Text)
    (pageNumber : Option Nat) : Except PyError CanonicalBlock :=
  if identity : blockId = [] then
    .error (.valueError "canonical block identity is invalid")
  else if normalized : strip text = [] ∨ text ≠ strip text then
    .error (.valueError "canonical block text must be non-empty and normalized")
  else if page : ∃ page ∈ pageNumber, page < 1 then
    .error (.valueError "PDF page numbers are one-based")
  else
    .ok {
      blockId, order, kind, text, headingPath, pageNumber
      blockId_nonempty := identity
      text_nonempty := fun empty => normalized (.inl empty)
      text_normalized := by
        by_contra differs
        exact normalized (.inr (Ne.symm differs))
      page_positive := fun number member =>
        Nat.le_of_not_lt fun small => page ⟨number, member, small⟩ }

/-- What a new block holds. -/
theorem new_ok {blockId : Text} {order : Nat} {kind : BlockKind} {text : Text}
    {headingPath : List Text} {pageNumber : Option Nat} {block : CanonicalBlock}
    (created : new blockId order kind text headingPath pageNumber = .ok block) :
    block.blockId = blockId ∧ block.order = order ∧ block.kind = kind ∧ block.text = text ∧
      block.headingPath = headingPath ∧ block.pageNumber = pageNumber := by
  unfold new at created
  split at created
  · cases created
  · split at created
    · cases created
    · split at created
      · cases created
      · cases created
        simp

/-- Raw values that already satisfy the checks. -/
theorem new_of_valid (block : CanonicalBlock) :
    new block.blockId block.order block.kind block.text block.headingPath block.pageNumber =
      .ok block := by
  have normalized : ¬ (strip block.text = [] ∨ block.text ≠ strip block.text) := by
    rintro (empty | differs)
    · exact block.text_nonempty empty
    · exact differs block.text_normalized.symm
  have page : ¬ ∃ page ∈ block.pageNumber, page < 1 := by
    rintro ⟨number, present, small⟩
    have := block.page_positive number present
    omega
  rw [new, dif_neg block.blockId_nonempty, dif_neg normalized, dif_neg page]

end CanonicalBlock

structure CanonicalDocument where
  documentId : UUID
  versionId : UUID
  title : Text
  mediaType : Text
  blocks : List CanonicalBlock
  mediaType_nonempty : mediaType ≠ []
  blocks_nonempty : blocks ≠ []
  blockIds_unique : (blocks.map CanonicalBlock.blockId).Nodup
  orders_contiguous : blocks.map CanonicalBlock.order = List.range blocks.length
  deriving DecidableEq

namespace CanonicalDocument

def new (documentId versionId : UUID) (title mediaType : Text) (blocks : List CanonicalBlock) :
    Except PyError CanonicalDocument :=
  if content : mediaType = [] ∨ blocks = [] then
    .error (.valueError "canonical document requires a media type and blocks")
  else if unique : ¬ (blocks.map CanonicalBlock.blockId).Nodup then
    .error (.valueError "canonical block identifiers must be unique")
  else if contiguous : blocks.map CanonicalBlock.order ≠ List.range blocks.length then
    .error (.valueError "canonical block order must be contiguous")
  else
    .ok {
      documentId, versionId, title, mediaType, blocks
      mediaType_nonempty := fun empty => content (.inl empty)
      blocks_nonempty := fun empty => content (.inr empty)
      blockIds_unique := not_not.mp unique
      orders_contiguous := not_not.mp contiguous }

theorem blocks_of_new {documentId versionId : UUID} {title mediaType : Text}
    {blocks : List CanonicalBlock} {document : CanonicalDocument}
    (created : new documentId versionId title mediaType blocks = .ok document) :
    document.blocks = blocks := by
  unfold new at created
  split at created
  · cases created
  · split at created
    · cases created
    · split at created
      · cases created
      · cases created
        rfl

def resolve (document : CanonicalDocument) (locator : SourceLocator) : Except PyError Text :=
  match document.blocks[locator.blockIndex]? with
  | none => .error (.valueError "source locator references a missing block")
  | some block =>
    if block.blockId ≠ locator.blockId ∨ block.pageNumber ≠ locator.pageNumber then
      .error (.valueError "source locator identity does not match its block")
    else if locator.charEnd > block.text.length then
      .error (.valueError "source locator extends beyond its block")
    else
      .ok (slice locator.charStart locator.charEnd block.text)

/-- Raw values that already satisfy the checks. -/
theorem new_of_valid (document : CanonicalDocument) :
    new document.documentId document.versionId document.title document.mediaType document.blocks =
      .ok document := by
  have content : ¬ (document.mediaType = [] ∨ document.blocks = []) := by
    rintro (empty | empty)
    · exact document.mediaType_nonempty empty
    · exact document.blocks_nonempty empty
  rw [new, dif_neg content, dif_neg (not_not.mpr document.blockIds_unique),
    dif_neg (not_not.mpr document.orders_contiguous)]

variable {document : CanonicalDocument} {block block' : CanonicalBlock}

/-- The order of a block is its position. -/
theorem getElem?_order (member : block ∈ document.blocks) :
    document.blocks[block.order]? = some block := by
  obtain ⟨i, read⟩ := List.mem_iff_getElem?.mp member
  have orders := congrArg (·[i]?) document.orders_contiguous
  have within : i < document.blocks.length := (List.getElem?_eq_some_iff.mp read).1
  simp only [List.getElem?_map, read, Option.map_some, List.getElem?_range within,
    Option.some.injEq] at orders
  rw [orders, read]

theorem eq_of_order (left : block ∈ document.blocks) (right : block' ∈ document.blocks)
    (same : block.order = block'.order) : block = block' := by
  have read := getElem?_order left
  rw [same, getElem?_order right] at read
  exact (Option.some.inj read).symm

theorem eq_of_blockId (left : block ∈ document.blocks) (right : block' ∈ document.blocks)
    (same : block.blockId = block'.blockId) : block = block' :=
  List.inj_on_of_nodup_map document.blockIds_unique left right same

theorem orders_sorted (document : CanonicalDocument) :
    document.blocks.Pairwise fun block block' => block.order < block'.order := by
  rw [← List.pairwise_map (f := CanonicalBlock.order) (R := (· < ·)), document.orders_contiguous]
  exact List.pairwise_lt_range

end CanonicalDocument

/-- The dictionary whose JSON text `Chunk.create` hashes. -/
structure ChunkIdentity where
  documentId : UUID
  versionId : UUID
  text : Text
  locators : List JsonObject
  deriving DecidableEq

/-- `hashlib.sha256(json.dumps(identity, sort_keys=True, …).encode()).hexdigest()`. -/
class IdentityDigest where
  hexdigest : ChunkIdentity → Text
  length_hexdigest : ∀ identity, (hexdigest identity).length = 64

@[ext] structure Chunk where
  chunkId : Text
  documentId : UUID
  versionId : UUID
  order : Nat
  text : Text
  embeddingText : Text
  tokenCount : Nat
  locators : List SourceLocator
  headingPath : List Text
  pageNumber : Option Nat
  documentTitle : Text
  chunkId_length : chunkId.length = 64
  text_nonempty : strip text ≠ []
  embeddingText_nonempty : strip embeddingText ≠ []
  tokenCount_positive : 1 ≤ tokenCount
  locators_nonempty : locators ≠ []
  deriving DecidableEq

namespace Chunk

/-- `__post_init__` checks neither the type nor the range of the page number. -/
def new (chunkId : Text) (documentId versionId : UUID) (order : Int) (text embeddingText : Text)
    (tokenCount : Int) (locators : List SourceLocator) (headingPath : List Text)
    (pageNumber : Option Nat) (documentTitle : Text) : Except PyError Chunk :=
  if identity : chunkId.length ≠ 64 ∨ order < 0 then
    .error (.valueError "chunk identity is invalid")
  else if content : strip text = [] ∨ strip embeddingText = [] then
    .error (.valueError "chunk text and embedding input cannot be empty")
  else if located : tokenCount < 1 ∨ locators = [] then
    .error (.valueError "chunk requires tokens and source locators")
  else
    .ok {
      chunkId, documentId, versionId, text, embeddingText, locators, headingPath, pageNumber
      documentTitle
      order := order.toNat
      tokenCount := tokenCount.toNat
      chunkId_length := by
        by_contra differs
        exact identity (.inl differs)
      text_nonempty := fun empty => content (.inl empty)
      embeddingText_nonempty := fun empty => content (.inr empty)
      tokenCount_positive := by omega
      locators_nonempty := fun empty => located (.inr empty) }

/-- Raw values that already satisfy the checks. -/
theorem new_of_valid (chunk : Chunk) :
    new chunk.chunkId chunk.documentId chunk.versionId chunk.order chunk.text chunk.embeddingText
      chunk.tokenCount chunk.locators chunk.headingPath chunk.pageNumber chunk.documentTitle =
      .ok chunk := by
  have identity : ¬ (chunk.chunkId.length ≠ 64 ∨ (chunk.order : Int) < 0) := by
    rintro (differs | negative)
    · exact differs chunk.chunkId_length
    · omega
  have content : ¬ (strip chunk.text = [] ∨ strip chunk.embeddingText = []) := by
    rintro (empty | empty)
    · exact chunk.text_nonempty empty
    · exact chunk.embeddingText_nonempty empty
  have located : ¬ ((chunk.tokenCount : Int) < 1 ∨ chunk.locators = []) := by
    rintro (few | empty)
    · have := chunk.tokenCount_positive
      omega
    · exact chunk.locators_nonempty empty
  rw [new, dif_neg identity, dif_neg content, dif_neg located]
  rfl

def create [IdentityDigest] (documentId versionId : UUID) (order : Nat) (text : Text)
    (tokenCount : Nat) (locators : List SourceLocator) (headingPath : List Text)
    (pageNumber : Option Nat) (documentTitle : Text) : Except PyError Chunk :=
  let identity := ⟨documentId, versionId, text, locators.map SourceLocator.asDict⟩
  new (IdentityDigest.hexdigest identity) documentId versionId order text text tokenCount locators
    headingPath pageNumber documentTitle

/-- What a new chunk holds. -/
theorem new_ok {chunkId : Text} {documentId versionId : UUID} {order : Int}
    {text embeddingText : Text} {tokenCount : Int} {locators : List SourceLocator}
    {headingPath : List Text} {pageNumber : Option Nat} {documentTitle : Text} {chunk : Chunk}
    (created : new chunkId documentId versionId order text embeddingText tokenCount locators
      headingPath pageNumber documentTitle = .ok chunk) :
    chunk.chunkId = chunkId ∧ chunk.documentId = documentId ∧ chunk.versionId = versionId ∧
      chunk.order = order ∧ chunk.text = text ∧ chunk.embeddingText = embeddingText ∧
      chunk.tokenCount = tokenCount ∧ chunk.locators = locators ∧
      chunk.headingPath = headingPath ∧ chunk.pageNumber = pageNumber ∧
      chunk.documentTitle = documentTitle := by
  unfold new at created
  split at created
  · cases created
  next identity =>
    split at created
    · cases created
    split at created
    · cases created
    next located =>
      cases created
      -- the two counters were not negative
      have order_eq : (order.toNat : Int) = order := by omega
      have tokenCount_eq : (tokenCount.toNat : Int) = tokenCount := by omega
      simp [order_eq, tokenCount_eq]

/-- What a created chunk holds. -/
theorem create_ok [IdentityDigest] {documentId versionId : UUID} {order : Nat} {text : Text}
    {tokenCount : Nat} {locators : List SourceLocator} {headingPath : List Text}
    {pageNumber : Option Nat} {documentTitle : Text} {chunk : Chunk}
    (created : create documentId versionId order text tokenCount locators headingPath pageNumber
      documentTitle = .ok chunk) :
    chunk.documentId = documentId ∧ chunk.versionId = versionId ∧ chunk.order = order ∧
      chunk.text = text ∧ chunk.embeddingText = text ∧ chunk.tokenCount = tokenCount ∧
      chunk.locators = locators ∧ chunk.headingPath = headingPath ∧
      chunk.pageNumber = pageNumber ∧ chunk.documentTitle = documentTitle := by
  obtain ⟨-, document, version, position, content, embedded, tokens, rest⟩ := new_ok created
  exact ⟨document, version, Int.ofNat.inj position, content, embedded, Int.ofNat.inj tokens, rest⟩

/-- `create` succeeds on a text with tokens and at least one locator. -/
theorem create_of_content [IdentityDigest] (documentId versionId : UUID) (order : Nat) {text : Text}
    {tokenCount : Nat} {locators : List SourceLocator} (headingPath : List Text)
    (pageNumber : Option Nat) (documentTitle : Text) (nonempty : strip text ≠ [])
    (positive : 1 ≤ tokenCount) (located : locators ≠ []) :
    ∃ chunk, create documentId versionId order text tokenCount locators headingPath pageNumber
      documentTitle = .ok chunk := by
  have identity := IdentityDigest.length_hexdigest
    ⟨documentId, versionId, text, locators.map SourceLocator.asDict⟩
  exact ⟨_, new_of_valid ⟨_, documentId, versionId, order, text, text, tokenCount, locators,
    headingPath, pageNumber, documentTitle, identity, nonempty, nonempty, positive, located⟩⟩

end Chunk

end SupportPilot.Rag
