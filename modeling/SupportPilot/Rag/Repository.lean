import SupportPilot.Lib.Fallible
import SupportPilot.Rag.Chunking

/-! # Storing chunks

`ChunkRepository.replace_version`, `delete_document` and `_stored_chunk` of
`packages/rag/repository.py`, over the rows of `document_chunks`.  The JSON
columns hold the structure they were given; `int()` of a string, which the
columns never hold, is a parameter of the reader. -/

namespace SupportPilot.Rag

open Lib

/-- A Python `float`, as far as the storage contract looks at it. -/
inductive PyFloat where
  | finite (value : Rat)
  | nonFinite
  deriving DecidableEq

/-- `math.isfinite`. -/
def PyFloat.isFinite : PyFloat → Bool
  | .finite _ => true
  | .nonFinite => false

structure EmbeddedChunk where
  chunk : Chunk
  embedding : List PyFloat
  embedding_nonempty : embedding ≠ []
  deriving DecidableEq

/-- A row of `document_chunks`. -/
structure DocumentChunk where
  chunkId : Text
  workspaceId : UUID
  documentId : UUID
  versionId : UUID
  pipelineVersion : Text
  chunkOrder : Int
  originalText : Text
  tokenCount : Int
  locators : List JsonObject
  headingPath : List Text
  pageNumber : Option Nat
  documentTitle : Text
  embedding : List PyFloat
  deriving DecidableEq

/-! ## Reading -/

section Reading

variable (int : Text → Except PyError Int)

def locatorInteger (value : JsonObject) (key : String) : Except PyError Int :=
  match value.lookup key with
  | some (.int raw) => .ok raw
  | some (.str raw) => int raw
  | _ => .error (.runtimeError "stored source locator is malformed")

/-- `str(value)`. -/
def JsonScalar.toText : JsonScalar → Text
  | .null => "None".toList
  | .int value => (toString value).toList
  | .str value => value

/-- `int(value)` of a page number that is not `None`. -/
def JsonScalar.toInt : JsonScalar → Except PyError Int
  | .null => .error (.other 0)
  | .int value => .ok value
  | .str value => int value

def storedLocator (value : JsonObject) : Except PyError SourceLocator := do
  let rawPage := (value.lookup "page_number").getD .null
  let some blockId := value.lookup "block_id" | throw (.keyError "block_id")
  let blockIndex ← locatorInteger int value "block_index"
  let charStart ← locatorInteger int value "char_start"
  let charEnd ← locatorInteger int value "char_end"
  let pageNumber ← if rawPage = .null then pure none else some <$> JsonScalar.toInt int rawPage
  SourceLocator.new blockId.toText blockIndex charStart charEnd pageNumber

/-- `_stored_chunk`. -/
def storedChunk (record : DocumentChunk) : Except PyError Chunk := do
  let locators ← record.locators.mapM (storedLocator int)
  Chunk.new record.chunkId record.documentId record.versionId record.chunkOrder record.originalText
    record.originalText record.tokenCount locators record.headingPath record.pageNumber
    record.documentTitle

/-- What the chunk of a row keeps of it. -/
theorem storedChunk_ok {record : DocumentChunk} {chunk : Chunk}
    (read : storedChunk int record = .ok chunk) :
    chunk.chunkId = record.chunkId ∧ chunk.documentId = record.documentId ∧
      chunk.versionId = record.versionId := by
  obtain ⟨locators, -, created⟩ := bind_eq_ok.1 read
  obtain ⟨chunkId, documentId, versionId, -⟩ := Chunk.new_ok created
  exact ⟨chunkId, documentId, versionId⟩

end Reading

/-! ## Writing -/

/-- The row that `replace_version` builds for a record. -/
def documentChunk (workspaceId : UUID) (record : EmbeddedChunk) : DocumentChunk where
  chunkId := record.chunk.chunkId
  workspaceId := workspaceId
  documentId := record.chunk.documentId
  versionId := record.chunk.versionId
  pipelineVersion := PIPELINE.version
  chunkOrder := record.chunk.order
  originalText := record.chunk.text
  tokenCount := record.chunk.tokenCount
  locators := record.chunk.locators.map SourceLocator.asDict
  headingPath := record.chunk.headingPath
  pageNumber := record.chunk.pageNumber
  documentTitle := record.chunk.documentTitle
  embedding := record.embedding

/-- The primary key and the unique constraint of the table. -/
def ChunkKeys (rows : List DocumentChunk) : Prop :=
  (rows.map DocumentChunk.chunkId).Nodup ∧
    (rows.map fun row => (row.versionId, row.pipelineVersion, row.chunkOrder)).Nodup

instance (rows : List DocumentChunk) : Decidable (ChunkKeys rows) :=
  inferInstanceAs (Decidable (_ ∧ _))

/-- The record breaks the storage contract of the records that start with `first`. -/
def breaksContract (first : Chunk) (record : EmbeddedChunk) : Bool :=
  record.chunk.versionId ≠ first.versionId || record.chunk.documentId ≠ first.documentId ||
    record.embedding.length ≠ PIPELINE.embeddingDimension || !record.embedding.all PyFloat.isFinite

def replaceVersion (rows : List DocumentChunk) (workspaceId : UUID) (records : List EmbeddedChunk) :
    Except PyError (List DocumentChunk) :=
  match records with
  | [] => .error (.valueError "cannot activate an empty production index")
  | first :: _ =>
    if records.any (breaksContract first.chunk) then
      .error (.valueError "embedded chunks do not share the production storage contract")
    else
      let kept := rows.filter fun row => !(row.workspaceId = workspaceId &&
        row.versionId = first.chunk.versionId && row.pipelineVersion = PIPELINE.version)
      let written := kept ++ records.map (documentChunk workspaceId)
      if ChunkKeys written then .ok written else .error .integrityError

/-- `delete_document`. -/
def deleteDocumentChunks (rows : List DocumentChunk) (workspaceId documentId : UUID) :
    List DocumentChunk :=
  rows.filter fun row => !(row.workspaceId = workspaceId && row.documentId = documentId)

/-- What a successful replacement leaves in the table. -/
theorem replaceVersion_ok {rows written : List DocumentChunk} {workspaceId : UUID}
    {records : List EmbeddedChunk} (replaced : replaceVersion rows workspaceId records = .ok written) :
    ∃ versionId documentId, records ≠ [] ∧
      (∀ record ∈ records, record.chunk.versionId = versionId ∧
        record.chunk.documentId = documentId) ∧
      ChunkKeys written ∧
      written = rows.filter (fun row => !(row.workspaceId = workspaceId &&
          row.versionId = versionId && row.pipelineVersion = PIPELINE.version)) ++
        records.map (documentChunk workspaceId) := by
  cases records with
  | nil => cases replaced
  | cons first rest =>
    rw [replaceVersion] at replaced
    split at replaced
    · cases replaced
    next contract =>
      dsimp only at replaced
      split at replaced
      next keys =>
        cases replaced
        refine ⟨first.chunk.versionId, first.chunk.documentId, by simp, ?_, keys, rfl⟩
        intro record member
        have kept : breaksContract first.chunk record = false := by
          by_contra breaks
          exact contract (List.any_eq_true.mpr ⟨record, member, by simpa using breaks⟩)
        simp only [breaksContract, Bool.or_eq_false_iff, decide_eq_false_iff_not, not_not] at kept
        exact ⟨kept.1.1.1, kept.1.1.2⟩
      · cases replaced

/-! ## Reading what was written -/

theorem storedLocator_asDict (int : Text → Except PyError Int) (locator : SourceLocator) :
    storedLocator int locator.asDict = .ok locator := by
  have valid := SourceLocator.new_of_valid locator
  cases page : locator.pageNumber with
  | none =>
    rw [page] at valid
    simpa [storedLocator, SourceLocator.asDict, locatorInteger, JsonScalar.toText, page,
      List.lookup_cons, bind, Except.bind, pure, Except.pure] using valid
  | some number =>
    rw [page] at valid
    simpa [storedLocator, SourceLocator.asDict, locatorInteger, JsonScalar.toText,
      JsonScalar.toInt, page, List.lookup_cons, bind, Except.bind] using valid

/-- Reading the row of a record gives its chunk, when the embedding text of the
chunk is its text. -/
theorem storedChunk_documentChunk (int : Text → Except PyError Int) (workspaceId : UUID)
    (record : EmbeddedChunk) (sameText : record.chunk.embeddingText = record.chunk.text) :
    storedChunk int (documentChunk workspaceId record) = .ok record.chunk := by
  have locators : (record.chunk.locators.map SourceLocator.asDict).mapM (storedLocator int) =
      .ok record.chunk.locators := by
    rw [mapM_eq_ok, List.forall₂_map_left_iff, List.forall₂_same]
    exact fun locator _ => storedLocator_asDict int locator
  have valid := Chunk.new_of_valid record.chunk
  rw [sameText] at valid
  rw [storedChunk, documentChunk, bind_eq_ok]
  exact ⟨_, locators, valid⟩

end SupportPilot.Rag
