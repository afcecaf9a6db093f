import Mathlib.Data.Char
import Mathlib.Data.List.Lex
import Mathlib.Data.Prod.Lex
import SupportPilot.Database.Models
import SupportPilot.Rag.Lexical

/-! # Hybrid retrieval

`ChunkRepository.search` of `packages/rag/repository.py`: the chunks of the active
versions are ranked by vector distance and by `BM25LexicalScorer`, and the two
rankings are fused.  The session runs in the context of the workspace, so row level
security hides the rows of the others from both queries.

`search_isolated` says that the rows outside the active scope of the workspace, and
what the scorer has seen before, have no influence. -/

namespace SupportPilot.Rag

open Lib FloatArithmetic

/-- How the database compares: `vector` is the conversion to the type of pgvector,
which rejects what is not finite, `cosineDistance` has the order of `float8`, and the
sort keys are those of the collation. -/
class Postgres where
  Vector : Type
  Distance : Type
  SortKey : Type
  distanceOrder : LinearOrder Distance
  sortKeyOrder : LinearOrder SortKey
  vector : List PyFloat → Except PyError Vector
  cosineDistance : List PyFloat → Vector → Distance
  sortKey : Text → SortKey
  sortKey_injective : Function.Injective sortKey

attribute [reducible, instance] Postgres.distanceOrder Postgres.sortKeyOrder

namespace PIPELINE

def denseCandidates : Nat := 20
def lexicalCandidates : Nat := 20
def rrfConstant : Nat := 60
def maximumResultCount : Nat := 10

end PIPELINE

/-- `_MAX_LEXICAL_CORPUS_CHUNKS`. -/
def maxLexicalCorpusChunks : Nat := 10000

/-- A state of the two tables, with their primary keys. -/
structure Snapshot where
  documents : List Document
  chunks : List DocumentChunk
  documents_keyed : Table.Keyed documents
  chunks_keyed : (chunks.map DocumentChunk.chunkId).Nodup

/-! ## The queries -/

/-- `_active_scope`. -/
def activeScope (workspaceId : UUID) (row : DocumentChunk) (document : Document) : Bool :=
  row.workspaceId = workspaceId && row.pipelineVersion = PIPELINE.version &&
    document.id = row.documentId && document.activeVersionId = some row.versionId &&
    document.deletedAt = none

/-- The policy of row level security: `current` is `app_current_workspace_id()`. -/
def visible (current : Option UUID) (workspaceId : UUID) : Bool := current = some workspaceId

/-- The join of the two tables, as the session sees them. -/
def selectActive (current : Option UUID) (snapshot : Snapshot) (workspaceId : UUID) :
    List DocumentChunk :=
  (snapshot.chunks.filter fun row => visible current row.workspaceId).flatMap fun row =>
    ((snapshot.documents.filter fun document => visible current document.workspaceId).filter
      (activeScope workspaceId row)).map fun _ => row

/-- The workspace has the document, it is not deleted, and this is its active version. -/
def HasActive (snapshot : Snapshot) (workspaceId documentId : UUID) (versionId : Option UUID) :
    Prop :=
  ∃ document ∈ snapshot.documents, document.workspaceId = workspaceId ∧
    document.id = documentId ∧ document.deletedAt = none ∧ document.activeVersionId = versionId

section Scope

variable {current : Option UUID} {snapshot : Snapshot} {workspaceId : UUID} {row : DocumentChunk}

theorem mem_selectActive :
    row ∈ selectActive current snapshot workspaceId ↔ current = some workspaceId ∧
      row ∈ snapshot.chunks ∧ row.workspaceId = workspaceId ∧
      row.pipelineVersion = PIPELINE.version ∧
      HasActive snapshot workspaceId row.documentId (some row.versionId) := by
  simp only [selectActive, activeScope, visible, HasActive, List.mem_flatMap, List.mem_filter,
    List.mem_map, Bool.and_eq_true, decide_eq_true_eq]
  constructor
  · intro joined
    obtain ⟨row, ⟨stored, seen⟩, document, ⟨⟨present, own⟩, scope⟩, rfl⟩ := joined
    obtain ⟨⟨⟨⟨workspace, pipeline⟩, id⟩, active⟩, undeleted⟩ := scope
    -- the session sees one workspace
    have owner : document.workspaceId = workspaceId := by
      rw [seen, Option.some.injEq] at own
      rw [← own, workspace]
    rw [workspace] at seen
    exact ⟨seen, stored, workspace, pipeline, document, present, owner, id, undeleted, active⟩
  · intro selected
    obtain ⟨seen, stored, workspace, pipeline, document, present, owner, id, undeleted, active⟩ :=
      selected
    have scope : (((row.workspaceId = workspaceId ∧ row.pipelineVersion = PIPELINE.version) ∧
        document.id = row.documentId) ∧ document.activeVersionId = some row.versionId) ∧
        document.deletedAt = none := ⟨⟨⟨⟨workspace, pipeline⟩, id⟩, active⟩, undeleted⟩
    rw [← workspace] at seen
    have own : current = some document.workspaceId := by rw [seen, workspace, owner]
    exact ⟨row, ⟨stored, seen⟩, document, ⟨⟨present, own⟩, scope⟩, rfl⟩

/-- A chunk is joined to at most one document. -/
theorem nodup_joined :
    (((snapshot.documents.filter fun document => visible current document.workspaceId).filter
      (activeScope workspaceId row)).map fun _ => row).Nodup := by
  have sublist : ((snapshot.documents.filter fun document =>
      visible current document.workspaceId).filter (activeScope workspaceId row)).Sublist
        snapshot.documents := List.filter_sublist.trans List.filter_sublist
  have distinct := snapshot.documents_keyed.sublist (sublist.map Row.key)
  have parent : ∀ document ∈ (snapshot.documents.filter fun document =>
      visible current document.workspaceId).filter (activeScope workspaceId row),
        document.id = row.documentId := by
    intro document member
    have selected := (List.mem_filter.mp member).2
    simp only [activeScope, Bool.and_eq_true, decide_eq_true_eq] at selected
    exact selected.1.1.2
  generalize (snapshot.documents.filter fun document => visible current document.workspaceId).filter
    (activeScope workspaceId row) = documents at distinct parent ⊢
  cases documents with
  | nil => exact List.nodup_nil
  | cons first rest =>
    cases rest with
    | nil => exact List.nodup_singleton row
    | cons second rest =>
      -- two documents would have one key
      have first_id := parent first (by simp)
      have second_id := parent second (by simp)
      simp [first_id, second_id] at distinct

theorem nodup_selectActive (current : Option UUID) (snapshot : Snapshot) (workspaceId : UUID) :
    (selectActive current snapshot workspaceId).Nodup := by
  apply List.nodup_flatMap.mpr
  constructor
  · exact fun row _ => nodup_joined
  · have distinct : (snapshot.chunks.filter fun row => visible current row.workspaceId).Nodup :=
      snapshot.chunks_keyed.of_map.filter _
    apply distinct.imp
    intro row other differs shared member member'
    obtain ⟨-, -, rfl⟩ := List.mem_map.mp member
    obtain ⟨-, -, rfl⟩ := List.mem_map.mp member'
    exact differs rfl

end Scope

section Queries

variable [Postgres]

/-- The sort key of the dense query. -/
def denseKey (queryEmbedding : Postgres.Vector) (row : DocumentChunk) :
    Postgres.Distance ×ₗ Postgres.SortKey :=
  toLex (Postgres.cosineDistance row.embedding queryEmbedding, Postgres.sortKey row.chunkId)

/-- `dense_records`. -/
def denseRecords (current : Option UUID) (snapshot : Snapshot) (workspaceId : UUID)
    (queryEmbedding : Postgres.Vector) : List DocumentChunk :=
  (Table.orderBy (denseKey queryEmbedding) (selectActive current snapshot workspaceId)).take
    PIPELINE.denseCandidates

/-- `lexical_records`. -/
def lexicalRecords (current : Option UUID) (snapshot : Snapshot) (workspaceId : UUID) :
    List DocumentChunk :=
  (Table.orderBy (fun row => Postgres.sortKey row.chunkId)
    (selectActive current snapshot workspaceId)).take (maxLexicalCorpusChunks + 1)

end Queries

/-! ## Search -/

/-- The rows that the two queries of `search` find, each in the state in which it runs,
as chunks. -/
def candidates [Postgres] (int : Text → Except PyError Int) (current : Option UUID)
    (dense lexical : Snapshot) (workspaceId : UUID) (query : Text) (queryEmbedding : List PyFloat)
    (resultCount : Int) : Except PyError (List Chunk × List Chunk) :=
  if strip query = [] then
    .error (.valueError "retrieval query cannot be empty")
  else if queryEmbedding.length ≠ PIPELINE.embeddingDimension then
    .error (.valueError "retrieval query embedding has the wrong dimension")
  else if ¬ (1 ≤ resultCount ∧ resultCount ≤ PIPELINE.maximumResultCount) then
    .error (.valueError "retrieval result count is outside the supported range")
  else do
    let vector ← Postgres.vector queryEmbedding
    let denseRecords := denseRecords current dense workspaceId vector
    let lexicalRecords := lexicalRecords current lexical workspaceId
    if maxLexicalCorpusChunks < lexicalRecords.length then
      .error (.runtimeError "workspace exceeds the bounded lexical retrieval limit")
    else
      let dense ← denseRecords.mapM (storedChunk int)
      let lexical ← lexicalRecords.mapM (storedChunk int)
      return (dense, lexical)

structure SearchResult (F : Type) where
  chunk : Chunk
  fusedScore : F
  denseRank : Option Nat
  lexicalRank : Option Nat

section Fusion

variable {F : Type} [FloatArithmetic F]

/-- `{chunk.chunk_id: rank for rank, chunk in enumerate(ranking, start=1)}`. -/
def ranks (ranking : List Chunk) : List (Text × Nat) :=
  Dict.ofPairs (ranking.zipIdx.map fun item => (item.1.chunkId, item.2 + 1))

/-- `score += 1 / (PIPELINE.rrf_constant + rank)`, where there is a rank. -/
def addReciprocal (score : F) : Option Nat → F
  | none => score
  | some rank => add score (div (float 1) (float (PIPELINE.rrfConstant + rank)))

/-- A round of the loop of `_fuse_rankings`. -/
def fused (dense lexical : List Chunk) (item : Text × Chunk) : SearchResult F :=
  let denseRank := Dict.get? (ranks dense) item.1
  let lexicalRank := Dict.get? (ranks lexical) item.1
  ⟨item.2, addReciprocal (addReciprocal (float 0) denseRank) lexicalRank, denseRank, lexicalRank⟩

/-- Sorting by `(-fused_score, chunk_id)`. -/
def fusedBefore (left right : SearchResult F) : Bool :=
  rankedBefore (left.fusedScore, left.chunk) (right.fusedScore, right.chunk)

/-- `_fuse_rankings`. -/
def fuseRankings (dense lexical : List Chunk) (resultCount : Nat) : List (SearchResult F) :=
  let chunks := Dict.ofPairs ((dense ++ lexical).map fun chunk => (chunk.chunkId, chunk))
  (sortedBy fusedBefore (chunks.map (fused dense lexical))).take resultCount

theorem mem_of_mem_fuseRankings {dense lexical : List Chunk} {resultCount : Nat}
    {result : SearchResult F} (member : result ∈ fuseRankings dense lexical resultCount) :
    result.chunk ∈ dense ∨ result.chunk ∈ lexical := by
  have taken := mem_sortedBy.1 (List.mem_of_mem_take member)
  obtain ⟨item, listed, rfl⟩ := List.mem_map.mp taken
  obtain ⟨chunk, ranked, rfl⟩ := List.mem_map.mp (Dict.mem_ofPairs listed)
  exact List.mem_append.mp ranked

variable [TermTables] [HashedSet Text] [HashedSet (Text × Text)] [Postgres]

/-- `ChunkRepository.search`.  The scorer is shared: its cache goes in and out. -/
def search (int : Text → Except PyError Int) (current : Option UUID) (dense lexical : Snapshot)
    (cache : PreparedCache F) (workspaceId : UUID) (query : Text) (queryEmbedding : List PyFloat)
    (resultCount : Int) : Except PyError (List (SearchResult F)) × PreparedCache F :=
  match candidates int current dense lexical workspaceId query queryEmbedding resultCount with
  | .error error => (.error error, cache)
  | .ok (dense, lexical) =>
    let (lexical, cache) := rank cache query lexical PIPELINE.lexicalCandidates
    (.ok (fuseRankings dense lexical resultCount.toNat), cache)

end Fusion

/-! ## Isolation -/

/-- The two states have the same undeleted documents of the workspace, with the same
active versions, and the same chunks of these versions. -/
structure Agree (workspaceId : UUID) (left right : Snapshot) : Prop where
  documents : ∀ documentId versionId,
    HasActive left workspaceId documentId versionId ↔
      HasActive right workspaceId documentId versionId
  chunks : ∀ row : DocumentChunk, row.workspaceId = workspaceId →
    row.pipelineVersion = PIPELINE.version →
    HasActive left workspaceId row.documentId (some row.versionId) →
    (row ∈ left.chunks ↔ row ∈ right.chunks)

/-- The chunk is a row of the workspace, of an undeleted document and its active version. -/
def Current (int : Text → Except PyError Int) (snapshot : Snapshot) (workspaceId : UUID)
    (chunk : Chunk) : Prop :=
  HasActive snapshot workspaceId chunk.documentId (some chunk.versionId) ∧
    ∃ row ∈ snapshot.chunks, row.workspaceId = workspaceId ∧
      row.documentId = chunk.documentId ∧ row.versionId = chunk.versionId ∧
      row.chunkId = chunk.chunkId ∧ storedChunk int row = .ok chunk

section Isolation

variable {current : Option UUID} {workspaceId : UUID} {left right : Snapshot}

/-- The join sees the same rows. -/
theorem mem_selectActive_congr (agree : Agree workspaceId left right) (row : DocumentChunk) :
    row ∈ selectActive current left workspaceId ↔ row ∈ selectActive current right workspaceId := by
  rw [mem_selectActive, mem_selectActive, ← agree.documents]
  constructor
  · intro selected
    obtain ⟨seen, stored, workspace, pipeline, active⟩ := selected
    exact ⟨seen, (agree.chunks row workspace pipeline active).mp stored, workspace, pipeline, active⟩
  · intro selected
    obtain ⟨seen, stored, workspace, pipeline, active⟩ := selected
    exact ⟨seen, (agree.chunks row workspace pipeline active).mpr stored, workspace, pipeline,
      active⟩

/-- Both queries order by the chunk id, and that tells the rows apart. -/
theorem eq_of_chunkId {row other : DocumentChunk}
    (member : row ∈ selectActive current left workspaceId)
    (member' : other ∈ selectActive current left workspaceId)
    (same : row.chunkId = other.chunkId) : row = other :=
  List.inj_on_of_nodup_map left.chunks_keyed (mem_selectActive.1 member).2.1
    (mem_selectActive.1 member').2.1 same

variable [Postgres]

theorem denseRecords_congr (current : Option UUID) (agree : Agree workspaceId left right)
    (vector : Postgres.Vector) :
    denseRecords current left workspaceId vector = denseRecords current right workspaceId vector := by
  rw [denseRecords, denseRecords]
  congr 1
  apply Table.orderBy_congr (nodup_selectActive current left workspaceId)
    (nodup_selectActive current right workspaceId) (mem_selectActive_congr agree)
  intro row member other member' same
  have sortKey : Postgres.sortKey row.chunkId = Postgres.sortKey other.chunkId :=
    congrArg (fun key => (ofLex key).2) same
  exact eq_of_chunkId member member' (Postgres.sortKey_injective sortKey)

theorem lexicalRecords_congr (current : Option UUID) (agree : Agree workspaceId left right) :
    lexicalRecords current left workspaceId = lexicalRecords current right workspaceId := by
  rw [lexicalRecords, lexicalRecords]
  congr 1
  apply Table.orderBy_congr (nodup_selectActive current left workspaceId)
    (nodup_selectActive current right workspaceId) (mem_selectActive_congr agree)
  intro row member other member' same
  exact eq_of_chunkId member member' (Postgres.sortKey_injective same)

variable {dense dense' lexical lexical' : Snapshot}

theorem candidates_congr (int : Text → Except PyError Int)
    (agreeDense : Agree workspaceId dense dense')
    (agreeLexical : Agree workspaceId lexical lexical') (query : Text)
    (queryEmbedding : List PyFloat) (resultCount : Int) :
    candidates int current dense lexical workspaceId query queryEmbedding resultCount =
      candidates int current dense' lexical' workspaceId query queryEmbedding resultCount := by
  have denseRecords := denseRecords_congr current agreeDense
  have lexicalRecords := lexicalRecords_congr current agreeLexical
  simp only [candidates, denseRecords, lexicalRecords]

omit [Postgres] in
/-- The chunks of rows that the join found. -/
theorem current_of_mapM (current : Option UUID) {int : Text → Except PyError Int}
    {rows : List DocumentChunk} {chunks : List Chunk}
    (selected : ∀ row ∈ rows, row ∈ selectActive current left workspaceId)
    (read : rows.mapM (storedChunk int) = .ok chunks) :
    ∀ chunk ∈ chunks, Current int left workspaceId chunk := by
  intro chunk member
  obtain ⟨row, present, stored⟩ := exists_of_mem_forall₂ (mapM_eq_ok.1 read) member
  obtain ⟨chunkId, documentId, versionId⟩ := storedChunk_ok int stored
  obtain ⟨-, inTable, workspace, -, active⟩ := mem_selectActive.1 (selected row present)
  rw [← documentId, ← versionId] at active
  exact ⟨active, row, inTable, workspace, documentId.symm, versionId.symm, chunkId.symm, stored⟩

theorem candidates_ok {int : Text → Except PyError Int} {query : Text}
    {queryEmbedding : List PyFloat} {resultCount : Int} {chunks : List Chunk × List Chunk}
    (found : candidates int current dense lexical workspaceId query queryEmbedding resultCount =
      .ok chunks) :
    (∀ chunk ∈ chunks.1, Current int dense workspaceId chunk) ∧
      ∀ chunk ∈ chunks.2, Current int lexical workspaceId chunk := by
  rw [candidates] at found
  split at found
  · cases found
  split at found
  · cases found
  split at found
  · cases found
  simp only [bind_eq_ok] at found
  obtain ⟨vector, -, found⟩ := found
  split at found
  · cases found
  simp only [bind_eq_ok, pure, Except.pure, Except.ok.injEq] at found
  obtain ⟨denseChunks, readDense, lexicalChunks, readLexical, rfl⟩ := found
  constructor
  · apply current_of_mapM current _ readDense
    intro row member
    exact Table.mem_orderBy.1 (List.mem_of_mem_take member)
  · apply current_of_mapM current _ readLexical
    intro row member
    exact Table.mem_orderBy.1 (List.mem_of_mem_take member)

variable {F : Type} [FloatArithmetic F] [TermTables] [HashedSet Text] [HashedSet (Text × Text)]

theorem search_fst (int : Text → Except PyError Int) (current : Option UUID)
    (dense lexical : Snapshot) (cache : PreparedCache F) (workspaceId : UUID) (query : Text)
    (queryEmbedding : List PyFloat) (resultCount : Int) :
    (search int current dense lexical cache workspaceId query queryEmbedding resultCount).1 =
      (candidates int current dense lexical workspaceId query queryEmbedding resultCount).map
        fun chunks => fuseRankings chunks.1
          (rank cache query chunks.2 PIPELINE.lexicalCandidates).1 resultCount.toNat := by
  rw [search]
  cases candidates int current dense lexical workspaceId query queryEmbedding resultCount with
  | error error => rfl
  | ok chunks => rfl

/-- States that agree on the active scope of the workspace give one answer, whatever the
scorer has prepared before, and the answer holds rows of that scope only. -/
theorem search_isolated (int : Text → Except PyError Int) (current : Option UUID)
    (agreeDense : Agree workspaceId dense dense') (agreeLexical : Agree workspaceId lexical lexical')
    (cache cache' : PreparedCache F) (query : Text) (queryEmbedding : List PyFloat)
    (resultCount : Int) :
    (search int current dense lexical cache workspaceId query queryEmbedding resultCount).1 =
        (search int current dense' lexical' cache' workspaceId query queryEmbedding resultCount).1 ∧
      ∀ results,
        (search int current dense lexical cache workspaceId query queryEmbedding resultCount).1 =
          .ok results →
        ∀ result ∈ results, Current int dense workspaceId result.chunk ∨
          Current int lexical workspaceId result.chunk := by
  constructor
  · rw [search_fst, search_fst, candidates_congr int agreeDense agreeLexical]
    -- the scorer answers alike from both caches
    simp only [rank_fst]
  · intro results found result member
    rw [search_fst] at found
    cases read : candidates int current dense lexical workspaceId query queryEmbedding
        resultCount with
    | error error =>
      rw [read] at found
      cases found
    | ok chunks =>
      rw [read] at found
      cases found
      have scope := candidates_ok read
      obtain inDense | ranked := mem_of_mem_fuseRankings member
      · exact .inl (scope.1 result.chunk inDense)
      · exact .inr (scope.2 result.chunk (mem_of_mem_rank ranked))

end Isolation

/-! ### One chunk -/

/-- The chunk `letter` of a document, in two terms. -/
def sampleRow (letter : Char) (workspaceId documentId versionId : UUID) : DocumentChunk where
  chunkId := List.replicate 64 letter
  workspaceId := workspaceId
  documentId := documentId
  versionId := versionId
  pipelineVersion := PIPELINE.version
  chunkOrder := 0
  originalText := "refund code".toList
  tokenCount := 2
  locators := [[("block_id", .str "b0".toList), ("block_index", .int 0), ("char_start", .int 0),
    ("char_end", .int 11), ("page_number", .null)]]
  headingPath := []
  pageNumber := none
  documentTitle := "Returns".toList
  embedding := List.replicate 384 (.finite 1)

def sampleDocument (id workspaceId versionId : UUID) (deletedAt : Option Nat) : Document :=
  ⟨id, workspaceId, "Returns".toList, some versionId, 3, deletedAt⟩

theorem sample_documents_keyed : Table.Keyed [sampleDocument 10 1 100 none] := by
  simp [Table.Keyed]

theorem sample_chunks_keyed : ([sampleRow 'a' 1 10 100].map DocumentChunk.chunkId).Nodup := by
  decide

/-- A workspace with one document. -/
def sampleAlone : Snapshot :=
  ⟨[sampleDocument 10 1 100 none], [sampleRow 'a' 1 10 100], sample_documents_keyed,
    sample_chunks_keyed⟩

def sampleCrowd : List DocumentChunk :=
  [sampleRow 'b' 2 20 200, sampleRow 'c' 1 11 110, sampleRow 'd' 1 10 99, sampleRow 'a' 1 10 100]

theorem sampleCrowd_documents_keyed : Table.Keyed [sampleDocument 20 2 200 none,
    sampleDocument 10 1 100 none, sampleDocument 11 1 110 (some 7)] := by
  simp [Table.Keyed, sampleDocument]

theorem sampleCrowd_chunks_keyed : (sampleCrowd.map DocumentChunk.chunkId).Nodup := by decide

/-- The same beside a foreign document, a deleted one and an old version. -/
def sampleCrowded : Snapshot :=
  ⟨[sampleDocument 20 2 200 none, sampleDocument 10 1 100 none, sampleDocument 11 1 110 (some 7)],
    sampleCrowd, sampleCrowd_documents_keyed, sampleCrowd_chunks_keyed⟩

theorem sample_agree : Agree 1 sampleAlone sampleCrowded where
  documents documentId versionId := by
    simp [HasActive, sampleAlone, sampleCrowded, sampleDocument]
  chunks row workspace pipeline active := by
    simp only [HasActive, sampleAlone, List.mem_singleton, exists_eq_left, sampleDocument] at active
    obtain ⟨-, documentId, -, versionId⟩ := active
    simp only [sampleAlone, sampleCrowded, sampleCrowd, List.mem_cons, List.not_mem_nil, or_false]
    constructor
    · intro same
      exact .inr (.inr (.inr same))
    · intro listed
      obtain rfl | rfl | rfl | rfl := listed
      · exact absurd workspace (by decide)
      · exact absurd documentId (by decide)
      · exact absurd versionId (by decide)
      · rfl

/-- Vectors at distance zero are the same ones. -/
@[reducible] def samplePostgres : Postgres where
  Vector := List PyFloat
  Distance := Nat
  SortKey := Text
  distanceOrder := inferInstance
  sortKeyOrder := inferInstance
  vector values := if values.all PyFloat.isFinite then .ok values else .error (.other 0)
  cosineDistance left right := if left = right then 0 else 1
  sortKey := id
  sortKey_injective := Function.injective_id

/-- `math.log(4 / 3)`. -/
def sampleLog (x : Rat) : Rat :=
  if x = roundDouble (4 / 3) then 5182419497180049 / 18014398509481984 else 0

/-- A search of the workspace for `refund`. -/
def sampleSearch (workspaceId : UUID) (snapshot : Snapshot)
    (cache : @PreparedCache asciiTerms Rat (doubles sampleLog)) :=
  @search Rat (doubles sampleLog) asciiTerms (listedSets Text) (listedSets (Text × Text))
    samplePostgres (fun _ => .error (.other 0)) (some workspaceId) snapshot snapshot cache workspaceId
    "refund".toList (List.replicate 384 (.finite 1)) 5

/-- The one chunk is first in both rankings. -/
def sampleFound (results : List (SearchResult Rat)) : Bool :=
  match results with
  | [result] => result.chunk.chunkId = List.replicate 64 'a' &&
      result.fusedScore = 4725088133634619 / 144115188075855872 &&
      result.denseRank = some 1 && result.lexicalRank = some 1
  | _ => false

/-- The crowded state answers as the other one, also after a search by the second
workspace. -/
theorem search_isolated_sample :
    let warm := (sampleSearch 2 sampleCrowded LruCache.empty).2
    warm.entries.length = 1 ∧
      (sampleSearch 1 sampleAlone LruCache.empty).1.toOption.any sampleFound = true ∧
      (sampleSearch 1 sampleAlone LruCache.empty).1 = (sampleSearch 1 sampleCrowded warm).1 :=
  ⟨by decide +kernel, by decide +kernel,
    (@search_isolated 1 samplePostgres sampleAlone sampleCrowded sampleAlone sampleCrowded Rat
      (doubles sampleLog) asciiTerms (listedSets Text) (listedSets (Text × Text))
      (fun _ => .error (.other 0)) (some 1) sample_agree sample_agree LruCache.empty
      (sampleSearch 2 sampleCrowded LruCache.empty).2 "refund".toList
      (List.replicate 384 (.finite 1)) 5).1⟩

end SupportPilot.Rag
