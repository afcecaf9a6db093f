import SupportPilot.Jobs.Queue
import SupportPilot.Rag.Repository

/-! # The tables of the document lifecycle

`documents`, `document_versions`, `jobs` and `document_chunks` of
`packages/database/models.py`, with the constraints and triggers of the
migrations.  Users and workspaces are rows nobody here writes, so the foreign
keys to them are left out.  A statement runs for one workspace, and row level
security hides the rows of the others. -/

namespace SupportPilot

open Lib

/-- `hashlib.sha256(…).hexdigest()`. -/
class Sha256 where
  hexdigest : Bytes → Text
  length_hexdigest : ∀ content, (hexdigest content).length = 64

theorem Sha256.ext {first second : Sha256} (same : first.hexdigest = second.hexdigest) :
    first = second := by
  cases first
  cases second
  cases same
  rfl

/-- The digests of one letter, as the samples below use it. -/
@[reducible] def letterSha256 : Sha256 where
  hexdigest content :=
    if content = [0x61] then
      "ca978112ca1bbdcafac231b39a23dc4da786eff8147c4e72b9807785afee48bb".toList
    else if content = [0x62] then
      "3e23e8160039594a33894f6564e1b1348bbd7a0088d42c4acb73eeaed59c009d".toList
    else List.replicate 64 '0'
  length_hexdigest content := by
    split
    · rw [String.toList_ofList]
      rfl
    · split
      · rw [String.toList_ofList]
        rfl
      · exact List.length_replicate

/-- The same digests from numbers.  To decode a string, the kernel first builds its bytes. -/
def letterDigest (content : Bytes) : Text :=
  if content = [0x61] then
    Nat.toDigits 16 0xca978112ca1bbdcafac231b39a23dc4da786eff8147c4e72b9807785afee48bb
  else if content = [0x62] then
    Nat.toDigits 16 0x3e23e8160039594a33894f6564e1b1348bbd7a0088d42c4acb73eeaed59c009d
  else List.replicate 64 '0'

theorem hexdigest_letterSha256 (content : Bytes) :
    letterSha256.hexdigest content = letterDigest content := by
  refine if_congr Iff.rfl ?_ (if_congr Iff.rfl ?_ rfl)
  · rw [String.toList_ofList]
    decide
  · rw [String.toList_ofList]
    decide

theorem letterSha256_eq : letterSha256 = ⟨letterDigest, fun content =>
    hexdigest_letterSha256 content ▸ letterSha256.length_hexdigest content⟩ :=
  Sha256.ext (funext hexdigest_letterSha256)

/-- The keys that `upload_document_version` builds for the object store. -/
inductive ObjectKey where
  | staging (workspaceId id : UUID)
  | version (workspaceId documentId versionId : UUID) (filename : Text)
  deriving DecidableEq

structure Document where
  id : UUID
  workspaceId : UUID
  displayName : Text
  activeVersionId : Option UUID
  createdBy : UUID
  deletedAt : Option Nat
  deriving DecidableEq

structure DocumentVersion where
  id : UUID
  workspaceId : UUID
  documentId : UUID
  versionNumber : Nat
  objectKey : ObjectKey
  originalFilename : Text
  mediaType : Text
  byteSize : Nat
  sha256 : Text
  status : DocumentVersionStatus
  createdBy : UUID
  deriving DecidableEq

instance : Row Document UUID := ⟨Document.id⟩

instance : Row DocumentVersion UUID := ⟨DocumentVersion.id⟩

@[simp] theorem Document.row_key (document : Document) : Row.key document = document.id := rfl

@[simp] theorem DocumentVersion.row_key (version : DocumentVersion) :
    Row.key version = version.id := rfl

structure Database where
  documents : List Document
  versions : List DocumentVersion
  jobs : List Job
  chunks : List Rag.DocumentChunk
  deriving DecidableEq

namespace Database

def empty : Database := ⟨[], [], [], []⟩

variable (db : Database) (workspaceId : UUID)

/-! ## Rows a workspace sees -/

def document? (id : UUID) : Option Document :=
  (Table.lookup db.documents id).filter fun document => document.workspaceId = workspaceId

def version? (id : UUID) : Option DocumentVersion :=
  (Table.lookup db.versions id).filter fun version => version.workspaceId = workspaceId

/-- The versions of a document. -/
def versionsOf (documentId : UUID) : List DocumentVersion :=
  db.versions.filter fun version => version.documentId = documentId

/-- `COALESCE(SUM(byte_size), 0)` over the versions of the workspace. -/
def usedBytes : Nat :=
  ((db.versions.filter fun version => version.workspaceId = workspaceId).map
    DocumentVersion.byteSize).sum

/-- `COALESCE(MAX(version_number), 0)` over the versions of the document. -/
def maxVersionNumber (documentId : UUID) : Nat :=
  ((db.versionsOf documentId).map DocumentVersion.versionNumber).foldl max 0

/-- The job of an idempotency key, which is unique. -/
def jobOfKey (jobType : JobType) (idempotencyKey : Text) : Option Job :=
  db.jobs.find? fun job => job.workspaceId = workspaceId && job.jobType = jobType &&
    job.idempotencyKey = idempotencyKey

/-! ## Inserting -/

def insertDocument (document : Document) : Except PyError Database :=
  if (Table.lookup db.documents document.id).isSome ∨ document.displayName = [] then
    .error .integrityError
  else
    .ok { db with documents := db.documents ++ [document] }

/-- The primary and foreign keys, the unique constraints and the checks of
`document_versions`. -/
def insertVersion (version : DocumentVersion) : Except PyError Database :=
  if (Table.lookup db.versions version.id).isSome ∨
      Table.lookup db.documents version.documentId = none ∨
      (db.versions.any fun row => row.documentId = version.documentId &&
        row.versionNumber = version.versionNumber) ∨
      (db.versions.any fun row => row.workspaceId = version.workspaceId &&
        row.documentId = version.documentId && row.sha256 = version.sha256) ∨
      (db.versions.any fun row => row.objectKey = version.objectKey) ∨
      version.versionNumber = 0 ∨ version.sha256.length ≠ 64 then
    .error .integrityError
  else
    .ok { db with versions := db.versions ++ [version] }

def insertJob (job : Job) : Except PyError Database := do
  let (_, jobs) ← Jobs.insertJob db.jobs job
  return { db with jobs := jobs }

/-! ## Triggers -/

/-- `validate_active_document_version`. -/
def activeVersionValid (document : Document) : Bool :=
  document.activeVersionId.all fun id => db.versions.any fun version => version.id = id &&
    version.documentId = document.id && version.workspaceId = document.workspaceId &&
    version.status = .active

/-- `validate_document_chunk_scope`. -/
def chunkScopeValid (chunk : Rag.DocumentChunk) : Bool :=
  db.versions.any fun version => version.id = chunk.versionId &&
    version.documentId = chunk.documentId && version.workspaceId = chunk.workspaceId &&
    db.documents.any fun document => document.id = version.documentId &&
      document.workspaceId = chunk.workspaceId

/-! ## What the constraints let through -/

variable {db} {db' : Database}

/-- The row may be inserted into `document_versions`. -/
structure VersionFits (db : Database) (version : DocumentVersion) : Prop where
  id : Table.lookup db.versions version.id = none
  document : Table.lookup db.documents version.documentId ≠ none
  number : ∀ row ∈ db.versions, row.documentId = version.documentId →
    row.versionNumber ≠ version.versionNumber
  content : ∀ row ∈ db.versions, row.workspaceId = version.workspaceId →
    row.documentId = version.documentId → row.sha256 ≠ version.sha256
  objectKey : ∀ row ∈ db.versions, row.objectKey ≠ version.objectKey
  positive : version.versionNumber ≠ 0
  sha256 : version.sha256.length = 64

/-- The row may be inserted into `jobs`. -/
structure JobFits (jobs : List Job) (job : Job) : Prop where
  id : Table.lookup jobs job.id = none
  maxAttempts : job.maxAttempts ≠ 0
  key : ∀ row ∈ jobs, row.workspaceId = job.workspaceId → row.jobType = job.jobType →
    row.idempotencyKey ≠ job.idempotencyKey

theorem jobs_insertJob_ok {jobs : List Job} {job : Job} {written : Job × List Job} :
    Jobs.insertJob jobs job = .ok written ↔ JobFits jobs job ∧ written = (job, jobs ++ [job]) := by
  rw [Jobs.insertJob]
  split
  next rejected =>
    simp only [reduceCtorEq, false_iff]
    rintro ⟨fits, -⟩
    obtain taken | zero | key := rejected
    · simp [fits.id] at taken
    · exact fits.maxAttempts zero
    · obtain ⟨row, member, same⟩ := List.any_eq_true.mp key
      simp only [Bool.and_eq_true, decide_eq_true_eq] at same
      exact fits.key row member same.1.1 same.1.2 same.2
  next passed =>
    simp only [not_or, Option.not_isSome_iff_eq_none, List.any_eq_true, not_exists, not_and,
      Bool.and_eq_true, decide_eq_true_eq] at passed
    obtain ⟨id, maxAttempts, key⟩ := passed
    have fits : JobFits jobs job :=
      ⟨id, maxAttempts, fun row member workspace jobType => key row member ⟨workspace, jobType⟩⟩
    simp [fits, eq_comm]

theorem insertDocument_ok {document : Document} :
    db.insertDocument document = .ok db' ↔
      (Table.lookup db.documents document.id = none ∧ document.displayName ≠ []) ∧
        db' = { db with documents := db.documents ++ [document] } := by
  rw [insertDocument]
  split
  next rejected =>
    simp only [reduceCtorEq, false_iff]
    rintro ⟨⟨absent, named⟩, -⟩
    simp [absent, named] at rejected
  next fits =>
    rw [not_or, Option.not_isSome_iff_eq_none] at fits
    simp [fits, eq_comm]

theorem insertVersion_ok {version : DocumentVersion} :
    db.insertVersion version = .ok db' ↔ VersionFits db version ∧
      db' = { db with versions := db.versions ++ [version] } := by
  rw [insertVersion]
  split
  next rejected =>
    simp only [reduceCtorEq, false_iff]
    rintro ⟨fits, -⟩
    -- each constraint that fails is one that a row that fits meets
    obtain taken | orphan | number | content | objectKey | zero | short := rejected
    · simp [fits.id] at taken
    · exact fits.document orphan
    · obtain ⟨row, member, same⟩ := List.any_eq_true.mp number
      simp only [Bool.and_eq_true, decide_eq_true_eq] at same
      exact fits.number row member same.1 same.2
    · obtain ⟨row, member, same⟩ := List.any_eq_true.mp content
      simp only [Bool.and_eq_true, decide_eq_true_eq] at same
      exact fits.content row member same.1.1 same.1.2 same.2
    · obtain ⟨row, member, same⟩ := List.any_eq_true.mp objectKey
      exact fits.objectKey row member (of_decide_eq_true same)
    · exact fits.positive zero
    · exact short fits.sha256
  next passed =>
    simp only [not_or, Option.not_isSome_iff_eq_none, not_not, List.any_eq_true, not_exists,
      not_and, Bool.and_eq_true, decide_eq_true_eq] at passed
    obtain ⟨id, document, number, content, objectKey, positive, sha256⟩ := passed
    have fits : VersionFits db version := by
      refine ⟨id, document, fun row member same => number row member same, ?_, objectKey, positive,
        sha256⟩
      exact fun row member workspace document => content row member ⟨workspace, document⟩
    simp [fits, eq_comm]

theorem insertJob_ok {job : Job} :
    db.insertJob job = .ok db' ↔ JobFits db.jobs job ∧
      db' = { db with jobs := db.jobs ++ [job] } := by
  simp only [insertJob, bind_eq_ok, jobs_insertJob_ok, pure, Except.pure, Except.ok.injEq]
  constructor
  · rintro ⟨written, ⟨fits, rfl⟩, rfl⟩
    exact ⟨fits, rfl⟩
  · rintro ⟨fits, rfl⟩
    exact ⟨_, ⟨fits, rfl⟩, rfl⟩

end Database

end SupportPilot
