import SupportPilot.Documents.Upload

/-! # Processing claimed jobs

The transactions of `apps/worker/main.py`, and the calls of the object store and
of the indexer between them.  `job` is the row as it was claimed; a transaction
runs for the workspace of the job.  The API's transactions on documents are those
of `apps/api/routes/documents.py`. -/

namespace SupportPilot

open Lib

/-! ## Updates -/

namespace Database

def setStatus (db : Database) (versionId : UUID) (status : DocumentVersionStatus) : Database :=
  { db with
    versions := Table.updateWhere (fun version => version.id = versionId)
      (fun version => { version with status := status }) db.versions }

def updateDocument (db : Database) (documentId : UUID) (write : Document → Document) : Database :=
  { db with
    documents := Table.updateWhere (fun document => document.id = documentId) write
      db.documents }

end Database

/-- `RAISE EXCEPTION` in a trigger. -/
def raiseException : PyError := .other 1

/-! ## The worker -/

namespace Worker

structure IndexRequest where
  content : Bytes
  documentId : UUID
  versionId : UUID
  title : Text
  mediaType : Text

/-- An `Indexer`; runs on the same request may differ, so they are numbered.
Its chunks are of the version they were asked for. -/
structure Indexer where
  indexContent : Nat → IndexRequest → Except PyError (List Rag.EmbeddedChunk)
  ids : ∀ {run request records}, indexContent run request = .ok records →
    ∀ record ∈ records, record.chunk.documentId = request.documentId ∧
      record.chunk.versionId = request.versionId

/-- What the reading transaction of `finish_document_job` finds. -/
structure Located where
  versionId : UUID
  documentId : UUID
  objectKey : ObjectKey
  expectedSize : Nat
  expectedSha256 : Text
  mediaType : Text
  documentTitle : Text

def payloadVersion (payload : Payload) : Except PyError UUID :=
  match payload.documentVersionId with
  | some versionId => .ok versionId
  | none => .error (.keyError "document_version_id")

def payloadDocument (payload : Payload) : Except PyError UUID :=
  match payload.documentId with
  | some documentId => .ok documentId
  | none => .error (.keyError "document_id")

def findVersion (db : Database) (workspaceId versionId : UUID) : Except PyError DocumentVersion :=
  match db.version? workspaceId versionId with
  | some version => .ok version
  | none => .error (.runtimeError "document version does not exist")

def findLiveDocument (db : Database) (workspaceId documentId : UUID) : Except PyError Document :=
  match (db.document? workspaceId documentId).filter fun document => document.deletedAt = none with
  | some document => .ok document
  | none => .error (.runtimeError "document is missing or deleted")

def beginProcessing (db : Database) (job : Job) (workerId : Text) (now : Nat) :
    Except PyError Database := do
  let (owned, jobs) ← Jobs.markProcessing db.jobs job.id workerId now
  let db := { db with jobs := jobs }
  if owned.jobType = .processDocument then
    let versionId ← payloadVersion owned.payload
    let version ← findVersion db job.workspaceId versionId
    return db.setStatus version.id .processing
  return db

/-! ### `finish_document_job` -/

/-- The reading transaction. -/
def locate (db : Database) (job : Job) : Except PyError Located := do
  let versionId ← payloadVersion job.payload
  let version ← findVersion db job.workspaceId versionId
  let document ← findLiveDocument db job.workspaceId version.documentId
  return { versionId := version.id, documentId := version.documentId, objectKey := version.objectKey,
           expectedSize := version.byteSize, expectedSha256 := version.sha256,
           mediaType := version.mediaType, documentTitle := document.displayName }

/-- `store.stat` and the check of the size. -/
def statObject (objects : ObjectKey → Option Bytes) (located : Located) : Except PyError Unit :=
  match objects located.objectKey with
  | none => .error Documents.fileNotFoundError
  | some content =>
    if content.length ≠ located.expectedSize then
      .error (.runtimeError "stored object size no longer matches document metadata")
    else .ok ()

/-- `store.read` and the checks of the content. -/
def readObject [Sha256] (settings : Documents.Settings) (objects : ObjectKey → Option Bytes)
    (located : Located) : Except PyError Bytes :=
  match objects located.objectKey with
  | none => .error Documents.fileNotFoundError
  | some content =>
    if settings.maxUploadBytes < content.length then
      .error (.runtimeError "stored object exceeds the configured upload limit")
    else if content.length ≠ located.expectedSize ∨
        Sha256.hexdigest content ≠ located.expectedSha256 then
      .error (.runtimeError "stored object digest no longer matches document metadata")
    else .ok content

def indexRequest (located : Located) (content : Bytes) : IndexRequest where
  content := content
  documentId := located.documentId
  versionId := located.versionId
  title := located.documentTitle
  mediaType := located.mediaType

/-- The first two statements of the writing transaction, which lock the version
and its document. -/
def lockVersion (db : Database) (job : Job) (located : Located) : Except PyError UUID := do
  let version ← findVersion db job.workspaceId located.versionId
  let document ← findLiveDocument db job.workspaceId version.documentId
  return document.id

/-- The rest of the writing transaction. -/
def activate (db : Database) (job : Job) (workerId : Text) (now : Nat)
    (located : Located) (documentId : UUID) (records : List Rag.EmbeddedChunk) :
    Except PyError Database := do
  let chunks ← Rag.replaceVersion db.chunks job.workspaceId records
  if !records.all fun record => db.chunkScopeValid (Rag.documentChunk job.workspaceId record) then
    throw raiseException
  let db := { db with chunks := chunks }.setStatus located.versionId .active
  let db := db.updateDocument documentId fun document =>
    { document with activeVersionId := some located.versionId }
  if !db.documents.all fun document => document.id ≠ documentId || db.activeVersionValid document then
    throw raiseException
  let (_, jobs) ← Jobs.markCompleted db.jobs job.id workerId now
  return { db with jobs := jobs }

/-! ### `finish_delete_job` -/

/-- The reading transaction: the keys of all versions. -/
def deleteKeys (db : Database) (job : Job) : Except PyError (List ObjectKey) := do
  let documentId ← payloadDocument job.payload
  return (db.versions.filter fun version => version.workspaceId = job.workspaceId &&
    version.documentId = documentId).map DocumentVersion.objectKey

/-- The writing transaction. -/
def finishDelete (db : Database) (job : Job) (workerId : Text) (now : Nat) :
    Except PyError Database := do
  let documentId ← payloadDocument job.payload
  let (_, jobs) ← Jobs.markCompleted db.jobs job.id workerId now
  return { db with
    chunks := Rag.deleteDocumentChunks db.chunks job.workspaceId documentId
    jobs := jobs }

/-! ### `fail_job` -/

def failJob (db : Database) (job : Job) (workerId errorMessage : Text) (randbelow : Nat → Nat)
    (now later : Nat) : Except PyError Database := do
  let (failed, jobs) ← Jobs.markFailed db.jobs job.id workerId "processing_failed".toList
    errorMessage true randbelow now later
  let db := { db with jobs := jobs }
  if failed.jobType = .processDocument then
    let versionId ← payloadVersion failed.payload
    match db.version? job.workspaceId versionId with
    | none => return db
    | some version =>
      return db.setStatus version.id
        (if failed.state ∈ [JobState.failed, .deadLetter] then .failed else .queued)
  return db

end Worker

/-! ## The API -/

namespace Documents

/-- The `SELECT` of `update_document` and, with a lock, of `delete_document`. -/
def selectLive (db : Database) (workspaceId documentId : UUID) : Except PyError Document :=
  match (db.document? workspaceId documentId).filter fun document => document.deletedAt = none with
  | some document => .ok document
  | none => .error (.notFound "document not found")

/-- The rest of `update_document`. -/
def renameDocument (db : Database) (documentId : UUID) (displayName : Text) :
    Except PyError Database :=
  if displayName = [] then .error .integrityError
  else .ok (db.updateDocument documentId fun document =>
    { document with displayName := displayName })

/-- `f"delete:{document.id}"`. -/
def deleteKey (documentId : UUID) : Text := "delete:".toList ++ (toString documentId).toList

/-- The rest of `delete_document`; `max_attempts` is the default of the column. -/
def deleteDocument (db : Database) (workspaceId documentId jobId : UUID) (now : Nat) :
    Except PyError Database :=
  (db.updateDocument documentId fun document =>
    { document with deletedAt := some now, activeVersionId := none }).insertJob
      (.new jobId workspaceId .deleteObject ⟨some documentId, none⟩ (deleteKey documentId) 5 now)

def retryDocumentJob (db : Database) (workspaceId jobId : UUID) (now : Nat) :
    Except PyError Database := do
  let (_, jobs) ← Jobs.retryJob db.jobs jobId workspaceId now
  return { db with jobs := jobs }

end Documents

end SupportPilot
