import SupportPilot.Database.Models
import SupportPilot.Documents.Filenames
import SupportPilot.Lib.Effect

/-! # Uploading a document version

`upload_document_version` of `packages/documents/service.py` over the database
and the object store of `packages/storage/local.py`.  The function is cut into
its stages, each with one statement or one call of the store that others can
see; `uploadDocumentVersion` is their sequence with the two exception handlers.

A fault makes one step of the run raise.  What is committed is in `db`; what the
session has added and not flushed is in the local variables. -/

namespace SupportPilot.Documents

open Lib

structure Settings where
  maxUploadBytes : Nat
  maxWorkspaceStorageBytes : Nat
  jobMaxAttempts : Nat
  jobMaxAttempts_pos : 1 ≤ jobMaxAttempts

/-- What the API passes on besides the request; `scan` gets the staged object
and its media type. -/
structure UploadService where
  settings : Settings
  scan : Bytes → Text → Except PyError Unit

/-- The arguments of a call, what `upload.read` returns, and the values that
`uuid4` and the clock of the database return on the way. -/
structure UploadCall where
  workspaceId : UUID
  userId : UUID
  filename : Option Text
  contentType : Option Text
  reads : List Bytes
  idempotencyKey : Text
  documentId : Option UUID
  displayName : Option Text
  stagingId : UUID
  newDocumentId : UUID
  versionId : UUID
  jobId : UUID
  now : Nat

structure UploadResult where
  document : Document
  version : DocumentVersion
  job : Job
  deriving DecidableEq

/-- The local variables `byte_size`, the input of `digest`, and `prefix`. -/
structure Received where
  byteSize : Nat
  hashed : Bytes
  prefixBytes : Bytes
  deriving DecidableEq

/-- `document`, whether it is new, and `version_number`. -/
structure Target where
  document : Document
  isNew : Bool
  versionNumber : Nat
  deriving DecidableEq

/-- What a run works on: the committed tables, the objects and `promoted_key`. -/
structure Session where
  db : Database
  objects : ObjectKey → Option Bytes
  promotedKey : Option ObjectKey

abbrev UploadM := EStateM PyError Session

/-- The places where something outside the function can raise; the reads and
writes of the stream are numbered. -/
inductive Step where
  | existing | openFile | read (chunk : Nat) | write (chunk : Nat) | flushFile | statStaging
  | scan | quota | document | versionNumber | duplicate | move | statFinal | flush | commit
  | setTenantContext | closeUpload
  deriving DecidableEq

abbrev Fault := Option (Step × PyError)

def attempt (fault : Fault) (step : Step) : UploadM Unit :=
  match fault with
  | some (failing, error) => if failing = step then throw error else pure ()
  | none => pure ()

/-! ## The object store -/

def fileExistsError : PyError := .other 17

def fileNotFoundError : PyError := .other 2

def putObject (key : ObjectKey) (content : Option Bytes) : UploadM Unit :=
  modify fun session => { session with objects := Function.update session.objects key content }

/-- `LocalObjectStore.delete`. -/
def deleteObject (key : ObjectKey) : UploadM Unit := putObject key none

section Stages

variable [UnicodeTables] [Sha256] (fault : Fault) (service : UploadService) (call : UploadCall)

namespace UploadCall

def key : Text := strip call.idempotencyKey

def safeFilename : Text := sanitizeFilename call.filename

def stagingKey : ObjectKey := .staging call.workspaceId call.stagingId

def finalKey (documentId : UUID) : ObjectKey :=
  .version call.workspaceId documentId call.versionId (safeFilename call)

/-- `(display_name or PurePath(safe_filename).stem or safe_filename).strip()[:255]`. -/
def resolvedName : Text :=
  let given := call.displayName.getD []
  let stem := pathStem (safeFilename call)
  (strip (if given ≠ [] then given else if stem ≠ [] then stem else safeFilename call)).take 255

def newDocument : Document where
  id := call.newDocumentId
  workspaceId := call.workspaceId
  displayName := resolvedName call
  activeVersionId := none
  createdBy := call.userId
  deletedAt := none

end UploadCall

/-! ## Stages -/

/-- `_existing_result`. -/
def existingResult (workspaceId : UUID) (idempotencyKey : Text) : UploadM (Option UploadResult) := do
  attempt fault .existing
  let db := (← get).db
  match db.jobOfKey workspaceId .processDocument idempotencyKey with
  | none => return none
  | some job =>
    match job.payload.documentId, job.payload.documentVersionId with
    | some documentId, some versionId =>
      match db.document? workspaceId documentId, db.version? workspaceId versionId with
      | some document, some version => return some ⟨document, version, job⟩
      | _, _ => throw (.conflict "existing idempotent job references missing document data")
    | _, _ => throw (.conflict "existing idempotent job has an incompatible payload")

/-- The loop of `chunks` together with the loop of `store.write` around it. -/
def writeChunks (key : ObjectKey) : Nat → List Bytes → Received → UploadM Received
  | chunkNumber, [], received => do
    attempt fault (.read chunkNumber)
    return received
  | chunkNumber, chunk :: reads, received => do
    attempt fault (.read chunkNumber)
    if chunk = [] then
      return received
    let byteSize := received.byteSize + chunk.length
    let limit := service.settings.maxUploadBytes
    if limit < byteSize then
      throw (.uploadTooLarge s!"upload exceeds the {limit}-byte limit")
    let hashed := received.hashed ++ chunk
    let prefixBytes := if received.prefixBytes.length < 8192 then
      received.prefixBytes ++ chunk.take (8192 - received.prefixBytes.length)
      else received.prefixBytes
    attempt fault (.write chunkNumber)
    modify fun session => { session with
      objects := Function.update session.objects key
        ((session.objects key).map (· ++ chunk)) }
    writeChunks key (chunkNumber + 1) reads ⟨byteSize, hashed, prefixBytes⟩

/-- `LocalObjectStore.write` of the chunks of the upload. -/
def writeObject (key : ObjectKey) : UploadM Received := do
  attempt fault .openFile
  if ((← get).objects key).isSome then
    throw fileExistsError
  putObject key (some [])
  let received ← tryCatch
    (do
      let received ← writeChunks fault service key 0 call.reads ⟨0, [], []⟩
      attempt fault .flushFile
      return received)
    fun error => do
      deleteObject key
      throw error
  attempt fault .statStaging
  return received

/-- Writing the staged object and the checks of its content; the result is what
was received and `media_type`. -/
def receiveUpload : UploadM (Received × Text) := do
  let received ← writeObject fault service call call.stagingKey
  if received.byteSize = 0 then
    throw (.uploadRejected "empty documents are not accepted")
  let mediaType ← ofExcept
    (validateMediaType call.safeFilename call.contentType received.prefixBytes)
  attempt fault .scan
  let staged := ((← get).objects call.stagingKey).getD []
  ofExcept (service.scan staged mediaType)
  return (received, mediaType)

/-- The quota check; the result is `used_bytes`. -/
def checkQuota (received : Received) : UploadM Nat := do
  attempt fault .quota
  let usedBytes := (← get).db.usedBytes call.workspaceId
  if service.settings.maxWorkspaceStorageBytes < usedBytes + received.byteSize then
    throw (.uploadTooLarge "workspace document storage quota would be exceeded")
  return usedBytes

/-- The new document, or the row of the given one, which is locked from here on. -/
def resolveDocument : UploadM (Document × Bool) := do
  match call.documentId with
  | none => return (call.newDocument, true)
  | some documentId =>
    attempt fault .document
    match (← get).db.document? call.workspaceId documentId with
    | some document =>
      if document.deletedAt = none then
        return (document, false)
      throw (.notFound "document not found")
    | none => throw (.notFound "document not found")

def nextVersionNumber (document : Document) (isNew : Bool) : UploadM Target := do
  if isNew then
    return ⟨document, true, 1⟩
  attempt fault .versionNumber
  return ⟨document, false, (← get).db.maxVersionNumber document.id + 1⟩

def checkDuplicate (received : Received) (target : Target) : UploadM Unit := do
  attempt fault .duplicate
  let sha256 := Sha256.hexdigest received.hashed
  if (← get).db.versions.any fun version => version.workspaceId = call.workspaceId &&
      version.documentId = target.document.id && version.sha256 = sha256 then
    throw (.conflict "this document already has a version with identical content")

/-- `store.move` and the assignment of `promoted_key`. -/
def promote (target : Target) : UploadM Unit := do
  attempt fault .move
  match (← get).objects call.stagingKey with
  | none => throw fileNotFoundError
  | some content =>
    putObject call.stagingKey none
    putObject (call.finalKey target.document.id) (some content)
  attempt fault .statFinal
  modify fun session => { session with promotedKey := some (call.finalKey target.document.id) }

/-- The version row that is inserted. -/
def newVersion (received : Received) (mediaType : Text) (target : Target) : DocumentVersion where
  id := call.versionId
  workspaceId := call.workspaceId
  documentId := target.document.id
  versionNumber := target.versionNumber
  objectKey := call.finalKey target.document.id
  originalFilename := call.safeFilename
  mediaType := mediaType
  byteSize := received.byteSize
  sha256 := Sha256.hexdigest received.hashed
  status := .queued
  createdBy := call.userId

def newJob (target : Target) : Job :=
  .new call.jobId call.workspaceId .processDocument
    ⟨some target.document.id, some call.versionId⟩ call.key service.settings.jobMaxAttempts call.now

/-- `session.flush` of the added rows. -/
def flushUpload (db : Database) (target : Target) (version : DocumentVersion) (job : Job) :
    Except PyError Database := do
  let db ← if target.isNew then db.insertDocument target.document else pure db
  let db ← db.insertVersion version
  db.insertJob job

/-- Flush and commit, with the inner handler. -/
def persist (received : Received) (mediaType : Text) (target : Target) :
    UploadM UploadResult := do
  let version := newVersion call received mediaType target
  let job := newJob service call target
  tryCatch
    (do
      attempt fault .flush
      let db ← ofExcept (flushUpload (← get).db target version job)
      attempt fault .commit
      modify fun session => { session with db := db })
    fun error => do
      deleteObject (call.finalKey target.document.id)
      modify fun session => { session with promotedKey := none }
      throw error
  return ⟨target.document, version, job⟩

def setTenantContext : UploadM Unit := attempt fault .setTenantContext

/-- The outer handlers. -/
def cleanUp {α : Type} (error : PyError) : UploadM α := do
  deleteObject call.stagingKey
  if error = .integrityError then
    throw (.conflict "document version or idempotency key already exists")
  match (← get).promotedKey with
  | none => throw error
  | some promotedKey =>
    deleteObject promotedKey
    throw error

/-! ## The whole function -/

/-- The body of the outer `try`. -/
def storeUpload : UploadM UploadResult := do
  let (received, mediaType) ← receiveUpload fault service call
  let _ ← checkQuota fault service call received
  let (document, isNew) ← resolveDocument fault call
  let target ← nextVersionNumber fault document isNew
  checkDuplicate fault call received target
  promote fault call target
  let result ← persist fault service call received mediaType target
  setTenantContext fault
  return result

/-- `finally: await upload.close()`. -/
def closingUpload {α : Type} (body : UploadM α) : UploadM α := do
  let result ← tryCatch body fun error => do
    attempt fault .closeUpload
    throw error
  attempt fault .closeUpload
  return result

def checkKey : UploadM Unit :=
  require (call.key ≠ [] ∧ call.key.length ≤ 255)
    (.uploadRejected "Idempotency-Key must contain 1 to 255 characters")

def uploadDocumentVersion : UploadM UploadResult := do
  checkKey call
  match ← existingResult fault call.workspaceId call.key with
  | some existing => return existing
  | none =>
    closingUpload fault (tryCatch (storeUpload fault service call) (cleanUp call))

end Stages

end SupportPilot.Documents
