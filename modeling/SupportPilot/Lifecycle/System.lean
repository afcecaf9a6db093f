import SupportPilot.Documents.AllOrNothing
import SupportPilot.Lib.Fallible
import SupportPilot.Lib.Transition
import SupportPilot.Worker.Main

/-! # The document lifecycle as a transition system

Any number of API requests and claimed jobs run in any order over the tables and
the object store.  A request or a job is a process; a step of it is one statement
that others can see, one call of the store, or the rest of a transaction, which
takes effect when it commits.  A process may stop for good after any step.

A row of `documents` that a process has selected `FOR UPDATE` is `locked` until
its transaction ends, and others that need the lock wait.  Identifiers come from
`uuid4`, which does not repeat itself.  Clock readings are arguments of the
steps: no result of this part depends on their order. -/

namespace SupportPilot.Lifecycle

open Lib Documents Worker

/-- What the API and the workers are started with. -/
structure Environment where
  service : UploadService
  indexer : Indexer

/-- What the processes share. -/
structure Stores where
  db : Database
  objects : ObjectKey → Option Bytes

/-! ## Processes -/

/-- A received file, with its media type and the `used_bytes` it was checked against. -/
structure CheckedFile where
  received : Received
  mediaType : Text
  usedBytes : Nat

/-- Where a call of `upload_document_version` is, with its local variables. -/
inductive UploadPhase where
  | start
  | receiving
  | received (received : Received) (mediaType : Text)
  | admitted (file : CheckedFile)
  | resolved (file : CheckedFile) (document : Document) (isNew : Bool)
  | numbered (file : CheckedFile) (target : Target)
  | distinct (file : CheckedFile) (target : Target)
  | promoted (file : CheckedFile) (target : Target)
  | persisted (result : UploadResult)
  | failing (error : PyError)
  | returned (result : UploadResult)
  | raised (error : PyError)

structure Upload where
  call : UploadCall
  promotedKey : Option ObjectKey
  phase : UploadPhase

/-- Where a worker is with a claimed job. -/
inductive TaskPhase where
  | claimed
  | begun
  | located (located : Located)
  | statted (located : Located)
  | loaded (located : Located) (content : Bytes)
  | indexed (located : Located) (content : Bytes) (records : List Rag.EmbeddedChunk)
  | locked (located : Located) (content : Bytes) (records : List Rag.EmbeddedChunk)
      (documentId : UUID)
  | deleting (keys : List ObjectKey)
  | failing
  | done

structure Task where
  job : Job
  worker : Jobs.WorkerId
  phase : TaskPhase

inductive RequestPhase where
  | start
  | selected (documentId : UUID)
  | done
  | raised

/-- A call of `delete_document`. -/
structure Deletion where
  workspaceId : UUID
  documentId : UUID
  jobId : UUID
  phase : RequestPhase

/-- A call of `update_document`. -/
structure Update where
  workspaceId : UUID
  documentId : UUID
  displayName : Text
  phase : RequestPhase

inductive Process where
  | ofUpload (upload : Upload)
  | ofTask (task : Task)
  | ofDeletion (deletion : Deletion)
  | ofUpdate (update : Update)
  | crashed

/-- The document whose row the process has locked. -/
def UploadPhase.holds : UploadPhase → Option UUID
  | resolved _ document isNew => if isNew then none else some document.id
  | numbered _ target | distinct _ target | promoted _ target =>
    if target.isNew then none else some target.document.id
  | _ => none

def TaskPhase.holds : TaskPhase → Option UUID
  | locked _ _ _ documentId => some documentId
  | _ => none

def RequestPhase.holds : RequestPhase → Option UUID
  | selected documentId => some documentId
  | _ => none

def Process.holds : Process → Option UUID
  | .ofUpload upload => upload.phase.holds
  | .ofTask task => task.phase.holds
  | .ofDeletion deletion => deletion.phase.holds
  | _ => none

/-- The identifiers that `uuid4` returned to the process. -/
def Process.drawn : Process → List UUID
  | .ofUpload upload => [upload.call.stagingId, upload.call.newDocumentId, upload.call.versionId,
      upload.call.jobId]
  | .ofDeletion deletion => [deletion.jobId]
  | _ => []

structure System where
  stores : Stores
  processes : List Process
  drawn : List UUID

def System.empty : System := ⟨⟨.empty, fun _ => none⟩, [], []⟩

/-! ## Steps of the processes -/

/-- What the clock, `secrets` and the indexer return, and the text of an
exception. -/
structure Input where
  now : Nat
  later : Nat
  randbelow : Nat → Nat
  run : Nat
  message : Text

section Steps

variable [UnicodeTables] [Sha256] (env : Environment)

/-- Run one stage of an upload. -/
def Upload.runStage {α : Type} (upload : Upload) (stores : Stores) (stage : UploadM α)
    (returned : α → UploadPhase) (raised : PyError → UploadPhase) : Upload × Stores :=
  match stage ⟨stores.db, stores.objects, upload.promotedKey⟩ with
  | .ok a session =>
    (⟨upload.call, session.promotedKey, returned a⟩, ⟨session.db, session.objects⟩)
  | .error error session =>
    (⟨upload.call, session.promotedKey, raised error⟩, ⟨session.db, session.objects⟩)

/-- The check of the key and the lookup of an earlier result. -/
def startUpload (call : UploadCall) : UploadM (Option UploadResult) := do
  checkKey call
  existingResult none call.workspaceId call.key

/-- The next stage of the call; none of its steps is made to raise. -/
def Upload.advance (upload : Upload) (stores : Stores) : Option (Upload × Stores) :=
  let call := upload.call
  match upload.phase with
  | .start => some <| upload.runStage stores (startUpload call)
      (fun | some result => .returned result | none => .receiving) .raised
  | .receiving => some <| upload.runStage stores (receiveUpload none env.service call)
      (fun file => .received file.1 file.2) .failing
  | .received received mediaType => some <|
      upload.runStage stores (checkQuota none env.service call received)
        (fun usedBytes => .admitted ⟨received, mediaType, usedBytes⟩) .failing
  | .admitted file => some <| upload.runStage stores (resolveDocument none call)
      (fun found => .resolved file found.1 found.2) .failing
  | .resolved file document isNew => some <|
      upload.runStage stores (nextVersionNumber none document isNew) (.numbered file) .failing
  | .numbered file target => some <|
      upload.runStage stores (checkDuplicate none call file.received target)
        (fun _ => .distinct file target) .failing
  | .distinct file target => some <| upload.runStage stores (promote none call target)
      (fun _ => .promoted file target) .failing
  | .promoted file target => some <|
      upload.runStage stores (persist none env.service call file.received file.mediaType target)
        .persisted .failing
  | .persisted result => some <| upload.runStage stores (setTenantContext none)
      (fun _ => .returned result) .failing
  | .failing error => some <| upload.runStage stores (cleanUp call error : UploadM UploadResult)
      .returned .raised
  | .returned _ | .raised _ => none

/-- Continue with what a computation returns, or fail. -/
def Task.orFail {α : Type} (task : Task) (stores : Stores) (result : Except PyError α)
    (next : α → TaskPhase × Stores) : Task × Stores :=
  match result with
  | .ok a => ({ task with phase := (next a).1 }, (next a).2)
  | .error _ => ({ task with phase := .failing }, stores)

def Task.advance (task : Task) (stores : Stores) (input : Input) : Option (Task × Stores) :=
  let job := task.job
  let workerId := task.worker.name
  match task.phase with
  | .claimed => some <| task.orFail stores (beginProcessing stores.db job workerId input.now)
      fun db => (.begun, ⟨db, stores.objects⟩)
  | .begun =>
    match job.jobType with
    | .processDocument => some <| task.orFail stores (locate stores.db job)
        fun located => (.located located, stores)
    | .deleteObject => some <| task.orFail stores (deleteKeys stores.db job)
        fun keys => (.deleting keys, stores)
  | .located located => some <| task.orFail stores (statObject stores.objects located)
      fun _ => (.statted located, stores)
  | .statted located => some <|
      task.orFail stores (readObject env.service.settings stores.objects located)
        fun content => (.loaded located content, stores)
  | .loaded located content => some <|
      task.orFail stores (env.indexer.indexContent input.run (indexRequest located content))
        fun records => (.indexed located content records, stores)
  | .indexed located content records => some <|
      task.orFail stores (lockVersion stores.db job located)
        fun documentId => (.locked located content records documentId, stores)
  | .locked located _ records documentId => some <|
      task.orFail stores (activate stores.db job workerId input.now located documentId records)
        fun db => (.done, ⟨db, stores.objects⟩)
  | .deleting [] => some <| task.orFail stores (finishDelete stores.db job workerId input.now)
      fun db => (.done, ⟨db, stores.objects⟩)
  | .deleting (key :: keys) => some ({ task with phase := .deleting keys },
      ⟨stores.db, Function.update stores.objects key none⟩)
  | .failing =>
    match failJob stores.db job workerId input.message input.randbelow input.now input.later with
    | .ok db => some ({ task with phase := .done }, ⟨db, stores.objects⟩)
    | .error _ => some ({ task with phase := .done }, stores)
  | .done => none

def Deletion.advance (deletion : Deletion) (stores : Stores) (input : Input) :
    Option (Deletion × Stores) :=
  match deletion.phase with
  | .start =>
    match selectLive stores.db deletion.workspaceId deletion.documentId with
    | .ok document => some ({ deletion with phase := .selected document.id }, stores)
    | .error _ => some ({ deletion with phase := .raised }, stores)
  | .selected documentId =>
    match deleteDocument stores.db deletion.workspaceId documentId deletion.jobId input.now with
    | .ok db => some ({ deletion with phase := .done }, ⟨db, stores.objects⟩)
    | .error _ => some ({ deletion with phase := .raised }, stores)
  | .done | .raised => none

def Update.advance (update : Update) (stores : Stores) : Option (Update × Stores) :=
  match update.phase with
  | .start =>
    match selectLive stores.db update.workspaceId update.documentId with
    | .ok document => some ({ update with phase := .selected document.id }, stores)
    | .error _ => some ({ update with phase := .raised }, stores)
  | .selected documentId =>
    match renameDocument stores.db documentId update.displayName with
    | .ok db => some ({ update with phase := .done }, ⟨db, stores.objects⟩)
    | .error _ => some ({ update with phase := .raised }, stores)
  | .done | .raised => none

def Process.advance (process : Process) (stores : Stores) (input : Input) :
    Option (Process × Stores) :=
  match process with
  | .ofUpload upload => (upload.advance env stores).map fun next => (.ofUpload next.1, next.2)
  | .ofTask task => (task.advance env stores input).map fun next => (.ofTask next.1, next.2)
  | .ofDeletion deletion =>
    (deletion.advance stores input).map fun next => (.ofDeletion next.1, next.2)
  | .ofUpdate update => (update.advance stores).map fun next => (.ofUpdate next.1, next.2)
  | .crashed => none

/-- The document whose row lock the next step of the process needs. -/
def Process.wants (process : Process) (db : Database) : Option UUID :=
  match process with
  | .ofUpload upload =>
    match upload.phase with
    | .admitted _ => (upload.call.resolved db).bind fun found =>
        if found.2 then none else some found.1.id
    | _ => none
  | .ofTask task =>
    match task.phase with
    | .indexed located _ _ => (db.version? task.job.workspaceId located.versionId).map
        DocumentVersion.documentId
    | _ => none
  | .ofDeletion deletion =>
    match deletion.phase with
    | .start => (selectLive db deletion.workspaceId deletion.documentId).toOption.map Document.id
    | _ => none
  | .ofUpdate update =>
    match update.phase with
    | .selected documentId => some documentId
    | _ => none
  | .crashed => none

/-! ## Events -/

inductive Event where
  | upload (call : UploadCall)
  | deleteDocument (workspaceId documentId jobId : UUID)
  | updateDocument (workspaceId documentId : UUID) (displayName : Text)
  | claimJobs (worker : Jobs.WorkerId) (batchSize leaseSeconds now : Nat) (locked : List UUID)
  | advance (i : Nat) (input : Input)
  /-- The lease renewal that runs next to the indexer. -/
  | renewLease (i : Nat) (leaseSeconds now later : Nat)
  /-- An exception in a task that is not raised by one of the steps above. -/
  | interrupt (i : Nat)
  | crash (i : Nat)
  | retryDocumentJob (workspaceId jobId : UUID) (now : Nat)
  /-- `delete_stale_staging` removes some of the staged objects. -/
  | deleteStaleStaging (keys : List ObjectKey)

/-- A new process, whose identifiers nobody has drawn before. -/
def spawn (s : System) (process : Process) : Option System :=
  if process.drawn.Nodup ∧ ∀ id ∈ process.drawn, id ∉ s.drawn then
    some { s with processes := s.processes ++ [process], drawn := process.drawn ++ s.drawn }
  else none

/-- No other process has locked the row. -/
def free (s : System) (i : Nat) (documentId : UUID) : Bool :=
  (List.range s.processes.length).all fun j => j = i ||
    (s.processes[j]?.bind Process.holds) ≠ some documentId

def ObjectKey.isStaging : ObjectKey → Bool
  | .staging _ _ => true
  | .version _ _ _ _ => false

def Task.interrupt (task : Task) : Option Task :=
  match task.phase with
  | .done => none
  | .failing => some { task with phase := .done }
  | _ => some { task with phase := .failing }

def next (s : System) : Event → Option System
  | .upload call => spawn s (.ofUpload ⟨call, none, .start⟩)
  | .deleteDocument workspaceId documentId jobId =>
    spawn s (.ofDeletion ⟨workspaceId, documentId, jobId, .start⟩)
  | .updateDocument workspaceId documentId displayName =>
    spawn s (.ofUpdate ⟨workspaceId, documentId, displayName, .start⟩)
  | .claimJobs worker batchSize leaseSeconds now locked =>
    let (claimed, jobs) :=
      Jobs.claimJobs s.stores.db.jobs worker.name batchSize leaseSeconds now locked
    some { s with
      stores := ⟨{ s.stores.db with jobs := jobs }, s.stores.objects⟩
      processes := s.processes ++ claimed.map fun job => .ofTask ⟨job, worker, .claimed⟩ }
  | .advance i input => do
    let process ← s.processes[i]?
    if ((process.wants s.stores.db).all fun documentId => free s i documentId) then
      let (process', stores) ← process.advance env s.stores input
      some { s with stores := stores, processes := s.processes.set i process' }
    else none
  | .renewLease i leaseSeconds now later =>
    match s.processes[i]? with
    | some (.ofTask ⟨job, worker, .loaded _ _⟩) =>
      match Jobs.renewLease s.stores.db.jobs job.id worker.name leaseSeconds now later with
      | .ok (_, jobs) =>
        some { s with stores := ⟨{ s.stores.db with jobs := jobs }, s.stores.objects⟩ }
      | .error _ =>
        some { s with processes := s.processes.set i (.ofTask ⟨job, worker, .failing⟩) }
    | _ => none
  | .interrupt i => do
    let .ofTask task ← s.processes[i]? | none
    let task ← task.interrupt
    some { s with processes := s.processes.set i (.ofTask task) }
  | .crash i => do
    let _ ← s.processes[i]?
    some { s with processes := s.processes.set i .crashed }
  | .retryDocumentJob workspaceId jobId now =>
    match retryDocumentJob s.stores.db workspaceId jobId now with
    | .ok db => some { s with stores := ⟨db, s.stores.objects⟩ }
    | .error _ => some s
  | .deleteStaleStaging keys => some { s with
      stores := ⟨s.stores.db, fun key =>
        if ObjectKey.isStaging key ∧ key ∈ keys then none else s.stores.objects key⟩ }

end Steps

/-! ## Samples

The pieces of the runs that the examples and counterexamples are made of. -/

def letterText (content : Bytes) : Text := if content = [0x61] then ['a'] else ['b']

/-- The only chunk of a text of one letter. -/
def letterChunk (request : IndexRequest) : Except PyError Rag.Chunk := do
  let locator ← Rag.SourceLocator.new "b0".toList 0 0 1 none
  Rag.Chunk.new (List.replicate 64 (Char.ofNat (request.versionId + 80))) request.documentId
    request.versionId 0 (letterText request.content) (letterText request.content) 1 [locator] [] none
    request.title

theorem ids_letterChunk {request : IndexRequest} {chunk : Rag.Chunk}
    (made : letterChunk request = .ok chunk) :
    chunk.documentId = request.documentId ∧ chunk.versionId = request.versionId := by
  obtain ⟨locator, -, rest⟩ := bind_eq_ok.1 made
  rw [Rag.Chunk.new] at rest
  split at rest
  · cases rest
  · split at rest
    · cases rest
    · split at rest
      · cases rest
      · cases rest
        exact ⟨rfl, rfl⟩

def letterEmbedding : List Rag.PyFloat := List.replicate 384 (.finite 1)

theorem letterEmbedding_nonempty : letterEmbedding ≠ [] := List.cons_ne_nil _ _

def letterIndexer : Indexer where
  indexContent _ request := do
    let chunk ← letterChunk request
    return [⟨chunk, letterEmbedding, letterEmbedding_nonempty⟩]
  ids indexed record member := by
    obtain ⟨chunk, made, returned⟩ := bind_eq_ok.1 indexed
    cases returned
    cases List.mem_singleton.mp member
    exact ids_letterChunk made

def letterEnvironment : Environment := ⟨letterService, letterIndexer⟩

/-- `b` as the second version of the document of `letterCall`. -/
def secondCall : UploadCall where
  workspaceId := 1
  userId := 2
  filename := some "a.txt".toList
  contentType := some "text/plain".toList
  reads := [[0x62], []]
  idempotencyKey := "second".toList
  documentId := some 4
  displayName := none
  stagingId := 13
  newDocumentId := 14
  versionId := 15
  jobId := 16
  now := 1

def steady : Input := ⟨0, 0, fun _ => 0, 0, []⟩

/-- A whole upload, by process `i`. -/
def uploading (i : Nat) (call : UploadCall) : List Event :=
  .upload call :: List.replicate 9 (.advance i steady)

def firstWorker : Jobs.WorkerId := ⟨"first".toList, by decide⟩

def secondWorker : Jobs.WorkerId := ⟨"second".toList, by decide⟩

/-- A worker takes one job. -/
def claiming (worker : Jobs.WorkerId) : Event := .claimJobs worker 1 60 2 []

/-- Process `i` works its job off. -/
def processing (i : Nat) : List Event := List.replicate 7 (.advance i steady)

end SupportPilot.Lifecycle
