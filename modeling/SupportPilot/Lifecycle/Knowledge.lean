import SupportPilot.Lifecycle.Tables

/-! # What a process knows

The local variables of a process were read from the tables in earlier
transactions.  `Process.Ok` says what about them is still true: the rows are
there, up to the columns that change, and the checks that were passed were
passed for them.  Nothing that happens to the tables later takes this back
(`Process.Ok.mono`). -/

namespace SupportPilot.Lifecycle

open Lib Documents Worker

/-! ## Tables that grow -/

/-- The rows stay, and no document loses a version number. -/
structure Grows (db db' : Database) : Prop where
  document : ∀ {id document}, Table.lookup db.documents id = some document →
    ∃ document', Table.lookup db'.documents id = some document' ∧ SameDocument document document'
  version : ∀ {id version}, Table.lookup db.versions id = some version →
    ∃ version', Table.lookup db'.versions id = some version' ∧ SameVersion version version'
  job : ∀ {id job}, Table.lookup db.jobs id = some job →
    ∃ job', Table.lookup db'.jobs id = some job' ∧ SameJob job job'
  number : ∀ documentId, db.maxVersionNumber documentId ≤ db'.maxVersionNumber documentId

theorem Grows.refl (db : Database) : Grows db db where
  document found := ⟨_, found, .refl _⟩
  version found := ⟨_, found, .refl _⟩
  job found := ⟨_, found, .refl _⟩
  number _ := Nat.le_refl _

theorem InPlace.versionNumbers {db db' : Database} (inPlace : InPlace db db') (documentId : UUID) :
    (db'.versionsOf documentId).map DocumentVersion.versionNumber =
      (db.versionsOf documentId).map DocumentVersion.versionNumber := by
  have rewritten : List.Forall₂ SameVersion (db.versionsOf documentId)
      (db'.versionsOf documentId) := by
    apply rewritten_filter _ inPlace.versions
    intro version version' same
    rw [same.documentId]
  exact map_eq_of_forall₂ (fun _ _ same => same.versionNumber) rewritten

theorem InPlace.grows {db db' : Database} (inPlace : InPlace db db') : Grows db db' where
  document := inPlace.document
  version := inPlace.version
  job := inPlace.job
  number documentId := by
    simp only [Database.maxVersionNumber, inPlace.versionNumbers]
    exact Nat.le_refl _

theorem lookup_append_some {ρ : Type*} [Row ρ UUID] {rows more : List ρ} {id : UUID} {row : ρ}
    (found : Table.lookup rows id = some row) : Table.lookup (rows ++ more) id = some row := by
  rw [Table.lookup] at found ⊢
  rw [List.find?_append, found, Option.some_or]

theorem le_foldl_max (numbers : List Nat) (start : Nat) : start ≤ numbers.foldl max start := by
  induction numbers generalizing start with
  | nil => exact Nat.le_refl _
  | cons number numbers ih => exact Nat.le_trans (Nat.le_max_left start number) (ih _)

/-- Rows added behind the others. -/
theorem grows_append (db : Database) (documents : List Document)
    (versions : List DocumentVersion) (jobs : List Job) (chunks : List Rag.DocumentChunk) :
    Grows db ⟨db.documents ++ documents, db.versions ++ versions, db.jobs ++ jobs, chunks⟩ where
  document found := ⟨_, lookup_append_some found, .refl _⟩
  version found := ⟨_, lookup_append_some found, .refl _⟩
  job found := ⟨_, lookup_append_some found, .refl _⟩
  number documentId := by
    simp only [Database.maxVersionNumber, Database.versionsOf, List.filter_append, List.map_append,
      List.foldl_append]
    apply le_foldl_max

theorem grows_insertJob (db : Database) (job : Job) :
    Grows db { db with jobs := db.jobs ++ [job] } := by
  have grows := grows_append db [] [] [job] db.chunks
  rw [List.append_nil, List.append_nil] at grows
  exact grows

theorem grows_added (db : Database) (target : Target) (version : DocumentVersion) (job : Job) :
    Grows db (added db target version job) :=
  grows_append db _ [version] [job] db.chunks

theorem Grows.trans {first second third : Database} (before : Grows first second)
    (behind : Grows second third) : Grows first third where
  document found := by
    obtain ⟨middle, read, same⟩ := before.document found
    obtain ⟨last, read', same'⟩ := behind.document read
    exact ⟨last, read', same.trans same'⟩
  version found := by
    obtain ⟨middle, read, same⟩ := before.version found
    obtain ⟨last, read', same'⟩ := behind.version read
    exact ⟨last, read', same.trans same'⟩
  job found := by
    obtain ⟨middle, read, same⟩ := before.job found
    obtain ⟨last, read', same'⟩ := behind.job read
    exact ⟨last, read', same.trans same'⟩
  number documentId := Nat.le_trans (before.number documentId) (behind.number documentId)

/-! ## Rows that were read -/

/-- The row that was read is there. -/
def StoredJob (db : Database) (job : Job) : Prop :=
  ∃ row, Table.lookup db.jobs job.id = some row ∧ SameJob job row

def StoredVersion (db : Database) (version : DocumentVersion) : Prop :=
  ∃ row, Table.lookup db.versions version.id = some row ∧ SameVersion version row

/-- The document is in the workspace, deleted or not. -/
def StoredDocument (db : Database) (workspaceId documentId : UUID) : Prop :=
  ∃ row, Table.lookup db.documents documentId = some row ∧ row.workspaceId = workspaceId

section Stored

variable {db db' : Database}

theorem storedJob_of_lookup {id : UUID} {job : Job} (found : Table.lookup db.jobs id = some job) :
    StoredJob db job := by
  have same : job.id = id := Table.key_of_lookup found
  subst same
  exact ⟨job, found, .refl job⟩

theorem storedVersion_of_lookup {id : UUID} {version : DocumentVersion}
    (found : Table.lookup db.versions id = some version) : StoredVersion db version := by
  have same : version.id = id := Table.key_of_lookup found
  subst same
  exact ⟨version, found, .refl version⟩

theorem StoredJob.mono {job : Job} (stored : StoredJob db job) (grows : Grows db db') :
    StoredJob db' job := by
  obtain ⟨row, found, same⟩ := stored
  obtain ⟨row', found', same'⟩ := grows.job found
  exact ⟨row', found', same.trans same'⟩

theorem StoredVersion.mono {version : DocumentVersion} (stored : StoredVersion db version)
    (grows : Grows db db') : StoredVersion db' version := by
  obtain ⟨row, found, same⟩ := stored
  obtain ⟨row', found', same'⟩ := grows.version found
  exact ⟨row', found', same.trans same'⟩

theorem StoredDocument.mono {workspaceId documentId : UUID}
    (stored : StoredDocument db workspaceId documentId) (grows : Grows db db') :
    StoredDocument db' workspaceId documentId := by
  obtain ⟨row, found, workspace⟩ := stored
  obtain ⟨row', found', same⟩ := grows.document found
  exact ⟨row', found', same.workspaceId.trans workspace⟩

theorem Live.stored {workspaceId documentId : UUID} {document : Document}
    (live : Live db workspaceId documentId document) :
    StoredDocument db workspaceId documentId :=
  ⟨document, live.read, live.workspace⟩

end Stored

/-! ## Uploads -/

section Uploads

variable [UnicodeTables] [Sha256] (env : Environment)

structure FileOk (call : UploadCall) (file : CheckedFile) : Prop where
  received : file.received = .of call.content
  accepted : call.Accepted env.service file.mediaType
  within : file.usedBytes + call.content.length ≤ env.service.settings.maxWorkspaceStorageBytes

omit [Sha256] in
/-- The document is the one that was asked for. -/
inductive DocumentOk (call : UploadCall) (db : Database) (document : Document) : Bool → Prop
  | created : call.documentId = none → document = call.newDocument →
      DocumentOk call db document true
  | selected : call.documentId = some document.id →
      StoredDocument db call.workspaceId document.id → DocumentOk call db document false

structure TargetOk (call : UploadCall) (db : Database) (target : Target) : Prop where
  document : DocumentOk call db target.document target.isNew
  number : target.versionNumber ≤ db.maxVersionNumber target.document.id + 1

/-- The rows of a result are stored, under the key of the call. -/
structure Answers (call : UploadCall) (db : Database) (result : UploadResult) : Prop where
  job : StoredJob db result.job
  version : StoredVersion db result.version
  processes : Processes result.job result.version
  workspace : result.job.workspaceId = call.workspaceId
  key : result.job.idempotencyKey = call.key
  document : result.version.documentId = result.document.id

/-- The rows of a result are the ones that the call made. -/
structure Made (call : UploadCall) (result : UploadResult) : Prop where
  versionId : result.version.id = call.versionId
  jobId : result.job.id = call.jobId
  byteSize : result.version.byteSize = call.content.length
  sha256 : result.version.sha256 = Sha256.hexdigest call.content
  document : call.documentId = none ∧ result.document = call.newDocument ∨
    call.documentId = some result.document.id

def UploadPhase.Ok (call : UploadCall) (db : Database) : UploadPhase → Prop
  | received file mediaType =>
    file = .of call.content ∧ call.Accepted env.service mediaType
  | admitted file => FileOk env call file
  | resolved file document isNew => FileOk env call file ∧ DocumentOk call db document isNew
  | numbered file target | distinct file target | promoted file target =>
    FileOk env call file ∧ TargetOk call db target
  | persisted result => Answers call db result ∧ Made call result
  | returned result => Answers call db result
  | _ => True

variable {env} {db db' : Database} {call : UploadCall} (grows : Grows db db')

include grows

omit [Sha256] in
theorem DocumentOk.mono {document : Document} {isNew : Bool}
    (ok : DocumentOk call db document isNew) : DocumentOk call db' document isNew := by
  cases ok with
  | created asked new => exact .created asked new
  | selected asked stored => exact .selected asked (stored.mono grows)

omit [Sha256] in
theorem TargetOk.mono {target : Target} (ok : TargetOk call db target) :
    TargetOk call db' target :=
  ⟨ok.document.mono grows, Nat.le_trans ok.number (Nat.succ_le_succ (grows.number _))⟩

omit [UnicodeTables] [Sha256] in
theorem Answers.mono {result : UploadResult} (answers : Answers call db result) :
    Answers call db' result :=
  { answers with job := answers.job.mono grows, version := answers.version.mono grows }

theorem UploadPhase.Ok.mono {phase : UploadPhase} (ok : phase.Ok env call db) :
    phase.Ok env call db' := by
  cases phase with
  | received | admitted => exact ok
  | resolved => exact ⟨ok.1, ok.2.mono grows⟩
  | numbered | distinct | promoted => exact ⟨ok.1, TargetOk.mono grows ok.2⟩
  | persisted => exact ⟨ok.1.mono grows, ok.2⟩
  | returned => exact Answers.mono grows ok
  | start | receiving | failing | raised => trivial

end Uploads

/-! ## Tasks -/

/-- What a job knows about its version. -/
structure LocatedOk (db : Database) (job : Job) (located : Located) : Prop where
  version : ∃ version title, located = locatedOf version title ∧ StoredVersion db version ∧
    Processes job version

structure ContentOk [Sha256] (located : Located) (content : Bytes) : Prop where
  size : content.length = located.expectedSize
  sha256 : Sha256.hexdigest content = located.expectedSha256

/-- The records are what some run of the indexer made of the content. -/
def RecordsOk (indexer : Indexer) (located : Located) (content : Bytes)
    (records : List Rag.EmbeddedChunk) : Prop :=
  ∃ run, indexer.indexContent run (indexRequest located content) = .ok records

section Tasks

variable [Sha256] (env : Environment)

def TaskPhase.Ok (job : Job) (db : Database) : TaskPhase → Prop
  | located found | statted found => LocatedOk db job found
  | loaded found content => LocatedOk db job found ∧ ContentOk found content
  | indexed found content records => LocatedOk db job found ∧ ContentOk found content ∧
    RecordsOk env.indexer found content records
  | locked found content records documentId => LocatedOk db job found ∧
    ContentOk found content ∧ RecordsOk env.indexer found content records ∧
    documentId = found.documentId
  | deleting _ => job.jobType = .deleteObject
  | _ => True

variable {env} {db db' : Database} {job : Job} (grows : Grows db db')

include grows

omit [Sha256] in
theorem LocatedOk.mono {located : Located} (ok : LocatedOk db job located) :
    LocatedOk db' job located := by
  obtain ⟨version, title, same, stored, processes⟩ := ok.version
  exact ⟨version, title, same, stored.mono grows, processes⟩

theorem TaskPhase.Ok.mono {phase : TaskPhase} (ok : phase.Ok env job db) :
    phase.Ok env job db' := by
  cases phase with
  | located | statted => exact LocatedOk.mono grows ok
  | loaded | indexed | locked => exact ⟨ok.1.mono grows, ok.2⟩
  | deleting => exact ok
  | claimed | begun | failing | done => trivial

end Tasks

/-! ## Every process -/

section Processes

variable [UnicodeTables] [Sha256] (env : Environment)

def Process.Ok (db : Database) : Process → Prop
  | ofUpload upload => upload.phase.Ok env upload.call db
  | ofTask task => StoredJob db task.job ∧ task.phase.Ok env task.job db
  | ofDeletion deletion => ∀ documentId, deletion.phase = .selected documentId →
    documentId = deletion.documentId ∧ StoredDocument db deletion.workspaceId documentId
  | ofUpdate _ | crashed => True

variable {env}

theorem Process.Ok.mono {db db' : Database} (grows : Grows db db') {process : Process}
    (ok : process.Ok env db) : process.Ok env db' := by
  cases process with
  | ofUpload upload => exact UploadPhase.Ok.mono grows ok
  | ofTask task => exact ⟨ok.1.mono grows, ok.2.mono grows⟩
  | ofDeletion deletion =>
    intro documentId selected
    obtain ⟨same, stored⟩ := ok documentId selected
    exact ⟨same, stored.mono grows⟩
  | ofUpdate | crashed => trivial

end Processes

end SupportPilot.Lifecycle
