import SupportPilot.Lib.Fallible
import SupportPilot.Lifecycle.System

/-! # What one step of a process does

The inversion lemmas of the system: `UploadStep` and `TaskStep` list everything a
step of an upload or of a claimed job can do to the process, the tables and the
objects.  The modules behind this one argue by cases on them and do not look at
the programs again. -/

namespace SupportPilot.Lifecycle

open Lib Documents Worker

/-! ## Uploads -/

@[simp] theorem not_interrupted_none : ¬ Interrupted none := by
  rintro ⟨step, error, fails, -⟩
  cases fails

/-- Nothing has been renamed yet, and there may be a staged object. -/
def UploadPhase.isStaged : UploadPhase → Bool
  | received .. | admitted .. | resolved .. | numbered .. | distinct .. => true
  | _ => false

section Uploads

variable [UnicodeTables] [Sha256] {env : Environment}

inductive UploadStep (env : Environment) (call : UploadCall) :
    Option ObjectKey → UploadPhase → Stores → Option ObjectKey → UploadPhase → Stores → Prop
  | replayed {promotedKey stores result} : call.Replays stores.db result →
      UploadStep env call promotedKey .start stores promotedKey (.returned result) stores
  | refused {promotedKey stores} (error) :
      UploadStep env call promotedKey .start stores promotedKey (.raised error) stores
  | opened {promotedKey stores} :
      stores.db.jobOfKey call.workspaceId .processDocument call.key = none →
      UploadStep env call promotedKey .start stores promotedKey .receiving stores
  | received {promotedKey stores} (mediaType) : call.Accepted env.service mediaType →
      UploadStep env call promotedKey .receiving stores promotedKey
        (.received (.of call.content) mediaType)
        ⟨stores.db, Function.update stores.objects call.stagingKey (some call.content)⟩
  | dropped {promotedKey stores} (error objects) :
      (∀ key ≠ call.stagingKey, objects key = stores.objects key) →
      UploadStep env call promotedKey .receiving stores promotedKey (.failing error)
        ⟨stores.db, objects⟩
  | admitted {promotedKey stores} (received mediaType) :
      stores.db.usedBytes call.workspaceId + received.byteSize ≤
        env.service.settings.maxWorkspaceStorageBytes →
      UploadStep env call promotedKey (.received received mediaType) stores promotedKey
        (.admitted ⟨received, mediaType, stores.db.usedBytes call.workspaceId⟩) stores
  | resolved {promotedKey stores} (file document isNew) :
      call.resolved stores.db = some (document, isNew) →
      UploadStep env call promotedKey (.admitted file) stores promotedKey
        (.resolved file document isNew) stores
  | numbered {promotedKey stores} (file document isNew) :
      UploadStep env call promotedKey (.resolved file document isNew) stores promotedKey
        (.numbered file (UploadCall.target stores.db document isNew)) stores
  | distinct {promotedKey stores} (file target) :
      UploadStep env call promotedKey (.numbered file target) stores promotedKey
        (.distinct file target) stores
  | promoted {promotedKey stores} (file target content) :
      stores.objects call.stagingKey = some content →
      UploadStep env call promotedKey (.distinct file target) stores
        (some (call.finalKey target.document.id)) (.promoted file target)
        ⟨stores.db, Function.update (Function.update stores.objects call.stagingKey none)
          (call.finalKey target.document.id) (some content)⟩
  | stopped {promotedKey stores} (phase error) : phase.isStaged = true →
      UploadStep env call promotedKey phase stores promotedKey (.failing error) stores
  | persisted {promotedKey stores} (file target) :
      UploadFits stores.db target (newVersion call file.received file.mediaType target)
        (newJob env.service call target) →
      UploadStep env call promotedKey (.promoted file target) stores promotedKey
        (.persisted ⟨target.document, newVersion call file.received file.mediaType target,
          newJob env.service call target⟩)
        ⟨added stores.db target (newVersion call file.received file.mediaType target)
          (newJob env.service call target), stores.objects⟩
  | undone {promotedKey stores} (file target error) :
      UploadStep env call promotedKey (.promoted file target) stores none (.failing error)
        ⟨stores.db, Function.update stores.objects (call.finalKey target.document.id) none⟩
  | returned {promotedKey stores} (result) :
      UploadStep env call promotedKey (.persisted result) stores promotedKey (.returned result)
        stores
  | raised {promotedKey stores} (error error') :
      UploadStep env call promotedKey (.failing error) stores promotedKey (.raised error')
        ⟨stores.db, (cleanedUp call error ⟨stores.db, stores.objects, promotedKey⟩).objects⟩

omit [UnicodeTables] [Sha256] in
theorem runStage_of_ends {α : Type} {upload : Upload} {stores : Stores} {stage : UploadM α}
    {returned : α → UploadPhase} {raised : PyError → UploadPhase} {P : Upload × Stores → Prop}
    (ends : Ends stage ⟨stores.db, stores.objects, upload.promotedKey⟩
      (fun a session =>
        P (⟨upload.call, session.promotedKey, returned a⟩, ⟨session.db, session.objects⟩))
      (fun error session =>
        P (⟨upload.call, session.promotedKey, raised error⟩, ⟨session.db, session.objects⟩))) :
    P (upload.runStage stores stage returned raised) := by
  rw [Ends] at ends
  rw [Upload.runStage]
  split at ends
  next ran => simpa only [ran] using ends
  next ran => simpa only [ran] using ends

/-- What the step of an upload may be. -/
def Steps (env : Environment) (upload : Upload) (stores : Stores) (after : Upload × Stores) :
    Prop :=
  after.1.call = upload.call ∧ UploadStep env upload.call upload.promotedKey upload.phase stores
    after.1.promotedKey after.1.phase after.2

theorem uploadStep_of_advance {upload : Upload} {stores : Stores} {after : Upload × Stores}
    (advanced : upload.advance env stores = some after) : Steps env upload stores after := by
  obtain ⟨call, promotedKey, phase⟩ := upload
  cases phase with
  | start =>
    cases advanced
    apply runStage_of_ends
    rw [startUpload, checkKey, ends_bind, ends_require]
    refine ⟨fun valid => ?_, fun invalid => ⟨rfl, .refused _⟩⟩
    apply ends_existingResult.mono
    · rintro found session ⟨rfl, existing⟩
      cases found with
      | none => exact ⟨rfl, .opened existing⟩
      | some result => exact ⟨rfl, .replayed existing⟩
    · rintro error session ⟨rfl, -⟩
      exact ⟨rfl, .refused error⟩
  | receiving =>
    cases advanced
    apply runStage_of_ends
    apply ends_receiveUpload.mono
    · rintro ⟨received, mediaType⟩ session ⟨rfl, rfl, accepted⟩
      exact ⟨rfl, .received mediaType accepted⟩
    · rintro error session ⟨same, -⟩
      -- a failed upload may leave some of its bytes under the staging key
      obtain ⟨db, objects, promoted⟩ := session
      obtain ⟨sameDb, samePromoted, others⟩ := same
      dsimp only at sameDb samePromoted others
      subst sameDb samePromoted
      exact ⟨rfl, .dropped error objects others⟩
  | received received mediaType =>
    cases advanced
    apply runStage_of_ends
    apply ends_checkQuota.mono
    · rintro usedBytes session ⟨rfl, rfl, within⟩
      exact ⟨rfl, .admitted received mediaType within⟩
    · rintro error session ⟨rfl, -⟩
      exact ⟨rfl, .stopped _ error rfl⟩
  | admitted file =>
    cases advanced
    apply runStage_of_ends
    apply ends_resolveDocument.mono
    · rintro ⟨document, isNew⟩ session ⟨rfl, resolved⟩
      exact ⟨rfl, .resolved file document isNew resolved⟩
    · rintro error session ⟨rfl, -⟩
      exact ⟨rfl, .stopped _ error rfl⟩
  | resolved file document isNew =>
    cases advanced
    apply runStage_of_ends
    apply ends_nextVersionNumber.mono
    · rintro target session ⟨rfl, rfl⟩
      exact ⟨rfl, .numbered file document isNew⟩
    · rintro error session ⟨rfl, early⟩
      exact absurd early not_interrupted_none
  | numbered file target =>
    cases advanced
    apply runStage_of_ends
    rw [checkDuplicate]
    simp only [ends_bind, ends_attempt, ends_get, ends_ite, ends_throw, ends_pure]
    refine ⟨fun _ => ⟨fun _ => ?_, fun _ => ?_⟩, fun error fails => ?_⟩
    · exact ⟨rfl, .stopped _ _ rfl⟩
    · exact ⟨rfl, .distinct file target⟩
    · cases fails
  | distinct file target =>
    cases advanced
    apply runStage_of_ends
    apply ends_promote.mono
    · rintro - session ⟨-, content, staged, rfl⟩
      exact ⟨rfl, .promoted file target content staged⟩
    · rintro error session (⟨rfl, -⟩ | ⟨fails, -⟩)
      · exact ⟨rfl, .stopped _ error rfl⟩
      · cases fails
  | promoted file target =>
    cases advanced
    apply runStage_of_ends
    apply ends_persist.mono
    · rintro result session ⟨db, flushed, rfl, rfl⟩
      obtain ⟨fits, rfl⟩ := flushUpload_ok.1 flushed
      exact ⟨rfl, .persisted file target fits⟩
    · rintro error session ⟨rfl, -⟩
      exact ⟨rfl, .undone file target error⟩
  | persisted result =>
    cases advanced
    apply runStage_of_ends
    rw [setTenantContext, ends_attempt]
    refine ⟨fun _ => ⟨rfl, .returned result⟩, fun error fails => ?_⟩
    cases fails
  | failing error =>
    cases advanced
    apply runStage_of_ends
    apply ends_cleanUp.mono
    · exact fun _ _ => False.elim
    · rintro error' session ⟨rfl, -⟩
      exact ⟨rfl, .raised error error'⟩
  | returned result => cases advanced
  | raised error => cases advanced

end Uploads

/-! ## Transactions of the workers -/

/-- Write a changed job row back. -/
def saveJob (db : Database) (job : Job) : Database :=
  { db with jobs := Table.save db.jobs job }

/-- The worker holds the lease of the job; `row` is the current row. -/
structure Holds (db : Database) (job : Job) (worker : Text) (now : Nat) (row : Job) : Prop where
  read : Table.lookup db.jobs job.id = some row
  owned : Jobs.Owned worker now row

theorem holds_of_updateOwnedJob {db : Database} {job : Job} {worker : Text} {now : Nat}
    {write : Job → Job} {written : Job × List Job}
    (result : Jobs.updateOwnedJob db.jobs job.id worker now write = .ok written) :
    ∃ row, Holds db job worker now row ∧
      written = (write row, (saveJob db (write row)).jobs) := by
  obtain ⟨returned, table⟩ := written
  obtain ⟨row, required, rfl, rfl⟩ := Jobs.updateOwnedJob_ok.1 result
  obtain ⟨read, owner, active, live⟩ := Jobs.requireOwnedJob_ok.1 required
  exact ⟨row, ⟨read, owner, active, live⟩, rfl⟩

/-- The version that the payload of a job names. -/
structure Names (db : Database) (workspaceId : UUID) (payload : Payload)
    (version : DocumentVersion) : Prop where
  payload : payload.documentVersionId = some version.id
  read : db.version? workspaceId version.id = some version

theorem version?_eq_some {db : Database} {workspaceId versionId : UUID}
    {version : DocumentVersion} : db.version? workspaceId versionId = some version ↔
      Table.lookup db.versions versionId = some version ∧ version.workspaceId = workspaceId := by
  simp [Database.version?]

theorem document?_eq_some {db : Database} {workspaceId documentId : UUID} {document : Document} :
    db.document? workspaceId documentId = some document ↔
      Table.lookup db.documents documentId = some document ∧
        document.workspaceId = workspaceId := by
  simp [Database.document?]

theorem payloadVersion_ok {payload : Payload} {versionId : UUID} :
    payloadVersion payload = .ok versionId ↔ payload.documentVersionId = some versionId := by
  rw [payloadVersion]
  split <;> simp [*]

theorem payloadDocument_ok {payload : Payload} {documentId : UUID} :
    payloadDocument payload = .ok documentId ↔ payload.documentId = some documentId := by
  rw [payloadDocument]
  split <;> simp [*]

theorem findVersion_ok {db : Database} {workspaceId versionId : UUID} {version : DocumentVersion} :
    findVersion db workspaceId versionId = .ok version ↔
      db.version? workspaceId versionId = some version := by
  rw [findVersion]
  split <;> simp [*]

/-- The undeleted document that the workspace sees. -/
structure Live (db : Database) (workspaceId documentId : UUID) (document : Document) : Prop where
  read : Table.lookup db.documents documentId = some document
  workspace : document.workspaceId = workspaceId
  undeleted : document.deletedAt = none

theorem live_iff {db : Database} {workspaceId documentId : UUID} {document : Document} :
    ((db.document? workspaceId documentId).filter fun document => document.deletedAt = none) =
      some document ↔ Live db workspaceId documentId document := by
  simp only [Option.filter_eq_some_iff, document?_eq_some, decide_eq_true_eq]
  constructor
  · rintro ⟨⟨read, workspace⟩, undeleted⟩
    exact ⟨read, workspace, undeleted⟩
  · rintro ⟨read, workspace, undeleted⟩
    exact ⟨⟨read, workspace⟩, undeleted⟩

theorem findLiveDocument_ok {db : Database} {workspaceId documentId : UUID} {document : Document} :
    findLiveDocument db workspaceId documentId = .ok document ↔
      Live db workspaceId documentId document := by
  rw [← live_iff, findLiveDocument]
  split <;> simp [*]

theorem selectLive_ok {db : Database} {workspaceId documentId : UUID} {document : Document} :
    selectLive db workspaceId documentId = .ok document ↔
      Live db workspaceId documentId document := by
  rw [← live_iff, selectLive]
  split <;> simp [*]

inductive Begun (job : Job) (worker : Text) (db : Database) : Database → Prop
  | process {now row version} : Holds db job worker now row → row.jobType = .processDocument →
      Names db job.workspaceId row.payload version →
      Begun job worker db ((saveJob db row.process).setStatus version.id .processing)
  | delete {now row} : Holds db job worker now row → row.jobType = .deleteObject →
      Begun job worker db (saveJob db row.process)

theorem begun_of_ok {db db' : Database} {job : Job} {worker : Text} {now : Nat}
    (began : beginProcessing db job worker now = .ok db') : Begun job worker db db' := by
  obtain ⟨written, result, rest⟩ := bind_eq_ok.1 began
  obtain ⟨row, holds, rfl⟩ := holds_of_updateOwnedJob result
  dsimp only at rest
  split at rest
  next process =>
    obtain ⟨versionId, payload, tail⟩ := bind_eq_ok.1 rest
    obtain ⟨version, found, returned⟩ := bind_eq_ok.1 tail
    have id : version.id = versionId :=
      Table.key_of_lookup (version?_eq_some.1 (findVersion_ok.1 found)).1
    subst id
    cases returned
    exact .process holds process ⟨payloadVersion_ok.1 payload, findVersion_ok.1 found⟩
  next delete =>
    cases rest
    apply Begun.delete holds
    change row.jobType ≠ .processDocument at delete
    cases kind : row.jobType with
    | processDocument => exact absurd kind delete
    | deleteObject => rfl

/-- What the reading transaction of a job copies. -/
def locatedOf (version : DocumentVersion) (title : Text) : Located where
  versionId := version.id
  documentId := version.documentId
  objectKey := version.objectKey
  expectedSize := version.byteSize
  expectedSha256 := version.sha256
  mediaType := version.mediaType
  documentTitle := title

theorem locate_ok {db : Database} {job : Job} {located : Located}
    (found : locate db job = .ok located) :
    ∃ version document, Names db job.workspaceId job.payload version ∧
      Live db job.workspaceId version.documentId document ∧
      located = locatedOf version document.displayName := by
  obtain ⟨versionId, payload, rest⟩ := bind_eq_ok.1 found
  obtain ⟨version, foundVersion, tail⟩ := bind_eq_ok.1 rest
  obtain ⟨document, live, returned⟩ := bind_eq_ok.1 tail
  have id : version.id = versionId :=
    Table.key_of_lookup (version?_eq_some.1 (findVersion_ok.1 foundVersion)).1
  subst id
  cases returned
  exact ⟨version, document, ⟨payloadVersion_ok.1 payload, findVersion_ok.1 foundVersion⟩,
    findLiveDocument_ok.1 live, rfl⟩

theorem readObject_ok [Sha256] {settings : Settings} {objects : ObjectKey → Option Bytes}
    {located : Located} {content : Bytes}
    (read : readObject settings objects located = .ok content) :
    objects located.objectKey = some content ∧ content.length = located.expectedSize ∧
      Sha256.hexdigest content = located.expectedSha256 := by
  rw [readObject] at read
  split at read
  · cases read
  next stored found =>
    split at read
    · cases read
    · split at read
      · cases read
      next same =>
        cases read
        rw [not_or, not_not, not_not] at same
        exact ⟨found, same⟩

theorem lockVersion_ok {db : Database} {job : Job} {located : Located} {documentId : UUID}
    (locked : lockVersion db job located = .ok documentId) :
    ∃ version document, db.version? job.workspaceId located.versionId = some version ∧
      Live db job.workspaceId version.documentId document ∧ documentId = version.documentId := by
  obtain ⟨version, found, rest⟩ := bind_eq_ok.1 locked
  obtain ⟨document, live, returned⟩ := bind_eq_ok.1 rest
  cases returned
  have read := findLiveDocument_ok.1 live
  exact ⟨version, document, findVersion_ok.1 found, read, Table.key_of_lookup read.read⟩

/-- The writes of the activating transaction; `row` is the completed job. -/
def activatedDb (db : Database) (chunks : List Rag.DocumentChunk) (versionId documentId : UUID)
    (row : Job) : Database :=
  saveJob (({ db with chunks := chunks }.setStatus versionId .active).updateDocument documentId
    fun document => { document with activeVersionId := some versionId }) row.complete

inductive Activated (job : Job) (worker : Text) (versionId documentId : UUID)
    (records : List Rag.EmbeddedChunk) (db : Database) : Database → Prop
  | mk {now row chunks} : Holds db job worker now row →
      Rag.replaceVersion db.chunks job.workspaceId records = .ok chunks →
      Activated job worker versionId documentId records db
        (activatedDb db chunks versionId documentId row)

theorem activated_of_ok {db db' : Database} {job : Job} {worker : Text} {now : Nat}
    {located : Located} {documentId : UUID} {records : List Rag.EmbeddedChunk}
    (finished : activate db job worker now located documentId records = .ok db') :
    Activated job worker located.versionId documentId records db db' := by
  obtain ⟨chunks, replaced, rest⟩ := bind_eq_ok.1 finished
  dsimp only at rest
  split at rest
  · cases rest
  · split at rest
    · cases rest
    · obtain ⟨written, result, returned⟩ := bind_eq_ok.1 rest
      obtain ⟨row, holds, rfl⟩ := holds_of_updateOwnedJob result
      cases returned
      exact .mk ⟨holds.read, holds.owned⟩ replaced

inductive Swept (job : Job) (worker : Text) (db : Database) : Database → Prop
  | mk {now row documentId} : Holds db job worker now row →
      job.payload.documentId = some documentId →
      Swept job worker db (saveJob { db with
        chunks := Rag.deleteDocumentChunks db.chunks job.workspaceId documentId } row.complete)

theorem swept_of_ok {db db' : Database} {job : Job} {worker : Text} {now : Nat}
    (finished : finishDelete db job worker now = .ok db') : Swept job worker db db' := by
  obtain ⟨documentId, payload, rest⟩ := bind_eq_ok.1 finished
  obtain ⟨written, result, returned⟩ := bind_eq_ok.1 rest
  obtain ⟨row, holds, rfl⟩ := holds_of_updateOwnedJob result
  cases returned
  exact .mk holds (payloadDocument_ok.1 payload)

/-- `mark_failed` as `fail_job` calls it. -/
def failedRow (row : Job) (message : Text) (randbelow : Nat → Nat) (later : Nat) : Job :=
  row.fail "processing_failed".toList message true randbelow later

def statusOfFailed (row : Job) : DocumentVersionStatus :=
  if row.state ∈ [JobState.failed, .deadLetter] then .failed else .queued

inductive Failed (job : Job) (worker : Text) (db : Database) : Database → Prop
  | process {now row version message randbelow later} : Holds db job worker now row →
      row.jobType = .processDocument → Names db job.workspaceId row.payload version →
      Failed job worker db ((saveJob db (failedRow row message randbelow later)).setStatus version.id
        (statusOfFailed (failedRow row message randbelow later)))
  | other {now row message randbelow later} : Holds db job worker now row →
      (row.jobType = .processDocument →
        ∀ version, ¬ Names db job.workspaceId row.payload version) →
      Failed job worker db (saveJob db (failedRow row message randbelow later))

theorem fail_jobType {errorCode errorMessage : Text} {retryable : Bool} {randbelow : Nat → Nat}
    {now : Nat} {job : Job} :
    (job.fail errorCode errorMessage retryable randbelow now).jobType = job.jobType := by
  rw [Job.fail]
  split <;> rfl

theorem fail_payload {errorCode errorMessage : Text} {retryable : Bool} {randbelow : Nat → Nat}
    {now : Nat} {job : Job} :
    (job.fail errorCode errorMessage retryable randbelow now).payload = job.payload := by
  rw [Job.fail]
  split <;> rfl

theorem failed_of_ok {db db' : Database} {job : Job} {worker message : Text}
    {randbelow : Nat → Nat} {now later : Nat}
    (recorded : failJob db job worker message randbelow now later = .ok db') :
    Failed job worker db db' := by
  obtain ⟨written, result, rest⟩ := bind_eq_ok.1 recorded
  obtain ⟨row, holds, rfl⟩ := holds_of_updateOwnedJob result
  dsimp only at rest
  rw [fail_jobType, fail_payload] at rest
  split at rest
  next process =>
    obtain ⟨versionId, payload, tail⟩ := bind_eq_ok.1 rest
    rw [payloadVersion_ok] at payload
    split at tail
    next missing =>
      cases tail
      refine .other holds fun _ version names => ?_
      cases payload.symm.trans names.payload
      cases missing.symm.trans names.read
    next version found =>
      have id : version.id = versionId := Table.key_of_lookup (version?_eq_some.1 found).1
      subst id
      cases tail
      exact .process holds process ⟨payload, found⟩
  next other =>
    cases rest
    exact .other holds fun process => absurd process other

/-! ## Steps of the workers -/

/-- The task has not ended, and has not failed yet. -/
def TaskPhase.isRunning : TaskPhase → Bool
  | failing | done => false
  | _ => true

section Tasks

variable [Sha256]

inductive TaskStep (env : Environment) (job : Job) (worker : Text) :
    TaskPhase → Stores → TaskPhase → Stores → Prop
  | begun {stores} (db) : Begun job worker stores.db db →
      TaskStep env job worker .claimed stores .begun ⟨db, stores.objects⟩
  | located {stores} (version document) : job.jobType = .processDocument →
      Names stores.db job.workspaceId job.payload version →
      Live stores.db job.workspaceId version.documentId document →
      TaskStep env job worker .begun stores (.located (locatedOf version document.displayName)) stores
  | listed {stores} (documentId) : job.jobType = .deleteObject →
      job.payload.documentId = some documentId →
      TaskStep env job worker .begun stores
        (.deleting ((stores.db.versions.filter fun version =>
          version.workspaceId = job.workspaceId && version.documentId = documentId).map
            DocumentVersion.objectKey)) stores
  | statted {stores} (located) :
      TaskStep env job worker (.located located) stores (.statted located) stores
  | loaded {stores} (located content) : content.length = located.expectedSize →
      Sha256.hexdigest content = located.expectedSha256 →
      TaskStep env job worker (.statted located) stores (.loaded located content) stores
  | indexed {stores} (located content run records) :
      env.indexer.indexContent run (indexRequest located content) = .ok records →
      TaskStep env job worker (.loaded located content) stores (.indexed located content records)
        stores
  | locked {stores} (located content records version document) :
      stores.db.version? job.workspaceId located.versionId = some version →
      Live stores.db job.workspaceId version.documentId document →
      TaskStep env job worker (.indexed located content records) stores
        (.locked located content records version.documentId) stores
  | activated {stores} (located content records documentId db) :
      Activated job worker located.versionId documentId records stores.db db →
      TaskStep env job worker (.locked located content records documentId) stores .done
        ⟨db, stores.objects⟩
  | erased {stores} (key keys) :
      TaskStep env job worker (.deleting (key :: keys)) stores (.deleting keys)
        ⟨stores.db, Function.update stores.objects key none⟩
  | swept {stores} (db) : Swept job worker stores.db db →
      TaskStep env job worker (.deleting []) stores .done ⟨db, stores.objects⟩
  | stopped {stores} (phase) : phase.isRunning = true →
      TaskStep env job worker phase stores .failing stores
  | failed {stores} (db) : Failed job worker stores.db db →
      TaskStep env job worker .failing stores .done ⟨db, stores.objects⟩
  | ended {stores} : TaskStep env job worker .failing stores .done stores

/-- What the step of a task may be. -/
def TaskSteps (env : Environment) (task : Task) (stores : Stores) (after : Task × Stores) : Prop :=
  after.1.job = task.job ∧ after.1.worker = task.worker ∧
    TaskStep env task.job task.worker.name task.phase stores after.1.phase after.2

omit [Sha256] in
theorem orFail_cases {α : Type} {P : Task × Stores → Prop} {task : Task} {stores : Stores}
    {result : Except PyError α} {next : α → TaskPhase × Stores}
    (returned : ∀ a, result = .ok a → P ({ task with phase := (next a).1 }, (next a).2))
    (raised : P ({ task with phase := .failing }, stores)) :
    P (task.orFail stores result next) := by
  cases result with
  | ok a => exact returned a rfl
  | error error => exact raised

theorem taskStep_of_advance {env : Environment} {task : Task} {stores : Stores} {input : Input}
    {after : Task × Stores} (advanced : task.advance env stores input = some after) :
    TaskSteps env task stores after := by
  obtain ⟨job, worker, phase⟩ := task
  -- an exception of any stage leads to `mark_failed`
  have stops : phase.isRunning = true →
      TaskSteps env ⟨job, worker, phase⟩ stores (⟨job, worker, .failing⟩, stores) :=
    fun running => ⟨rfl, rfl, .stopped phase running⟩
  cases phase with
  | claimed =>
    cases advanced
    apply orFail_cases
    · exact fun db began => ⟨rfl, rfl, .begun db (begun_of_ok began)⟩
    · exact stops rfl
  | begun =>
    cases kind : job.jobType with
    | processDocument =>
      simp only [Task.advance, kind] at advanced
      cases advanced
      apply orFail_cases
      · intro located found
        obtain ⟨version, document, names, live, rfl⟩ := locate_ok found
        exact ⟨rfl, rfl, .located version document kind names live⟩
      · exact stops rfl
    | deleteObject =>
      simp only [Task.advance, kind] at advanced
      cases advanced
      apply orFail_cases
      · intro keys found
        obtain ⟨documentId, payload, returned⟩ := bind_eq_ok.1 found
        cases returned
        exact ⟨rfl, rfl, .listed documentId kind (payloadDocument_ok.1 payload)⟩
      · exact stops rfl
  | located located =>
    cases advanced
    apply orFail_cases
    · exact fun _ _ => ⟨rfl, rfl, .statted located⟩
    · exact stops rfl
  | statted located =>
    cases advanced
    apply orFail_cases
    · intro content read
      obtain ⟨-, size, digest⟩ := readObject_ok read
      exact ⟨rfl, rfl, .loaded located content size digest⟩
    · exact stops rfl
  | loaded located content =>
    cases advanced
    apply orFail_cases
    · exact fun records indexed => ⟨rfl, rfl, .indexed located content input.run records indexed⟩
    · exact stops rfl
  | indexed located content records =>
    cases advanced
    apply orFail_cases
    · intro documentId locked
      obtain ⟨version, document, found, live, rfl⟩ := lockVersion_ok locked
      exact ⟨rfl, rfl, .locked located content records version document found live⟩
    · exact stops rfl
  | locked located content records documentId =>
    cases advanced
    apply orFail_cases
    · exact fun db finished =>
        ⟨rfl, rfl, .activated located content records documentId db (activated_of_ok finished)⟩
    · exact stops rfl
  | deleting keys =>
    cases keys with
    | nil =>
      cases advanced
      apply orFail_cases
      · exact fun db finished => ⟨rfl, rfl, .swept db (swept_of_ok finished)⟩
      · exact stops rfl
    | cons key keys =>
      cases advanced
      exact ⟨rfl, rfl, .erased key keys⟩
  | failing =>
    simp only [Task.advance] at advanced
    split at advanced
    next db recorded =>
      cases advanced
      exact ⟨rfl, rfl, .failed db (failed_of_ok recorded)⟩
    · cases advanced
      exact ⟨rfl, rfl, .ended⟩
  | done => cases advanced

end Tasks

end SupportPilot.Lifecycle
