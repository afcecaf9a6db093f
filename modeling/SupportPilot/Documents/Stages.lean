import SupportPilot.Documents.Upload

/-! # What each stage of an upload does

One rule for each stage of `SupportPilot.Documents.Upload`, from any session.
A stage that returns says which check it passed; one that raises says which
check failed, unless a step in front of the rename was made to raise
(`Interrupted`). -/

namespace SupportPilot.Documents

open Lib

/-! ## Faults -/

/-- The step raises before the rename has taken effect or in the transaction. -/
def Step.isEarly : Step → Bool
  | .statFinal | .setTenantContext | .closeUpload => false
  | _ => true

def Interrupted (fault : Fault) : Prop :=
  ∃ step error, fault = some (step, error) ∧ step.isEarly = true

variable {fault : Fault} {session : Session}

@[simp] theorem ends_attempt {step : Step} {Q : Unit → Session → Prop}
    {E : PyError → Session → Prop} :
    Ends (attempt fault step) session Q E ↔
      ((∀ error, fault ≠ some (step, error)) → Q () session) ∧
        ∀ error, fault = some (step, error) → E error session := by
  cases fault with
  | none => simp [attempt]
  | some failing =>
    obtain ⟨failing, error⟩ := failing
    by_cases same : failing = step
    · simp [attempt, same]
    · simp [attempt, same]

@[simp] theorem ends_putObject {key : ObjectKey} {content : Option Bytes}
    {Q : Unit → Session → Prop} {E : PyError → Session → Prop} :
    Ends (putObject key content) session Q E ↔
      Q () { session with objects := Function.update session.objects key content } := Iff.rfl

@[simp] theorem ends_deleteObject {key : ObjectKey} {Q : Unit → Session → Prop}
    {E : PyError → Session → Prop} :
    Ends (deleteObject key) session Q E ↔
      Q () { session with objects := Function.update session.objects key none } := Iff.rfl

theorem interrupted {step : Step} {error : PyError} (fails : fault = some (step, error))
    (early : step.isEarly = true := by rfl) : Interrupted fault :=
  ⟨step, error, fails, early⟩

/-! ## The stream -/

/-- What the reads of a stream deliver: they end at the first empty one. -/
def contentOf (reads : List Bytes) : Bytes := (reads.takeWhile (· ≠ [])).flatten

def Received.of (content : Bytes) : Received :=
  ⟨content.length, content, content.take 8192⟩

theorem Received.of_append (content chunk : Bytes) :
    (⟨(of content).byteSize + chunk.length, (of content).hashed ++ chunk,
      if (of content).prefixBytes.length < 8192 then
        (of content).prefixBytes ++ chunk.take (8192 - (of content).prefixBytes.length)
      else (of content).prefixBytes⟩ : Received) = of (content ++ chunk) := by
  simp only [of, List.length_append, List.take_append, List.length_take, mk.injEq, true_and]
  split
  next short => rw [show min 8192 content.length = content.length by omega]
  next full => simp [show 8192 - content.length = 0 by omega]

/-- The two sessions differ at most in the object of the key. -/
structure SameBut (key : ObjectKey) (session session' : Session) : Prop where
  db : session'.db = session.db
  promotedKey : session'.promotedKey = session.promotedKey
  objects : ∀ other ≠ key, session'.objects other = session.objects other

theorem SameBut.refl (key : ObjectKey) (session : Session) : SameBut key session session :=
  ⟨rfl, rfl, fun _ _ => rfl⟩

theorem SameBut.trans {key : ObjectKey} {first second third : Session}
    (before : SameBut key first second) (behind : SameBut key second third) :
    SameBut key first third :=
  ⟨behind.db.trans before.db, behind.promotedKey.trans before.promotedKey,
    fun other differs => (behind.objects other differs).trans (before.objects other differs)⟩

theorem sameBut_update (key : ObjectKey) (session : Session) (content : Option Bytes) :
    SameBut key session
      { session with objects := Function.update session.objects key content } :=
  ⟨rfl, rfl, fun _ differs => Function.update_of_ne differs ..⟩

section Receiving

variable {service : UploadService} {key : ObjectKey}

/-- The loop writes what it reads, and keeps to the limit. -/
theorem ends_writeChunks (reads : List Bytes) (chunkNumber : Nat) (content : Bytes)
    (stored : session.objects key = some content)
    (fits : content.length ≤ service.settings.maxUploadBytes) :
    Ends (writeChunks fault service key chunkNumber reads (.of content)) session
      (fun received session' => received = .of (content ++ contentOf reads) ∧
        session' = { session with
          objects := Function.update session.objects key (some (content ++ contentOf reads)) } ∧
        (content ++ contentOf reads).length ≤ service.settings.maxUploadBytes)
      (fun _ session' => SameBut key session session' ∧ (Interrupted fault ∨
        service.settings.maxUploadBytes < (content ++ contentOf reads).length)) := by
  have unchanged : session = { session with
      objects := Function.update session.objects key (some content) } := by
    rw [← stored, Function.update_eq_self]
  -- the object holds what has been read so far, which is within the limit
  induction reads generalizing chunkNumber content session with
  | nil =>
    simp only [writeChunks, ends_bind, ends_attempt, ends_pure, contentOf, List.takeWhile_nil,
      List.flatten_nil, List.append_nil]
    exact ⟨fun _ => ⟨trivial, unchanged, fits⟩,
      fun error fails => ⟨.refl key session, .inl (interrupted fails)⟩⟩
  | cons chunk reads ih =>
    rw [writeChunks, ends_bind, ends_attempt]
    refine ⟨fun _ => ?_, fun error fails => ⟨.refl key session, .inl (interrupted fails)⟩⟩
    by_cases last : chunk = []
    · -- the empty chunk ends the stream
      subst last
      simp only [if_true, ends_pure, contentOf]
      simpa using ⟨unchanged, fits⟩
    · have more : contentOf (chunk :: reads) = chunk ++ contentOf reads := by
        simp [contentOf, last]
      simp only [last, if_false, more]
      by_cases tooLong :
          service.settings.maxUploadBytes < (Received.of content).byteSize + chunk.length
      · -- the limit is exceeded, and the object keeps what was written before
        simp only [tooLong, if_true]
        refine ⟨.refl key session, .inr ?_⟩
        simp only [Received.of, List.length_append] at tooLong ⊢
        omega
      · simp only [tooLong, if_false, ends_bind, ends_attempt, ends_modify]
        refine ⟨fun _ => ?_, fun error fails => ⟨.refl key session, .inl (interrupted fails)⟩⟩
        rw [Received.of_append, stored, Option.map_some, ← List.append_assoc]
        have within : (content ++ chunk).length ≤ service.settings.maxUploadBytes := by
          simp only [Received.of, List.length_append] at tooLong ⊢
          omega
        apply (ih (chunkNumber + 1) (content ++ chunk) (Function.update_self ..) within
          (by simp)).mono
        · rintro received session' ⟨rfl, rfl, bounded⟩
          exact ⟨rfl, by simp, bounded⟩
        · rintro error session' ⟨same, reason⟩
          exact ⟨(sameBut_update key session _).trans same, reason⟩

/-- A written object is the whole content of the stream; nothing is left of one
that fails, but by a failing `stat`. -/
theorem ends_writeObject {call : UploadCall} :
    Ends (writeObject fault service call key) session
      (fun received session' => received = .of (contentOf call.reads) ∧
        session' = { session with
          objects := Function.update session.objects key (some (contentOf call.reads)) } ∧
        (contentOf call.reads).length ≤ service.settings.maxUploadBytes)
      (fun _ session' => SameBut key session session' ∧ (Interrupted fault ∨
        (session.objects key).isSome = true ∨
        service.settings.maxUploadBytes < (contentOf call.reads).length)) := by
  simp only [writeObject, ends_bind, ends_attempt, ends_get]
  refine ⟨fun _ => ?_, fun error fails => ⟨.refl key session, .inl (interrupted fails)⟩⟩
  by_cases taken : (session.objects key).isSome = true
  · -- nothing is written to a key that is taken
    simp only [taken, if_true, ends_bind]
    exact ⟨.refl key session, .inr (.inl trivial)⟩
  · simp only [taken, Bool.false_eq_true, if_false, ends_bind, ends_pure, ends_putObject,
      ends_tryCatch, ends_attempt, ends_deleteObject, ends_throw]
    have opened : SameBut key session
        { session with objects := Function.update session.objects key (some []) } :=
      sameBut_update key session _
    apply (ends_writeChunks call.reads 0 [] (Function.update_self ..) (Nat.zero_le _)).mono
    · rintro received session' ⟨rfl, rfl, bounded⟩
      have written : ∀ content, SameBut key session { session with
          objects := Function.update (Function.update session.objects key (some [])) key content } :=
        fun content => opened.trans (sameBut_update key _ content)
      refine ⟨fun _ => ⟨fun _ => ?_, fun error fails => ?_⟩, fun error fails => ?_⟩
      · exact ⟨rfl, by simp, bounded⟩
      · exact ⟨written _, .inl (interrupted fails)⟩
      · exact ⟨(written _).trans (sameBut_update key _ none), .inl (interrupted fails)⟩
    · -- the handler deletes the object and raises again
      rintro error session' ⟨same, reason⟩
      exact ⟨(opened.trans same).trans (sameBut_update key _ none), by tauto⟩

end Receiving

/-! ## The statements -/

section Statements

variable {service : UploadService} {call : UploadCall}

namespace UploadCall

def content (call : UploadCall) : Bytes := contentOf call.reads

def target (db : Database) (document : Document) (isNew : Bool) : Target :=
  ⟨document, isNew, if isNew then 1 else db.maxVersionNumber document.id + 1⟩

/-- The stored result of an earlier call with the key. -/
structure Replays (call : UploadCall) (db : Database) (result : UploadResult) : Prop where
  job : db.jobOfKey call.workspaceId .processDocument call.key = some result.job
  document : ∃ documentId, result.job.payload.documentId = some documentId ∧
    db.document? call.workspaceId documentId = some result.document
  version : ∃ versionId, result.job.payload.documentVersionId = some versionId ∧
    db.version? call.workspaceId versionId = some result.version

end UploadCall

theorem ends_existingResult :
    Ends (existingResult fault call.workspaceId call.key) session
      (fun found session' => session' = session ∧ match found with
        | none => session.db.jobOfKey call.workspaceId .processDocument call.key = none
        | some result => call.Replays session.db result)
      (fun _ session' => session' = session ∧ (Interrupted fault ∨
        session.db.jobOfKey call.workspaceId .processDocument call.key ≠ none)) := by
  simp only [existingResult, ends_bind, ends_attempt, ends_get]
  refine ⟨fun _ => ?_, fun error fails => ⟨trivial, .inl (interrupted fails)⟩⟩
  cases read : session.db.jobOfKey call.workspaceId .processDocument call.key with
  | none => exact ⟨rfl, rfl⟩
  | some job =>
    dsimp only
    -- a job without its document or version is an error, and the key has been seen
    have raising : ∀ error, Ends (throw error : UploadM (Option UploadResult)) session
        (fun found session' => session' = session ∧ match found with
          | none => some job = none
          | some result => call.Replays session.db result)
        (fun _ session' => session' = session ∧ (Interrupted fault ∨ some job ≠ none)) :=
      fun error => ⟨rfl, .inr (Option.some_ne_none job)⟩
    cases documentId : job.payload.documentId with
    | none => exact raising _
    | some documentId' =>
      cases versionId : job.payload.documentVersionId with
      | none => exact raising _
      | some versionId' =>
        dsimp only
        cases document : session.db.document? call.workspaceId documentId' with
        | none => exact raising _
        | some document' =>
          cases version : session.db.version? call.workspaceId versionId' with
          | none => exact raising _
          | some version' =>
            exact ⟨rfl, read, ⟨documentId', documentId, document⟩, ⟨versionId', versionId, version⟩⟩

theorem ends_checkQuota {received : Received} :
    Ends (checkQuota fault service call received) session
      (fun usedBytes session' => session' = session ∧
        usedBytes = session.db.usedBytes call.workspaceId ∧
        usedBytes + received.byteSize ≤ service.settings.maxWorkspaceStorageBytes)
      (fun _ session' => session' = session ∧ (Interrupted fault ∨
        service.settings.maxWorkspaceStorageBytes <
          session.db.usedBytes call.workspaceId + received.byteSize)) := by
  simp only [checkQuota, ends_bind, ends_attempt, ends_get]
  refine ⟨fun _ => ?_, fun error fails => ⟨trivial, .inl (interrupted fails)⟩⟩
  by_cases exceeded : service.settings.maxWorkspaceStorageBytes <
      session.db.usedBytes call.workspaceId + received.byteSize
  · simp only [exceeded, if_true, ends_bind, ends_throw]
    exact ⟨trivial, .inr trivial⟩
  · simp only [exceeded, if_false, ends_pure]
    exact ⟨trivial, trivial, Nat.le_of_not_lt exceeded⟩

theorem ends_nextVersionNumber {document : Document} {isNew : Bool} :
    Ends (nextVersionNumber fault document isNew) session
      (fun target session' => session' = session ∧
        target = UploadCall.target session.db document isNew)
      (fun _ session' => session' = session ∧ Interrupted fault) := by
  rw [nextVersionNumber]
  cases isNew with
  | true => exact ⟨rfl, rfl⟩
  | false =>
    simp only [Bool.false_eq_true, if_false, ends_bind, ends_pure, ends_attempt, ends_get]
    exact ⟨fun _ => ⟨trivial, rfl⟩, fun error fails => ⟨trivial, interrupted fails⟩⟩

/-- What the outer handlers leave. -/
def cleanedUp (call : UploadCall) (error : PyError) (session : Session) : Session :=
  let objects := Function.update session.objects call.stagingKey none
  { session with objects :=
      if error = .integrityError then objects
      else session.promotedKey.elim objects fun key => Function.update objects key none }

theorem ends_cleanUp {α : Type} {error : PyError} :
    Ends (cleanUp call error : UploadM α) session (fun _ _ => False)
      (fun error' session' => session' = cleanedUp call error session ∧
        error' = if error = .integrityError then
          .conflict "document version or idempotency key already exists" else error) := by
  simp only [cleanUp, cleanedUp, ends_bind, ends_deleteObject]
  by_cases conflict : error = .integrityError
  · simp only [conflict, if_true, ends_bind, ends_throw]
    exact ⟨trivial, trivial⟩
  · simp only [conflict, if_false, ends_bind, ends_get]
    cases session.promotedKey with
    | none => exact ⟨rfl, rfl⟩
    | some promotedKey => exact ⟨rfl, rfl⟩

end Statements

/-! ## The file -/

section Files

variable [UnicodeTables] {service : UploadService} {call : UploadCall}

namespace UploadCall

/-- The content passes the checks that look at it alone. -/
structure Accepted (call : UploadCall) (service : UploadService) (mediaType : Text) : Prop where
  small : call.content.length ≤ service.settings.maxUploadBytes
  nonempty : call.content ≠ []
  typed : validateMediaType call.safeFilename call.contentType (call.content.take 8192) =
    .ok mediaType
  clean : service.scan call.content mediaType = .ok ()

/-- The document the version is for, and whether it is a new one. -/
def resolved (call : UploadCall) (db : Database) : Option (Document × Bool) :=
  match call.documentId with
  | none => some (call.newDocument, true)
  | some documentId => ((db.document? call.workspaceId documentId).filter fun document =>
      document.deletedAt = none).map (·, false)

end UploadCall

theorem ends_receiveUpload :
    Ends (receiveUpload fault service call) session
      (fun file session' => file.1 = .of call.content ∧ session' = { session with
          objects := Function.update session.objects call.stagingKey (some call.content) } ∧
        call.Accepted service file.2)
      (fun _ session' => SameBut call.stagingKey session session' ∧ (Interrupted fault ∨
        (session.objects call.stagingKey).isSome = true ∨
        ¬ ∃ mediaType, call.Accepted service mediaType)) := by
  rw [receiveUpload, ends_bind]
  apply ends_writeObject.mono
  · rintro received session' ⟨rfl, rfl, small⟩
    have same : SameBut call.stagingKey session { session with
        objects := Function.update session.objects call.stagingKey (some call.content) } :=
      sameBut_update _ _ _
    -- the object is written; what follows rejects by size, type or scan
    have sized : (Received.of call.content).byteSize = 0 ↔ call.content = [] :=
      List.length_eq_zero_iff
    by_cases empty : call.content = []
    · have zero := sized.mpr empty
      simp only [UploadCall.content] at zero
      simp only [zero, if_true, ends_bind, ends_throw]
      refine ⟨same, .inr (.inr ?_)⟩
      rintro ⟨_, accepted⟩
      exact accepted.nonempty empty
    · have positive := mt sized.mp empty
      simp only [UploadCall.content] at positive
      simp only [positive, if_false, ends_bind, ends_pure, ends_ofExcept, ends_attempt, ends_get,
        Function.update_self, Option.getD_some]
      refine ⟨fun mediaType typed => ⟨fun _ => ⟨fun _ clean => ?_, fun error found => ?_⟩,
        fun error fails => ⟨same, .inl (interrupted fails)⟩⟩, fun error untyped => ?_⟩
      · exact ⟨rfl, rfl, small, empty, typed, clean⟩
      · refine ⟨same, .inr (.inr ?_)⟩
        rintro ⟨other, accepted⟩
        cases accepted.typed.symm.trans typed
        cases accepted.clean.symm.trans found
      · refine ⟨same, .inr (.inr ?_)⟩
        rintro ⟨other, accepted⟩
        cases accepted.typed.symm.trans untyped
  · rintro error session' ⟨same, reason⟩
    refine ⟨same, reason.imp_right (Or.imp_right fun large => ?_)⟩
    rintro ⟨mediaType, accepted⟩
    exact absurd accepted.small (Nat.not_le.mpr large)

theorem ends_resolveDocument :
    Ends (resolveDocument fault call) session
      (fun found session' => session' = session ∧ call.resolved session.db = some found)
      (fun _ session' => session' = session ∧ (Interrupted fault ∨
        call.resolved session.db = none)) := by
  rw [resolveDocument, UploadCall.resolved]
  cases call.documentId with
  | none => exact ⟨rfl, rfl⟩
  | some documentId =>
    simp only [ends_bind, ends_attempt, ends_get]
    refine ⟨fun _ => ?_, fun error fails => ⟨trivial, .inl (interrupted fails)⟩⟩
    cases read : session.db.document? call.workspaceId documentId with
    | none => exact ⟨rfl, .inr rfl⟩
    | some document =>
      by_cases live : document.deletedAt = none
      · simp [live]
      · simp [live]

/-- The session after the rename of an object. -/
def Session.renamed (session : Session) (source destination : ObjectKey) (content : Bytes) :
    Session :=
  { session with objects :=
      Function.update (Function.update session.objects source none) destination (some content) }

theorem ends_promote {target : Target} :
    Ends (promote fault call target) session
      (fun _ session' => (∀ error, fault ≠ some (.statFinal, error)) ∧ ∃ content,
        session.objects call.stagingKey = some content ∧
        session' = { session.renamed call.stagingKey (call.finalKey target.document.id) content with
          promotedKey := some (call.finalKey target.document.id) })
      (fun error session' => (session' = session ∧ (Interrupted fault ∨
          session.objects call.stagingKey = none)) ∨
        fault = some (.statFinal, error) ∧ ∃ content,
          session.objects call.stagingKey = some content ∧
          session' = session.renamed call.stagingKey (call.finalKey target.document.id) content) := by
  simp only [promote, ends_bind, ends_attempt, ends_get]
  refine ⟨fun _ => ?_, fun error fails => .inl ⟨trivial, .inl (interrupted fails)⟩⟩
  cases staged : session.objects call.stagingKey with
  | none => exact .inl ⟨rfl, .inr rfl⟩
  | some content =>
    simp only [ends_bind, ends_putObject, ends_attempt, ends_modify]
    exact ⟨fun passes => ⟨passes, content, rfl, rfl⟩,
      fun error fails => .inr ⟨fails, content, rfl, rfl⟩⟩

end Files

/-! ## The rows -/

/-- The tables with the rows of an upload. -/
def added (db : Database) (target : Target) (version : DocumentVersion) (job : Job) : Database :=
  { db with
    documents := db.documents ++ if target.isNew then [target.document] else []
    versions := db.versions ++ [version]
    jobs := db.jobs ++ [job] }

/-- The rows of an upload meet every constraint. -/
structure UploadFits (db : Database) (target : Target) (version : DocumentVersion) (job : Job) :
    Prop where
  document : target.isNew = true →
    Table.lookup db.documents target.document.id = none ∧ target.document.displayName ≠ []
  version : Database.VersionFits
    { db with documents := (added db target version job).documents } version
  job : Database.JobFits db.jobs job

theorem flushUpload_ok {db db' : Database} {target : Target} {version : DocumentVersion}
    {job : Job} : flushUpload db target version job = .ok db' ↔
      UploadFits db target version job ∧ db' = added db target version job := by
  cases isNew : target.isNew with
  | true =>
    simp only [flushUpload, isNew, if_true, bind_eq_ok, Database.insertDocument_ok,
      Database.insertVersion_ok, Database.insertJob_ok]
    constructor
    · rintro ⟨_, ⟨document, rfl⟩, _, ⟨version, rfl⟩, job, rfl⟩
      exact ⟨⟨fun _ => document, by simpa [added, isNew] using version, job⟩, by simp [added, isNew]⟩
    · rintro ⟨fits, rfl⟩
      have version := fits.version
      simp only [added, isNew, if_true] at version ⊢
      exact ⟨_, ⟨fits.document isNew, rfl⟩, _, ⟨version, rfl⟩, fits.job, rfl⟩
  | false =>
    simp only [flushUpload, isNew, Bool.false_eq_true, if_false, bind_eq_ok, pure, Except.pure,
      Except.ok.injEq, Database.insertVersion_ok, Database.insertJob_ok]
    constructor
    · rintro ⟨_, rfl, _, ⟨version, rfl⟩, job, rfl⟩
      exact ⟨⟨by simp [isNew], by simpa [added, isNew] using version, job⟩, by simp [added, isNew]⟩
    · rintro ⟨fits, rfl⟩
      have version := fits.version
      simp only [added, isNew, Bool.false_eq_true, if_false, List.append_nil] at version ⊢
      exact ⟨_, rfl, _, ⟨version, rfl⟩, fits.job, rfl⟩

section Rows

variable [Sha256] {service : UploadService} {call : UploadCall}

/-- The document has a version with this content. -/
def UploadCall.duplicate (call : UploadCall) (db : Database) (documentId : UUID) : Bool :=
  db.versions.any fun version => version.workspaceId = call.workspaceId &&
    version.documentId = documentId && version.sha256 = Sha256.hexdigest call.content

theorem ends_checkDuplicate {target : Target} :
    Ends (checkDuplicate fault call (.of call.content) target) session
      (fun _ session' => session' = session ∧
        call.duplicate session.db target.document.id = false)
      (fun _ session' => session' = session ∧ (Interrupted fault ∨
        call.duplicate session.db target.document.id = true)) := by
  simp only [checkDuplicate, ends_bind, ends_attempt, ends_get, ends_ite, ends_throw, ends_pure,
    Bool.not_eq_true]
  exact ⟨fun _ => ⟨fun found => ⟨trivial, .inr found⟩, fun distinct => ⟨trivial, distinct⟩⟩,
    fun error fails => ⟨trivial, .inl (interrupted fails)⟩⟩

theorem ends_persist [UnicodeTables] {received : Received} {mediaType : Text} {target : Target} :
    Ends (persist fault service call received mediaType target) session
      (fun result session' => ∃ db, flushUpload session.db target
          (newVersion call received mediaType target) (newJob service call target) = .ok db ∧
        result = ⟨target.document, newVersion call received mediaType target,
          newJob service call target⟩ ∧ session' = { session with db := db })
      (fun _ session' => session' = { session with
          objects := Function.update session.objects (call.finalKey target.document.id) none,
          promotedKey := none } ∧
        (Interrupted fault ∨ (flushUpload session.db target
          (newVersion call received mediaType target) (newJob service call target)).isOk = false)) := by
  simp only [persist, ends_bind, ends_tryCatch, ends_attempt, ends_get, ends_ofExcept, ends_modify,
    ends_deleteObject, ends_throw, ends_pure]
  refine ⟨fun _ => ⟨fun db flushed => ⟨fun _ => ⟨db, flushed, trivial, rfl⟩, fun error fails => ?_⟩,
    fun error conflict => ?_⟩, fun error fails => ?_⟩
  · exact ⟨trivial, .inl (interrupted fails)⟩
  · exact ⟨trivial, .inr (by rw [conflict]; rfl)⟩
  · exact ⟨trivial, .inl (interrupted fails)⟩

end Rows

end SupportPilot.Documents
