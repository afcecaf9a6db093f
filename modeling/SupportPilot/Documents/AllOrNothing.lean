import SupportPilot.Documents.Stages

/-! # Uploads and the two stores

An upload should leave either its rows and its object or nothing.
`allOrNothing_iff` says when it does, for every call, every starting state and
every step that may raise.  It fails in two places only: a `move` that raises
after its rename leaves the object behind, as `promoted_key` is not yet set, and
an exception after the commit removes the object of the committed version. -/

namespace SupportPilot.Documents

open Lib

variable [UnicodeTables] [Sha256] {fault : Fault} {service : UploadService} {call : UploadCall}
  {db : Database} {objects : ObjectKey → Option Bytes}

/-- The keys that only this call uses. -/
def UploadCall.Owns (call : UploadCall) (key : ObjectKey) : Prop :=
  key = call.stagingKey ∨ ∃ documentId, key = call.finalKey documentId

/-- The rows are committed, and the object of the version holds the upload. -/
def Committed (call : UploadCall) (before : Database) (after : Session) : Prop :=
  ∃ target version job, after.db = added before target version job ∧
    version.id = call.versionId ∧ version.documentId = target.document.id ∧
    job.payload = ⟨some target.document.id, some version.id⟩ ∧
    after.objects version.objectKey = some call.content

/-- No row was added, and no object of the call remains. -/
def Nothing (call : UploadCall) (before : Database) (after : Session) : Prop :=
  after.db = before ∧ ∀ key, call.Owns key → after.objects key = none

def AllOrNothing (call : UploadCall) (before : Database) (after : Session) : Prop :=
  Committed call before after ∨ Nothing call before after

/-! ## The condition -/

/-- The checks up to the rename accept the call. -/
structure Admitted (service : UploadService) (call : UploadCall) (db : Database)
    (mediaType : Text) (document : Document) (isNew : Bool) : Prop where
  key : call.key ≠ [] ∧ call.key.length ≤ 255
  unseen : db.jobOfKey call.workspaceId .processDocument call.key = none
  accepted : call.Accepted service mediaType
  quota : db.usedBytes call.workspaceId + call.content.length ≤
    service.settings.maxWorkspaceStorageBytes
  resolved : call.resolved db = some (document, isNew)
  distinct : call.duplicate db document.id = false

/-- The row that is inserted for the call. -/
def UploadCall.versionRow (call : UploadCall) (db : Database) (mediaType : Text)
    (document : Document) (isNew : Bool) : DocumentVersion :=
  newVersion call (.of call.content) mediaType (UploadCall.target db document isNew)

/-- The constraints accept the rows. -/
def Insertable (service : UploadService) (call : UploadCall) (db : Database) (mediaType : Text)
    (document : Document) (isNew : Bool) : Prop :=
  UploadFits db (UploadCall.target db document isNew) (call.versionRow db mediaType document isNew)
    (newJob service call (UploadCall.target db document isNew))

/-- An accepted call raises between the rename and the assignment of
`promoted_key`, or after the commit. -/
def RaisesLate (fault : Fault) (service : UploadService) (call : UploadCall) (db : Database) :
    Prop :=
  ∃ mediaType document isNew error, Admitted service call db mediaType document isNew ∧
    (fault = some (.statFinal, error) ∨
      Insertable service call db mediaType document isNew ∧
        fault = some (.setTenantContext, error) ∧ error ≠ .integrityError)

theorem Admitted.unique {mediaType mediaType' : Text} {document document' : Document}
    {isNew isNew' : Bool} (first : Admitted service call db mediaType document isNew)
    (second : Admitted service call db mediaType' document' isNew') :
    mediaType = mediaType' ∧ document = document' ∧ isNew = isNew' := by
  have types := first.accepted.typed.symm.trans second.accepted.typed
  have targets := first.resolved.symm.trans second.resolved
  simp only [Except.ok.injEq, Option.some.injEq, Prod.mk.injEq] at types targets
  exact ⟨types, targets⟩

theorem not_raisesLate_of_interrupted (early : Interrupted fault) :
    ¬ RaisesLate fault service call db := by
  obtain ⟨step, error, fails, isEarly⟩ := early
  rintro ⟨_, _, _, _, -, late | ⟨-, late, -⟩⟩
  all_goals
    cases fails.symm.trans late
    cases isEarly

theorem not_raisesLate_of_rejected
    (rejected : ∀ mediaType document isNew, ¬ Admitted service call db mediaType document isNew) :
    ¬ RaisesLate fault service call db := by
  rintro ⟨_, _, _, _, admitted, -⟩
  exact rejected _ _ _ admitted

/-! ## The body of the upload -/

/-- How the body of the outer `try` can raise. -/
inductive Raised (fault : Fault) (service : UploadService) (call : UploadCall) (db : Database)
    (error : PyError) (after : Session) : Prop
  /-- Only the staged object may be left. -/
  | early : after.db = db → after.promotedKey = none →
      (∀ documentId, after.objects (call.finalKey documentId) = none) →
      ¬ RaisesLate fault service call db → Raised fault service call db error after
  | renamed (documentId : UUID) : after.db = db → after.promotedKey = none →
      after.objects (call.finalKey documentId) ≠ none →
      RaisesLate fault service call db → Raised fault service call db error after
  | committed : Committed call db after →
      (∀ version ∈ after.db.versions, version.id = call.versionId →
        after.promotedKey = some version.objectKey ∧ version.objectKey ≠ call.stagingKey) →
      (RaisesLate fault service call db ↔ error ≠ .integrityError) →
      Raised fault service call db error after

omit [Sha256] in
theorem staging_ne_final (documentId : UUID) : call.stagingKey ≠ call.finalKey documentId := nofun

/-- Before the rename a call that raises leaves at most its staged object. -/
theorem raised_early {session : Session} {error : PyError}
    (same : SameBut call.stagingKey ⟨db, objects, none⟩ session)
    (unused : ∀ key, call.Owns key → objects key = none)
    (reason : Interrupted fault ∨
      ∀ mediaType document isNew, ¬ Admitted service call db mediaType document isNew) :
    Raised fault service call db error session := by
  apply Raised.early same.db same.promotedKey
  · intro documentId
    rw [same.objects _ (staging_ne_final documentId).symm]
    exact unused _ (.inr ⟨documentId, rfl⟩)
  · exact reason.elim not_raisesLate_of_interrupted not_raisesLate_of_rejected

/-- A call that gets past the rename raises late only behind its commit. -/
theorem RaisesLate.committed {mediaType : Text} {document : Document} {isNew : Bool}
    (late : RaisesLate fault service call db)
    (admitted : Admitted service call db mediaType document isNew)
    (passes : ∀ error, fault ≠ some (.statFinal, error)) :
    Insertable service call db mediaType document isNew ∧
      ∃ error, fault = some (.setTenantContext, error) ∧ error ≠ .integrityError := by
  obtain ⟨mediaType', document', isNew', error, admitted', fails | ⟨insertable, fails⟩⟩ := late
  · exact absurd fails (passes error)
  · obtain ⟨rfl, rfl, rfl⟩ := admitted.unique admitted'
    exact ⟨insertable, error, fails⟩

/-- From the rename on. -/
theorem ends_publish {mediaType : Text} {document : Document} {isNew : Bool}
    (admitted : Admitted service call db mediaType document isNew)
    (unused : ∀ key, call.Owns key → objects key = none) :
    Ends (do
        promote fault call (UploadCall.target db document isNew)
        let result ← persist fault service call (.of call.content) mediaType
          (UploadCall.target db document isNew)
        setTenantContext fault
        return result)
      ⟨db, Function.update objects call.stagingKey (some call.content), none⟩
      (fun _ after => Committed call db after ∧ ¬ RaisesLate fault service call db)
      (fun error after => Raised fault service call db error after) := by
  rw [ends_bind]
  apply ends_promote.mono
  · rintro - session ⟨passes, content, found, rfl⟩
    simp only [Function.update_self, Option.some.injEq] at found
    subst found
    rw [ends_bind]
    apply ends_persist.mono
    · rintro result session ⟨db', flushed, rfl, rfl⟩
      -- the rows are committed; only the tenant context can still fail
      obtain ⟨fits, rfl⟩ := flushUpload_ok.1 flushed
      have committed : Committed call db
          ⟨added db (UploadCall.target db document isNew)
              (call.versionRow db mediaType document isNew)
              (newJob service call (UploadCall.target db document isNew)),
            Function.update (Function.update (Function.update objects call.stagingKey
              (some call.content)) call.stagingKey none) (call.finalKey document.id)
              (some call.content), some (call.finalKey document.id)⟩ :=
        ⟨_, _, _, rfl, rfl, rfl, rfl, Function.update_self ..⟩
      rw [ends_bind, setTenantContext, ends_attempt]
      refine ⟨fun stays => ⟨committed, fun late => ?_⟩, fun error fails => .committed committed ?_ ?_⟩
      · obtain ⟨-, error, fails, -⟩ := late.committed admitted passes
        exact stays error fails
      · rintro version member id
        obtain before | rfl := List.mem_append.mp member |>.imp_right List.mem_singleton.mp
        · exact absurd id (Table.lookup_eq_none.1 fits.version.id version before)
        · exact ⟨rfl, (staging_ne_final document.id).symm⟩
      · constructor
        · intro late
          obtain ⟨-, error', fails', foreign⟩ := late.committed admitted passes
          cases fails.symm.trans fails'
          exact foreign
        · intro foreign
          exact ⟨_, _, _, error, admitted, .inr ⟨fits, fails, foreign⟩⟩
    · rintro error session ⟨rfl, reason⟩
      -- the transaction failed and the promoted file was removed again
      refine Raised.early rfl rfl ?_ ?_
      · intro documentId
        by_cases same : documentId = document.id
        · subst same
          exact Function.update_self ..
        · have differs : call.finalKey documentId ≠ call.finalKey document.id := by
            simp [UploadCall.finalKey, same]
          have unstaged : call.finalKey documentId ≠ call.stagingKey :=
            (staging_ne_final documentId).symm
          simp only [UploadCall.target, Session.renamed, Function.update_of_ne differs,
            Function.update_of_ne unstaged]
          exact unused _ (.inr ⟨documentId, rfl⟩)
      · obtain early | conflict := reason
        · exact not_raisesLate_of_interrupted early
        · intro late
          have fits := (late.committed admitted passes).1
          have inserted := flushUpload_ok.2 ⟨fits, rfl⟩
          cases conflict.symm.trans (congrArg Except.isOk inserted)
  · rintro error session (⟨rfl, reason⟩ | ⟨fails, content, found, rfl⟩)
    · apply raised_early (sameBut_update _ _ _) unused
      refine .inl (reason.resolve_right ?_)
      simp
    · refine Raised.renamed document.id rfl rfl ?_ ?_
      · exact ne_of_eq_of_ne (Function.update_self ..) (Option.some_ne_none content)
      · exact ⟨_, _, _, error, admitted, .inl fails⟩

theorem ends_storeUpload (key : call.key ≠ [] ∧ call.key.length ≤ 255)
    (unseen : db.jobOfKey call.workspaceId .processDocument call.key = none)
    (unused : ∀ key, call.Owns key → objects key = none) :
    Ends (storeUpload fault service call) ⟨db, objects, none⟩
      (fun _ after => Committed call db after ∧ ¬ RaisesLate fault service call db)
      (fun error after => Raised fault service call db error after) := by
  have absent : objects call.stagingKey = none := unused _ (.inl rfl)
  have staged : SameBut call.stagingKey ⟨db, objects, none⟩
      ⟨db, Function.update objects call.stagingKey (some call.content), none⟩ :=
    sameBut_update _ _ _
  -- a step that raises leaves the staged object at most, so only what comes after it matters
  rw [storeUpload, ends_bind]
  apply ends_receiveUpload.mono
  · rintro ⟨received, mediaType⟩ session ⟨rfl, rfl, accepted⟩
    dsimp only at accepted ⊢
    rw [ends_bind]
    apply ends_checkQuota.mono
    · rintro usedBytes session ⟨rfl, rfl, quota⟩
      rw [ends_bind]
      apply ends_resolveDocument.mono
      · rintro ⟨document, isNew⟩ session ⟨rfl, resolved⟩
        rw [ends_bind]
        apply ends_nextVersionNumber.mono
        · rintro target session ⟨rfl, rfl⟩
          rw [ends_bind]
          apply ends_checkDuplicate.mono
          · rintro - session ⟨rfl, distinct⟩
            exact ends_publish ⟨key, unseen, accepted, quota, resolved, distinct⟩ unused
          · rintro error session ⟨rfl, reason⟩
            apply raised_early staged unused
            -- an upload that is admitted would have got past the check
            refine reason.imp_right fun duplicate mediaType' document' isNew' admitted => ?_
            cases resolved.symm.trans admitted.resolved
            exact absurd (admitted.distinct.symm.trans duplicate) nofun
        · rintro error session ⟨rfl, reason⟩
          exact raised_early staged unused (.inl reason)
      · rintro error session ⟨rfl, reason⟩
        apply raised_early staged unused
        refine reason.imp_right fun missing mediaType' document' isNew' admitted => ?_
        cases missing.symm.trans admitted.resolved
    · rintro error session ⟨rfl, reason⟩
      apply raised_early staged unused
      refine reason.imp_right fun exceeded mediaType' document' isNew' admitted => ?_
      exact absurd admitted.quota (Nat.not_le.mpr exceeded)
  · rintro error session ⟨same, reason⟩
    apply raised_early same unused
    refine reason.imp_right fun failed mediaType' document' isNew' admitted => ?_
    obtain taken | rejected := failed
    · simp [absent] at taken
    · exact rejected ⟨mediaType', admitted.accepted⟩

/-! ## The handlers -/

omit [UnicodeTables] [Sha256] in
theorem Committed.changes {after : Session} (committed : Committed call db after) :
    after.db ≠ db := by
  obtain ⟨target, version, job, written, -⟩ := committed
  intro same
  have lengths := congrArg (fun tables => tables.versions.length) (same.symm.trans written)
  simp [added] at lengths

theorem allOrNothing_of_raised {error : PyError} {session : Session}
    (raised : Raised fault service call db error session) :
    AllOrNothing call db (cleanedUp call error session) ↔ ¬ RaisesLate fault service call db := by
  cases raised with
  | early sameDb unpromoted finals stays =>
    refine iff_of_true (.inr ⟨sameDb, ?_⟩) stays
    simp only [cleanedUp, unpromoted, Option.elim_none, ite_self]
    rintro key (rfl | ⟨documentId, rfl⟩)
    · exact Function.update_self ..
    · exact (Function.update_of_ne (staging_ne_final documentId).symm ..).trans (finals documentId)
  | renamed documentId sameDb unpromoted left late =>
    refine iff_of_false ?_ (not_not.mpr late)
    rintro (committed | ⟨-, none⟩)
    · exact committed.changes sameDb
    · apply left
      rw [← none _ (.inr ⟨documentId, rfl⟩)]
      simp only [cleanedUp, unpromoted, Option.elim_none, ite_self]
      exact (Function.update_of_ne (staging_ne_final documentId).symm ..).symm
  | committed committed promoted late =>
    rw [late, not_not]
    constructor
    · rintro (kept | nothing)
      · by_contra foreign
        obtain ⟨target, version, job, written, id, -, -, object⟩ := kept
        have member : version ∈ session.db.versions := by
          have same : session.db = added db target version job := written
          rw [same]
          exact List.mem_append_right _ (List.mem_singleton_self version)
        -- the clean-up removes the object of the committed row
        simp only [cleanedUp, if_neg foreign, (promoted version member id).1, Option.elim_some,
          Function.update_self, reduceCtorEq] at object
      · exact absurd nothing.1 committed.changes
    · rintro rfl
      obtain ⟨target, version, job, written, id, document, payload, object⟩ := committed
      refine .inl ⟨target, version, job, written, id, document, payload, ?_⟩
      simp only [cleanedUp, if_true]
      have member : version ∈ session.db.versions := by
        rw [written]
        exact List.mem_append_right _ (List.mem_singleton_self version)
      exact (Function.update_of_ne (promoted version member id).2 ..).trans object

/-- An upload is all or nothing unless it raises late. -/
theorem allOrNothing_iff (unused : ∀ key, call.Owns key → objects key = none) :
    Ends (uploadDocumentVersion fault service call) ⟨db, objects, none⟩
      (fun _ after => AllOrNothing call db after ↔ ¬ RaisesLate fault service call db)
      (fun _ after => AllOrNothing call db after ↔ ¬ RaisesLate fault service call db) := by
  -- before the staging nothing is written, and an upload that is rejected there is not late
  have untouched : ∀ after : Session, after = ⟨db, objects, none⟩ →
      (∀ mediaType document isNew, ¬ Admitted service call db mediaType document isNew) →
      (AllOrNothing call db after ↔ ¬ RaisesLate fault service call db) := by
    rintro _ rfl rejected
    exact iff_of_true (.inr ⟨rfl, unused⟩) (not_raisesLate_of_rejected rejected)
  rw [uploadDocumentVersion, checkKey, ends_bind, ends_require]
  refine ⟨fun valid => ?_, fun invalid => ?_⟩
  · rw [ends_bind]
    apply ends_existingResult.mono
    · rintro found session ⟨rfl, existing⟩
      cases found with
      | some result =>
        apply untouched _ rfl
        intro mediaType document isNew admitted
        cases admitted.unseen.symm.trans existing.job
      | none =>
        simp only [closingUpload, ends_bind, ends_tryCatch, ends_attempt, ends_throw, ends_pure]
        -- the key is new, so the upload runs, and cleans up when it raises
        apply (ends_storeUpload valid existing unused).mono
        · rintro result after ⟨committed, stays⟩
          have holds : AllOrNothing call db after ↔ ¬ RaisesLate fault service call db :=
            iff_of_true (.inl committed) stays
          exact ⟨fun _ => holds, fun _ _ => holds⟩
        · rintro error after raised
          apply ends_cleanUp.mono
          · exact fun _ _ => False.elim
          · rintro error' session ⟨rfl, -⟩
            exact ⟨fun _ => allOrNothing_of_raised raised, fun _ _ => allOrNothing_of_raised raised⟩
    · rintro error session ⟨rfl, reason⟩
      obtain early | seen := reason
      · exact iff_of_true (.inr ⟨rfl, unused⟩) (not_raisesLate_of_interrupted early)
      · exact untouched _ rfl fun _ _ _ admitted => seen admitted.unseen
  · exact untouched _ rfl fun _ _ _ admitted => invalid admitted.key

/-- An upload of the letter `a`, as a new document. -/
def letterCall : UploadCall where
  workspaceId := 1
  userId := 2
  filename := some "a.txt".toList
  contentType := some "text/plain".toList
  reads := [[0x61], []]
  idempotencyKey := "first".toList
  documentId := none
  displayName := none
  stagingId := 3
  newDocumentId := 4
  versionId := 5
  jobId := 6
  now := 0

def letterService : UploadService where
  settings := ⟨1024, 1024, 5, Nat.le_add_left 1 4⟩
  scan := fun _ _ => .ok ()

omit [UnicodeTables] [Sha256] in
theorem allOrNothing_iff_letter :
    Ends (@uploadDocumentVersion asciiTables letterSha256 none letterService letterCall)
      ⟨.empty, fun _ => none, none⟩
      (fun _ after => @AllOrNothing asciiTables letterCall .empty after ↔
        ¬ @RaisesLate asciiTables letterSha256 none letterService letterCall .empty)
      (fun _ after => @AllOrNothing asciiTables letterCall .empty after ↔
        ¬ @RaisesLate asciiTables letterSha256 none letterService letterCall .empty) :=
  @allOrNothing_iff asciiTables letterSha256 none letterService letterCall .empty (fun _ => none)
    fun _ _ => rfl

omit [UnicodeTables] [Sha256] in
/-- The `stat` behind the rename fails: the object stays, and no row names it. -/
theorem failed_stat_leaves_object :
    ¬ Ends (@uploadDocumentVersion asciiTables letterSha256 (some (.statFinal, .other 5))
        letterService letterCall) ⟨.empty, fun _ => none, none⟩
      (fun _ after => @AllOrNothing asciiTables letterCall .empty after)
      (fun _ after => @AllOrNothing asciiTables letterCall .empty after) := by
  rintro (committed | ⟨-, none⟩)
  · exact committed.changes rfl
  · exact absurd (none _ (.inr ⟨4, rfl⟩)) nofun

end SupportPilot.Documents
