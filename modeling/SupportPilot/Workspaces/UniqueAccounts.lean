import SupportPilot.Security.Chains
import SupportPilot.Workspaces.Registration

/-! # One account for an email and a slug

`Change` lists what one step can do.  Each of the four tables is a store of `Inserts`, from which
uniqueness and the rows of every state follow, whatever the order of the statements.  Only the error
of a lost race depends on it: a request that is late at its first flush ends with the driver's
`IntegrityError`, which no `except` clause of `register` sees. -/

namespace SupportPilot.Registration

open Lib Table Schemas
open Security (TokenCodec sampleCodec)
open Workspaces (RequestId)

section Interleavings

variable [UnicodeTables] [TokenCodec] {refreshTokenDays : Nat} {requests : RequestId → Request}

/-! ## Steps -/

section Steps

variable (refreshTokenDays requests)

/-- Everything one step can do. -/
inductive Change (s : State) (event : Event) : State → Prop
  | read {phase : Phase} (before : s.phases event.request = .idle)
      (after : phase = .checked ∨ ∃ message, phase = .raised (.conflict message)) :
      Change s event (s.enter event.request phase)
  | insertUser (before : s.phases event.request = .checked)
      (isFree : s.users.free event.request (Row.key (requests event.request).user) = true)
      (isNew : s.users.taken (Row.key (requests event.request).user) = false) :
      Change s event { s.enter event.request .userFlushed with
        users := s.users.write event.request (requests event.request).user }
  | insertRest (before : s.phases event.request = .userFlushed)
      (named : Column.workspaceName.check (requests event.request).workspace.name = true)
      (isFree : flushFree refreshTokenDays requests s event.request = true)
      (newSlug : s.workspaces.taken (Row.key (requests event.request).workspace) = false)
      (newMembership : s.memberships.taken (Row.key (requests event.request).membership) = false)
      (newSession : s.refreshSessions.taken
        (Row.key ((requests event.request).refreshSession refreshTokenDays)) = false) :
      Change s event { s.enter event.request .flushed with
        workspaces := s.workspaces.write event.request (requests event.request).workspace
        memberships := s.memberships.write event.request (requests event.request).membership
        refreshSessions := s.refreshSessions.write event.request
          ((requests event.request).refreshSession refreshTokenDays) }
  | commit (before : s.phases event.request = .flushed) : Change s event (s.commit event.request)
  | late (before : s.phases event.request = .checked) (late : emailFree requests s event = false) :
      Change s event (s.rollback event.request (.raised .integrityError))
  | refuse {message : String} (before : s.phases event.request = .userFlushed) :
      Change s event (s.rollback event.request (.raised (.conflict message)))
  | cancel (running : (s.phases event.request).ended = false) :
      Change s event (s.rollback event.request .cancelled)

end Steps

variable {s t : State} {event : Event}

omit [TokenCodec] in
theorem emailFree_flushUser {r : RequestId} : emailFree requests s ⟨r, .flushUser⟩ =
    !s.users.taken (Row.key (requests r).user) := rfl

omit [UnicodeTables] in
theorem flush_eq_some {r : RequestId} (flushed : flush refreshTokenDays requests s r = some t) :
    Column.workspaceName.check (requests r).workspace.name = true ∧
      s.workspaces.taken (Row.key (requests r).workspace) = false ∧
      s.memberships.taken (Row.key (requests r).membership) = false ∧
      s.refreshSessions.taken (Row.key ((requests r).refreshSession refreshTokenDays)) = false ∧
      t = { s.enter r .flushed with
        workspaces := s.workspaces.write r (requests r).workspace
        memberships := s.memberships.write r (requests r).membership
        refreshSessions := s.refreshSessions.write r
          ((requests r).refreshSession refreshTokenDays) } := by
  simp only [flush] at flushed
  split at flushed
  next named =>
    simp only [Option.bind_eq_bind, Option.bind_eq_some_iff, Store.insert_eq_some] at flushed
    obtain ⟨_, ⟨newSlug, rfl⟩, _, ⟨newMembership, rfl⟩, _, ⟨newSession, rfl⟩, same⟩ := flushed
    exact ⟨named, newSlug, newMembership, newSession, (Option.some.inj same).symm⟩
  next => cases flushed

theorem change_of_next (taken : stepOf (next refreshTokenDays requests) s event t) :
    Change refreshTokenDays requests s event t := by
  obtain ⟨r, statement⟩ := event
  simp only [stepOf, next] at taken
  split at taken
  next _ _ idle =>
    cases taken
    refine .read idle ?_
    split
    · exact .inr ⟨_, rfl⟩
    · exact .inl rfl
  next _ _ checked =>
    split at taken
    next isFree =>
      split at taken
      next users inserted =>
        cases taken
        obtain ⟨isNew, rfl⟩ := Store.insert_eq_some.1 inserted
        exact .insertUser checked isFree isNew
      -- the email has been taken since it was looked up
      next refused =>
        cases taken
        refine .late checked ?_
        rw [emailFree_flushUser, Store.insert_eq_none.1 refused]
        rfl
    next => cases taken
  next _ _ userFlushed =>
    split at taken
    next isFree =>
      split at taken
      next flushed =>
        cases taken
        obtain ⟨named, newSlug, newMembership, newSession, rfl⟩ := flush_eq_some flushed
        exact .insertRest userFlushed named isFree newSlug newMembership newSession
      next =>
        cases taken
        exact .refuse userFlushed
    next => cases taken
  next _ _ flushed =>
    cases taken
    exact .commit flushed
  next =>
    split at taken
    · cases taken
    next running =>
      cases taken
      exact .cancel (Bool.eq_false_iff.mpr running)
  next => cases taken

/-! ## Phases -/

/-- A step moves its request only, and one that has not ended. -/
theorem Change.phases (change : Change refreshTokenDays requests s event t) :
    (s.phases event.request).ended = false ∧
      ∃ phase, t.phases = Function.update s.phases event.request phase := by
  cases change with
  | read before after => exact ⟨by rw [before]; rfl, _, rfl⟩
  | insertUser before isFree isNew => exact ⟨by rw [before]; rfl, _, rfl⟩
  | insertRest before => exact ⟨by rw [before]; rfl, _, rfl⟩
  | commit before => exact ⟨by rw [before]; rfl, _, rfl⟩
  | late before late => exact ⟨by rw [before]; rfl, _, rfl⟩
  | refuse before => exact ⟨by rw [before]; rfl, _, rfl⟩
  | cancel running => exact ⟨running, _, rfl⟩

/-- A request that has ended stays as it is. -/
theorem Change.phases_of_ended (change : Change refreshTokenDays requests s event t)
    {r : RequestId} (ended : (s.phases r).ended = true) : t.phases r = s.phases r := by
  obtain ⟨running, phase, moved⟩ := change.phases
  have differ : r ≠ event.request := by
    rintro rfl
    rw [ended] at running
    cases running
  rw [moved, Function.update_of_ne differ]

theorem run_phases_of_ended {events : List Event}
    (run : Run (stepOf (next refreshTokenDays requests)) s events t) {r : RequestId}
    (ended : (s.phases r).ended = true) : t.phases r = s.phases r := by
  induction run with
  | nil => rfl
  | cons taken _ ih =>
    have same := (change_of_next taken).phases_of_ended ended
    rw [ih (by rw [same]; exact ended), same]

/-! ## Tables -/

section Tables

variable (refreshTokenDays requests) {database : Database} {done : List RequestId}

structure Inv (database : Database) (s : State) (done : List RequestId) : Prop where
  users : Inserts database.users (fun r => (requests r).user) s.users
    (fun r => (s.phases r).userOpen) done
  workspaces : Inserts database.workspaces (fun r => (requests r).workspace) s.workspaces
    (fun r => (s.phases r).allOpen) done
  memberships : Inserts database.memberships (fun r => (requests r).membership) s.memberships
    (fun r => (s.phases r).allOpen) done
  refreshSessions : Inserts database.refreshSessions
    (fun r => (requests r).refreshSession refreshTokenDays) s.refreshSessions
    (fun r => (s.phases r).allOpen) done
  nodup : done.Nodup
  returned : ∀ r, r ∈ done ↔ s.phases r = .returned

theorem inv_start (database : Database) :
    Inv refreshTokenDays requests database (.start database) [] where
  users := .start database.emails fun _ => rfl
  workspaces := .start database.slugs fun _ => rfl
  memberships := .start database.membershipIds fun _ => rfl
  refreshSessions := .start database.sessionIds fun _ => rfl
  nodup := List.nodup_nil
  returned r := by simp [State.start]

variable {refreshTokenDays requests} {r : RequestId} {phase : Phase}

omit [UnicodeTables] [TokenCodec] in
theorem opens_self (opens : Phase → Bool) :
    opens (Function.update s.phases r phase r) = opens phase := by
  rw [Function.update_self]

omit [UnicodeTables] [TokenCodec] in
theorem opens_of_ne (opens : Phase → Bool) (other : RequestId) (differ : other ≠ r) :
    opens (Function.update s.phases r phase other) = opens (s.phases other) := by
  rw [Function.update_of_ne differ]

omit [UnicodeTables] [TokenCodec] in
theorem opens_of_same {opens : Phase → Bool} (same : opens phase = opens (s.phases r))
    (other : RequestId) :
    opens (Function.update s.phases r phase other) = opens (s.phases other) := by
  by_cases isRequest : other = r
  · rw [isRequest, Function.update_self, same]
  · exact opens_of_ne opens other isRequest

/-- Nobody returns where a request goes to another phase. -/
theorem Inv.returned_of_ne (inv : Inv refreshTokenDays requests database s done)
    (before : s.phases r ≠ .returned) (after : phase ≠ .returned) (other : RequestId) :
    other ∈ done ↔ Function.update s.phases r phase other = .returned := by
  by_cases same : other = r
  · rw [same, Function.update_self]
    exact iff_of_false (fun member => before ((inv.returned r).mp member)) after
  · rw [Function.update_of_ne same]
    exact inv.returned other

omit [UnicodeTables] [TokenCodec] in
theorem ne_returned (running : phase.ended = false) : phase ≠ .returned := by
  rintro rfl
  cases running

theorem Inv.rollback (inv : Inv refreshTokenDays requests database s done)
    (running : (s.phases r).ended = false) (after : phase ≠ .returned)
    (user : phase.userOpen = false) (all : phase.allOpen = false) :
    Inv refreshTokenDays requests database (s.rollback r phase) done where
  users := inv.users.rollback ((opens_self _).trans user) (opens_of_ne _)
  workspaces := inv.workspaces.rollback ((opens_self _).trans all) (opens_of_ne _)
  memberships := inv.memberships.rollback ((opens_self _).trans all) (opens_of_ne _)
  refreshSessions := inv.refreshSessions.rollback ((opens_self _).trans all) (opens_of_ne _)
  nodup := inv.nodup
  returned := inv.returned_of_ne (ne_returned running) after

/-- The request goes to a phase without other rows. -/
theorem Inv.enter (inv : Inv refreshTokenDays requests database s done)
    (running : (s.phases r).ended = false) (after : phase ≠ .returned)
    (user : phase.userOpen = (s.phases r).userOpen) (all : phase.allOpen = (s.phases r).allOpen) :
    Inv refreshTokenDays requests database (s.enter r phase) done where
  users := inv.users.keep (opens_of_same user)
  workspaces := inv.workspaces.keep (opens_of_same all)
  memberships := inv.memberships.keep (opens_of_same all)
  refreshSessions := inv.refreshSessions.keep (opens_of_same all)
  nodup := inv.nodup
  returned := inv.returned_of_ne (ne_returned running) after

theorem Inv.insertUser (inv : Inv refreshTokenDays requests database s done)
    (before : s.phases r = .checked)
    (isFree : s.users.free r (Row.key (requests r).user) = true)
    (isNew : s.users.taken (Row.key (requests r).user) = false) :
    Inv refreshTokenDays requests database { s.enter r .userFlushed with
      users := s.users.write r (requests r).user } done where
  users := inv.users.insert isFree isNew (opens_self _) (by rw [before]; rfl) (opens_of_ne _)
  workspaces := inv.workspaces.keep (opens_of_same (by rw [before]; rfl))
  memberships := inv.memberships.keep (opens_of_same (by rw [before]; rfl))
  refreshSessions := inv.refreshSessions.keep (opens_of_same (by rw [before]; rfl))
  nodup := inv.nodup
  returned := inv.returned_of_ne (ne_returned (by rw [before]; rfl)) (ne_returned rfl)

theorem Inv.insertRest (inv : Inv refreshTokenDays requests database s done)
    (before : s.phases r = .userFlushed)
    (named : Column.workspaceName.check (requests r).workspace.name = true)
    (isFree : flushFree refreshTokenDays requests s r = true)
    (newSlug : s.workspaces.taken (Row.key (requests r).workspace) = false)
    (newMembership : s.memberships.taken (Row.key (requests r).membership) = false)
    (newSession : s.refreshSessions.taken
      (Row.key ((requests r).refreshSession refreshTokenDays)) = false) :
    Inv refreshTokenDays requests database { s.enter r .flushed with
      workspaces := s.workspaces.write r (requests r).workspace
      memberships := s.memberships.write r (requests r).membership
      refreshSessions := s.refreshSessions.write r
        ((requests r).refreshSession refreshTokenDays) } done := by
  simp only [flushFree, named, Bool.not_true, Bool.false_or, Bool.and_eq_true] at isFree
  constructor
  · exact inv.users.keep (opens_of_same (by rw [before]; rfl))
  · exact inv.workspaces.insert isFree.1.1 newSlug (opens_self _) (by rw [before]; rfl)
      (opens_of_ne _)
  · exact inv.memberships.insert isFree.1.2 newMembership (opens_self _) (by rw [before]; rfl)
      (opens_of_ne _)
  · exact inv.refreshSessions.insert isFree.2 newSession (opens_self _) (by rw [before]; rfl)
      (opens_of_ne _)
  · exact inv.nodup
  · exact inv.returned_of_ne (ne_returned (by rw [before]; rfl)) (ne_returned rfl)

theorem Inv.commit (inv : Inv refreshTokenDays requests database s done)
    (before : s.phases r = .flushed) :
    Inv refreshTokenDays requests database (s.commit r) (done ++ [r]) := by
  have isNew : r ∉ done := by
    rw [inv.returned]
    exact ne_returned (by rw [before]; rfl)
  constructor
  · exact inv.users.commit (by rw [before]; rfl) (opens_self _) (opens_of_ne _)
  · exact inv.workspaces.commit (by rw [before]; rfl) (opens_self _) (opens_of_ne _)
  · exact inv.memberships.commit (by rw [before]; rfl) (opens_self _) (opens_of_ne _)
  · exact inv.refreshSessions.commit (by rw [before]; rfl) (opens_self _) (opens_of_ne _)
  · rw [List.nodup_append]
    exact ⟨inv.nodup, List.nodup_singleton r, fun other member last isLast => by
      rw [List.mem_singleton.mp isLast]
      rintro rfl
      exact isNew member⟩
  · intro other
    rw [List.mem_append, List.mem_singleton, State.commit]
    by_cases same : other = r
    · simp [same]
    · simp [same, inv.returned]

theorem Inv.step (inv : Inv refreshTokenDays requests database s done)
    (change : Change refreshTokenDays requests s event t) :
    ∃ done', Inv refreshTokenDays requests database t done' := by
  cases change with
  | read before after =>
    have running : (s.phases event.request).ended = false := by rw [before]; rfl
    obtain rfl | ⟨message, rfl⟩ := after
    · exact ⟨done, inv.enter running (by simp) (by rw [before]; rfl) (by rw [before]; rfl)⟩
    · exact ⟨done, inv.enter running (by simp) (by rw [before]; rfl) (by rw [before]; rfl)⟩
  | insertUser before isFree isNew => exact ⟨done, inv.insertUser before isFree isNew⟩
  | insertRest before named isFree newSlug newMembership newSession =>
    exact ⟨done, inv.insertRest before named isFree newSlug newMembership newSession⟩
  | commit before => exact ⟨_, inv.commit before⟩
  | late before late => exact ⟨done, inv.rollback (by rw [before]; rfl) (by simp) rfl rfl⟩
  | refuse before => exact ⟨done, inv.rollback (by rw [before]; rfl) (by simp) rfl rfl⟩
  | cancel running => exact ⟨done, inv.rollback running (by simp) rfl rfl⟩

/-- What has been committed, in every run. -/
theorem inv_run {events : List Event}
    (run : Run (stepOf (next refreshTokenDays requests)) (.start database) events s) :
    ∃ done, Inv refreshTokenDays requests database s done :=
  run.invariant (I := fun s => ∃ done, Inv refreshTokenDays requests database s done)
    (fun _ _ _ inv taken => inv.elim fun _ inv => inv.step (change_of_next taken))
    ⟨[], inv_start refreshTokenDays requests database⟩

end Tables

/-! ## Errors -/

section Errors

variable {phases : RequestId → Phase} {events : List Event} {database : Database}

/-- What is refused is refused with a `ConflictError`. -/
def OnlyConflicts (phases : RequestId → Phase) : Prop :=
  ∀ r error, phases r = .raised error → ∃ message, error = .conflict message

omit [UnicodeTables] [TokenCodec] in
theorem OnlyConflicts.update (conflicts : OnlyConflicts phases) {r : RequestId} {phase : Phase}
    (only : ∀ error, phase = .raised error → ∃ message, error = .conflict message) :
    OnlyConflicts (Function.update phases r phase) := by
  intro other error raised
  by_cases same : other = r
  · rw [same, Function.update_self] at raised
    exact only error raised
  · rw [Function.update_of_ne same] at raised
    exact conflicts other error raised

theorem onlyConflicts_step (conflicts : OnlyConflicts s.phases)
    (free : emailFree requests s event = true)
    (change : Change refreshTokenDays requests s event t) : OnlyConflicts t.phases := by
  cases change with
  | read before after =>
    apply conflicts.update
    obtain rfl | ⟨message, rfl⟩ := after
    · simp
    · rintro _ ⟨⟩
      exact ⟨message, rfl⟩
  | insertUser => exact conflicts.update (by simp)
  | insertRest => exact conflicts.update (by simp)
  | commit => exact conflicts.update (by simp)
  | late before late =>
    rw [free] at late
    cases late
  | refuse before =>
    apply conflicts.update
    rintro _ ⟨⟩
    exact ⟨_, rfl⟩
  | cancel => exact conflicts.update (by simp)

/-- A request that is late ends with the error of the driver. -/
theorem raised_of_late (taken : stepOf (next refreshTokenDays requests) s event t)
    (late : emailFree requests s event = false) :
    t.phases event.request = .raised .integrityError := by
  obtain ⟨r, statement⟩ := event
  cases statement with
  | flushUser =>
    rw [emailFree_flushUser, Bool.not_eq_false'] at late
    simp only [stepOf, next, Store.insert_eq_none.2 late] at taken
    split at taken
    all_goals try contradiction
    split at taken
    · cases taken
      exact Function.update_self ..
    · cases taken
  | selectEmail | flush | commit | cancel => simp [emailFree] at late

theorem onlyConflicts_run
    (run : Run (stepOf (guarded (emailFree requests) (next refreshTokenDays requests)))
      (.start database) events s) : OnlyConflicts s.phases := by
  have idle : OnlyConflicts (State.start database).phases := fun _ _ raised => nomatch raised
  refine run.invariant (I := fun s => OnlyConflicts s.phases) (fun _ _ _ conflicts taken => ?_) idle
  obtain ⟨free, moved⟩ := stepOf_guarded.1 taken
  exact onlyConflicts_step conflicts free (change_of_next moved)

/-- Nobody was late in a run that ends without another error. -/
theorem guarded_of_onlyConflicts (run : Run (stepOf (next refreshTokenDays requests)) s events t)
    (conflicts : OnlyConflicts t.phases) :
    Run (stepOf (guarded (emailFree requests) (next refreshTokenDays requests))) s events t := by
  induction run with
  | nil => exact .nil
  | cons taken rest ih =>
    refine .cons (stepOf_guarded.2 ⟨?_, taken⟩) (ih conflicts)
    by_contra late
    have raised := raised_of_late taken (Bool.eq_false_iff.mpr late)
    -- the error stays until the end of the run
    have stays := run_phases_of_ended rest (by rw [raised]; rfl)
    obtain ⟨message, same⟩ := conflicts _ _ (stays.trans raised)
    cases same

end Errors

/-! ## Every interleaving -/

theorem Inv.tables_eq {database : Database} {done : List RequestId}
    (inv : Inv refreshTokenDays requests database s done) :
    s.tables = Tables.register refreshTokenDays requests database.toTables done := by
  rw [State.tables, inv.users.committed, inv.workspaces.committed, inv.memberships.committed,
    inv.refreshSessions.committed, Tables.register]

/-- Emails and slugs are unique and only requests that have returned leave rows in every run, so
all that can go wrong is an error. -/
theorem clean_iff_onlyConflicts {database : Database} {events : List Event}
    (run : Run (stepOf (next refreshTokenDays requests)) (.start database) events s) :
    Clean refreshTokenDays requests database s ↔ OnlyConflicts s.phases := by
  constructor
  · exact fun clean => clean.refused
  · intro conflicts
    obtain ⟨done, inv⟩ := inv_run run
    constructor
    · intro r r' first second same
      exact inv.users.key_injective ((inv.returned r).mpr first) ((inv.returned r').mpr second) same
    · intro r r' first second same
      exact inv.workspaces.key_injective ((inv.returned r).mpr first) ((inv.returned r').mpr second)
        same
    · exact conflicts
    · exact ⟨done, inv.nodup, inv.returned, inv.tables_eq⟩

/-- Racing registrations are refused cleanly exactly in the runs in which each first flush found no
committed account with its email. -/
theorem register_clean_iff {database : Database} {events : List Event}
    (run : Run (stepOf (next refreshTokenDays requests)) (.start database) events s) :
    Clean refreshTokenDays requests database s ↔
      Run (stepOf (guarded (emailFree requests) (next refreshTokenDays requests)))
        (.start database) events s := by
  rw [clean_iff_onlyConflicts run]
  constructor
  · exact guarded_of_onlyConflicts run
  · exact onlyConflicts_run

end Interleavings

/-! ## Two requests with one email -/

def emptyDatabase : Database where
  users := []
  workspaces := []
  memberships := []
  refreshSessions := []
  emails := List.nodup_nil
  slugs := List.nodup_nil
  membershipIds := List.nodup_nil
  sessionIds := List.nodup_nil

/-- All requests register Ada, each with a workspace of its own. -/
def adaRequests (r : RequestId) : Request where
  payload := ⟨"ada@example.com".toList, "Ada".toList, "correct horse".toList, "Team".toList,
    List.replicate (r + 2) 'a'⟩
  client := ⟨none, none⟩
  userId := 4 * r
  workspaceId := 4 * r + 1
  membershipId := 4 * r + 2
  familyId := 4 * r + 3
  drawn := ⟨r + 1, List.replicate 43 (if r = 0 then 'A' else 'B')⟩
  now := 0

/-- The second request has read while the first was open, and inserts when that is rolled back. -/
def patientEvents : List Event :=
  [⟨0, .selectEmail⟩, ⟨0, .flushUser⟩, ⟨1, .selectEmail⟩, ⟨0, .cancel⟩, ⟨1, .flushUser⟩,
    ⟨1, .flush⟩, ⟨1, .commit⟩]

theorem register_clean_iff_patient : ∃ s,
    Run (stepOf (@next asciiTables sampleCodec 30 adaRequests)) (.start emptyDatabase)
      patientEvents s ∧ s.phases 1 = .returned ∧
        @Clean asciiTables sampleCodec 30 adaRequests emptyDatabase s := by
  have executed : ((exec (guarded (@emailFree asciiTables adaRequests)
      (@next asciiTables sampleCodec 30 adaRequests)) (.start emptyDatabase) patientEvents).any
        fun s => s.phases 1 = .returned) = true := by decide
  obtain ⟨s, ran, returned⟩ := (Option.any_eq_true _ _).mp executed
  have inTime := Run.of_exec ran
  have run := inTime.mono fun _ _ _ taken => (stepOf_guarded.1 taken).2
  exact ⟨s, run, of_decide_eq_true returned,
    (@register_clean_iff asciiTables sampleCodec _ _ _ _ _ run).mpr inTime⟩

/-- Both have read before one of them commits. -/
def raceEvents : List Event :=
  [⟨0, .selectEmail⟩, ⟨1, .selectEmail⟩, ⟨0, .flushUser⟩, ⟨0, .flush⟩, ⟨0, .commit⟩,
    ⟨1, .flushUser⟩]

/-- The request that loses the race ends with an `IntegrityError`. -/
theorem race_raises_integrityError : ¬ ∀ events s,
    Run (stepOf (@next asciiTables sampleCodec 30 adaRequests)) (.start emptyDatabase) events s →
      @Clean asciiTables sampleCodec 30 adaRequests emptyDatabase s := by
  intro clean
  have executed : ((exec (@next asciiTables sampleCodec 30 adaRequests) (.start emptyDatabase)
      raceEvents).any fun s => s.phases 1 = .raised .integrityError) = true := by decide
  obtain ⟨s, ran, raised⟩ := (Option.any_eq_true _ _).mp executed
  obtain ⟨-, -, refused, -⟩ := clean raceEvents s (Run.of_exec ran)
  obtain ⟨message, other⟩ := refused 1 _ (of_decide_eq_true raised)
  cases other

end SupportPilot.Registration
