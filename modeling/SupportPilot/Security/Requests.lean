import SupportPilot.Lib.ReadCommitted
import SupportPilot.Lib.Transition
import SupportPilot.Security.Families

/-! # Session requests as a transition system

Any number of logins, registrations, refreshes and logouts run at once, each in
one transaction of its own.  A step is one database statement together with the
code that runs up to the next one; `Phase` says where a request stands.

The family-wide update of a replay takes its snapshot in one step
(`startUpdate`) and then updates the rows of the snapshot one by one, in any
order, waiting for the lock of each.  A request may be rolled back anywhere.

`Change` is the inversion lemma of `next`: it lists everything one step can do. -/

namespace SupportPilot.Security

open Lib Table

abbrev RequestId := Nat

inductive Phase where
  | idle
  /-- Login and registration: the row is inserted. -/
  | issued (row : RefreshSession)
  /-- `rotate_session`: the current row is accepted, the user is not read yet. -/
  | accepted (current : RefreshSession) (now : Nat)
  /-- The user is active. -/
  | active (current : RefreshSession) (now : Nat)
  /-- The replacement is inserted; the changes of the current row are flushed by
  the commit. -/
  | flushed (current replacement : RefreshSession) (now : Nat)
  /-- A replay is detected. -/
  | reuse (current : RefreshSession) (now : Nat)
  /-- The family-wide update runs; these rows of its snapshot are left. -/
  | updating (current : RefreshSession) (now : Nat) (todo : List UUID)
  /-- `revoke_session` with the row it leaves to the commit, if any. -/
  | logout (row : Option RefreshSession)
  | raised (error : PyError)
  deriving DecidableEq

/-- `families` are the family identifiers drawn so far, `replayed` the families
whose revocation has been committed, `rotations` the committed rotations. -/
structure State where
  store : Store RequestId UUID RefreshSession
  phases : RequestId → Phase
  families : List UUID
  replayed : List UUID
  rotations : List Rotation

inductive Statement where
  | issue (drawn : Drawn) (userId familyId : UUID) (refreshTokenDays : Nat)
      (client : ClientMetadata) (now : Nat)
  | selectForRotation (rawToken : Text) (now : Nat)
  | readUser (active : Bool)
  | insertReplacement (drawn : Drawn) (refreshTokenDays : Nat) (client : ClientMetadata) (now : Nat)
  | startUpdate
  | updateRow (id : UUID)
  | selectForLogout (rawToken : Text) (now : Nat)
  | commit
  | rollback

structure Event where
  request : RequestId
  statement : Statement

namespace State

def init : State := ⟨.empty, fun _ => .idle, [], [], []⟩

/-- The request goes to the next phase. -/
def enter (s : State) (r : RequestId) (store : Store RequestId UUID RefreshSession)
    (phase : Phase) : State :=
  { s with store, phases := Function.update s.phases r phase }

@[simp] theorem enter_store (s : State) (r : RequestId)
    (store : Store RequestId UUID RefreshSession) (phase : Phase) :
    (s.enter r store phase).store = store := rfl

/-- No row has this identifier. -/
def unusedId (s : State) (id : UUID) : Bool :=
  s.store.locks id = none && lookup s.store.committed id = none

/-- `SELECT … WHERE id = … FOR UPDATE`; `none` while it waits. -/
def selectForUpdate (s : State) (r : RequestId) (id : UUID) :
    Option (Option RefreshSession × Store RequestId UUID RefreshSession) :=
  match lookup s.store.committed id with
  | none => some (none, s.store)
  | some current => if s.store.free r id then some (some current, s.store.lock r id) else none

variable [TokenCodec]

/-- `constant_time_hash_matches`. -/
def hashMatches (secret : Text) (current : RefreshSession) : Bool :=
  TokenCodec.hashRefreshSecret secret = current.tokenHash

def rotationPhase (secret : Text) (now : Nat) : Option RefreshSession → Phase
  | none => .raised invalidSession
  | some current =>
    if hashMatches secret current then
      match current.verdict now with
      | .reuse => .reuse current now
      | .refused => .raised invalidSession
      | .accepted => .accepted current now
    else .raised invalidSession

def logoutPhase (secret : Text) (now : Nat) : Option RefreshSession → Phase
  | none => .logout none
  | some current =>
    if hashMatches secret current then .logout (some (current.logout now)) else .logout none

/-- Parse the token and select its row. -/
def select (s : State) (r : RequestId) (rawToken : Text) (malformed : Phase)
    (phase : Text → Option RefreshSession → Phase) : Option State :=
  match parseRefreshToken rawToken with
  | .error _ => some (s.enter r s.store malformed)
  | .ok parts =>
    (s.selectForUpdate r parts.sessionId).map fun (current, store) =>
      s.enter r store (phase parts.secret current)

/-- One row of the family-wide update: locked, checked again and written. -/
def updateRow (s : State) (r : RequestId) (current : RefreshSession) (now : Nat)
    (todo : List UUID) (id : UUID) : Option State :=
  if id ∈ todo ∧ s.store.free r id = true then
    match lookup s.store.committed id with
    | none => some (s.enter r s.store (.updating current now (todo.erase id)))
    | some row =>
      let store := if row.familyId = current.familyId then s.store.write r (row.revoke now)
        else s.store
      some (s.enter r store (.updating current now (todo.erase id)))
  else none

def commit (s : State) (r : RequestId) : Option State :=
  match s.phases r with
  | .issued _ => some (s.enter r (s.store.commit r) .idle)
  | .flushed current replacement now =>
    some { s.enter r ((s.store.write r (current.rotate now replacement.id)).commit r) .idle with
      rotations := ⟨current.familyId, current.id, replacement.id⟩ :: s.rotations }
  | .updating current _ [] =>
    some { s.enter r (s.store.commit r) (.raised reuseDetected) with
      replayed := current.familyId :: s.replayed }
  | .logout none => some (s.enter r (s.store.commit r) .idle)
  | .logout (some row) => some (s.enter r ((s.store.write r row).commit r) .idle)
  | _ => none

end State

open State

variable [TokenCodec]

def next (s : State) (event : Event) : Option State :=
  let r := event.request
  match s.phases r, event.statement with
  | .idle, .issue drawn userId familyId days client now =>
    if s.unusedId drawn.id && familyId ∉ s.families then
      let row := issueSession drawn userId familyId days client now
      some { s.enter r (s.store.write r row) (.issued row) with families := familyId :: s.families }
    else none
  | .idle, .selectForRotation rawToken now =>
    s.select r rawToken (.raised invalidSession) fun secret => rotationPhase secret now
  | .accepted current now, .readUser active =>
    some (s.enter r s.store (if active then .active current now else .raised invalidSession))
  | .active current now, .insertReplacement drawn days client clock =>
    if s.unusedId drawn.id then
      let replacement := issueSession drawn current.userId current.familyId days client clock
      some (s.enter r (s.store.write r replacement) (.flushed current replacement now))
    else none
  | .reuse current now, .startUpdate =>
    let snapshot := s.store.committed.filter fun row => row.familyId = current.familyId
    some (s.enter r s.store (.updating current now (snapshot.map RefreshSession.id)))
  | .updating current now todo, .updateRow id => s.updateRow r current now todo id
  | .idle, .selectForLogout rawToken now =>
    s.select r rawToken (.logout none) fun secret => logoutPhase secret now
  | _, .commit => s.commit r
  | _, .rollback => some (s.enter r (s.store.rollback r) .idle)
  | _, _ => none

/-! ## What one step can do -/

/-- The phases that a select enters with the row it found. -/
inductive Opens (current : RefreshSession) : Phase → Prop
  | accepted {now} : current.Live → Opens current (.accepted current now)
  | reuse {now} : Opens current (.reuse current now)
  | logout {now} : Opens current (.logout (some (current.logout now)))

/-- The phases that need no row. -/
inductive Rowless : Phase → Prop
  | idle : Rowless .idle
  | logout : Rowless (.logout none)
  | raised {error} : Rowless (.raised error)

/-- The changes that one step of request `r` can make. -/
inductive Change (s : State) (r : RequestId) : State → Prop
  | issue {row : RefreshSession} (idle : s.phases r = .idle) (unused : s.unusedId row.id = true)
      (newFamily : row.familyId ∉ s.families) (issued : row.Issued) :
      Change s r { s.enter r (s.store.write r row) (.issued row) with
        families := row.familyId :: s.families }
  | reject {phase : Phase} (before : Rowless (s.phases r)) (rowless : Rowless phase) :
      Change s r (s.enter r s.store phase)
  | rejectLocked {id : UUID} {phase : Phase} (idle : s.phases r = .idle)
      (isFree : s.store.free r id = true) (rowless : Rowless phase) :
      Change s r (s.enter r (s.store.lock r id) phase)
  | select {current : RefreshSession} {phase : Phase} (idle : s.phases r = .idle)
      (found : lookup s.store.committed current.id = some current)
      (isFree : s.store.free r current.id = true) (opens : Opens current phase) :
      Change s r (s.enter r (s.store.lock r current.id) phase)
  | readUser {current : RefreshSession} {now : Nat} (accepted : s.phases r = .accepted current now)
      {phase : Phase} (goes : phase = .active current now ∨ phase = .raised invalidSession) :
      Change s r (s.enter r s.store phase)
  | insert {current replacement : RefreshSession} {now : Nat}
      (active : s.phases r = .active current now) (unused : s.unusedId replacement.id = true)
      (issued : replacement.Issued) (sameFamily : replacement.familyId = current.familyId)
      (sameUser : replacement.userId = current.userId) :
      Change s r (s.enter r (s.store.write r replacement) (.flushed current replacement now))
  | startUpdate {current : RefreshSession} {now : Nat} (reuse : s.phases r = .reuse current now) :
      Change s r (s.enter r s.store (.updating current now
        ((s.store.committed.filter fun row => row.familyId = current.familyId).map
          RefreshSession.id)))
  | updateRow {current row : RefreshSession} {now : Nat} {todo : List UUID}
      (updating : s.phases r = .updating current now todo) (inTodo : row.id ∈ todo)
      (found : lookup s.store.committed row.id = some row)
      (isFree : s.store.free r row.id = true) (sameFamily : row.familyId = current.familyId) :
      Change s r (s.enter r (s.store.write r (row.revoke now))
        (.updating current now (todo.erase row.id)))
  | skipRow {current : RefreshSession} {id : UUID} {now : Nat} {todo : List UUID}
      (updating : s.phases r = .updating current now todo)
      (other : ∀ row, lookup s.store.committed id = some row → row.familyId ≠ current.familyId) :
      Change s r (s.enter r s.store (.updating current now (todo.erase id)))
  | commitIssued {row : RefreshSession} (issued : s.phases r = .issued row) :
      Change s r (s.enter r (s.store.commit r) .idle)
  | commitRotation {current replacement : RefreshSession} {now : Nat}
      (flushed : s.phases r = .flushed current replacement now) :
      Change s r { s.enter r ((s.store.write r (current.rotate now replacement.id)).commit r)
          .idle with
        rotations := ⟨current.familyId, current.id, replacement.id⟩ :: s.rotations }
  | commitReplay {current : RefreshSession} {now : Nat}
      (updated : s.phases r = .updating current now []) :
      Change s r { s.enter r (s.store.commit r) (.raised reuseDetected) with
        replayed := current.familyId :: s.replayed }
  | commitLogout {row : RefreshSession} (logout : s.phases r = .logout (some row)) :
      Change s r (s.enter r ((s.store.write r row).commit r) .idle)
  | commitNothing (logout : s.phases r = .logout none) :
      Change s r (s.enter r (s.store.commit r) .idle)
  | rollback : Change s r (s.enter r (s.store.rollback r) .idle)

section Inversion

variable {s s' : State} {r : RequestId}

omit [TokenCodec] in
theorem selectForUpdate_cases {id : UUID} {found : Option RefreshSession}
    {store : Store RequestId UUID RefreshSession}
    (selected : s.selectForUpdate r id = some (found, store)) :
    found = none ∧ store = s.store ∨ ∃ current, found = some current ∧ current.id = id ∧
      lookup s.store.committed id = some current ∧ s.store.free r id = true ∧
      store = s.store.lock r id := by
  unfold selectForUpdate at selected
  split at selected
  · cases selected
    exact .inl ⟨rfl, rfl⟩
  next current known =>
    split at selected
    next isFree =>
      cases selected
      exact .inr ⟨current, rfl, key_of_lookup known, known, isFree, rfl⟩
    next => cases selected

theorem select_cases {rawToken : Text} {malformed : Phase}
    {phase : Text → Option RefreshSession → Phase} (idle : s.phases r = .idle)
    (rowless : Rowless malformed) (absent : ∀ secret, Rowless (phase secret none))
    (present : ∀ secret current, Rowless (phase secret (some current)) ∨
      Opens current (phase secret (some current)))
    (selected : s.select r rawToken malformed phase = some s') : Change s r s' := by
  have before : Rowless (s.phases r) := idle ▸ .idle
  unfold select at selected
  split at selected
  · cases selected
    exact .reject before rowless
  next parts _ =>
    obtain ⟨⟨found, store⟩, locked, rfl⟩ := Option.map_eq_some_iff.mp selected
    rcases selectForUpdate_cases locked with ⟨rfl, rfl⟩ | ⟨current, rfl, sameId, known, isFree, rfl⟩
    · exact .reject before (absent parts.secret)
    · rw [← sameId] at known isFree
      dsimp only
      rw [← sameId]
      rcases present parts.secret current with without | opens
      · exact .rejectLocked idle isFree without
      · exact .select idle known isFree opens

omit [TokenCodec] in
theorem updateRow_cases {current : RefreshSession} {now : Nat} {todo : List UUID} {id : UUID}
    (updating : s.phases r = .updating current now todo)
    (updated : s.updateRow r current now todo id = some s') : Change s r s' := by
  unfold State.updateRow at updated
  split at updated
  next enabled =>
    obtain ⟨inTodo, isFree⟩ := enabled
    split at updated
    next absent =>
      cases updated
      exact .skipRow updating fun row found => by simp [absent] at found
    next row found =>
      cases updated
      obtain rfl := key_of_lookup found
      by_cases sameFamily : row.familyId = current.familyId
      · rw [if_pos sameFamily]
        exact .updateRow updating inTodo found isFree sameFamily
      · rw [if_neg sameFamily]
        exact .skipRow updating fun row' found' => by
          cases found.symm.trans found'
          exact sameFamily
  next => cases updated

omit [TokenCodec] in
theorem commit_cases (committed : s.commit r = some s') : Change s r s' := by
  unfold State.commit at committed
  split at committed
  next row issued => cases committed; exact .commitIssued issued
  next flushed => cases committed; exact .commitRotation flushed
  next updated => cases committed; exact .commitReplay updated
  next logout => cases committed; exact .commitNothing logout
  next logout => cases committed; exact .commitLogout logout
  next => cases committed

theorem rotationPhase_cases (secret : Text) (now : Nat) (current : RefreshSession) :
    Rowless (rotationPhase secret now (some current)) ∨
      Opens current (rotationPhase secret now (some current)) := by
  unfold rotationPhase
  dsimp only
  split
  · split
    next => exact .inr .reuse
    next => exact .inl .raised
    next accepted => exact .inr (.accepted (RefreshSession.live_of_accepted accepted))
  · exact .inl .raised

theorem logoutPhase_cases (secret : Text) (now : Nat) (current : RefreshSession) :
    Rowless (logoutPhase secret now (some current)) ∨
      Opens current (logoutPhase secret now (some current)) := by
  unfold logoutPhase
  dsimp only
  split
  · exact .inr .logout
  · exact .inl .logout

theorem next_cases {event : Event} (taken : next s event = some s') :
    Change s event.request s' := by
  unfold next at taken
  dsimp only at taken
  split at taken
  next drawn userId familyId days client now idle _ =>
    split at taken
    next enabled =>
      cases taken
      simp only [Bool.and_eq_true, decide_eq_true_eq] at enabled
      exact .issue idle enabled.1 enabled.2 (RefreshSession.issued_issueSession ..)
    next => cases taken
  next rawToken now idle _ =>
    have absent : ∀ secret, Rowless (rotationPhase secret now none) := fun _ => .raised
    exact select_cases idle .raised absent
      (fun secret current => rotationPhase_cases secret now current) taken
  next current now active accepted _ =>
    cases taken
    refine .readUser accepted ?_
    cases active
    · exact .inr rfl
    · exact .inl rfl
  next current now drawn days client clock active _ =>
    split at taken
    next unused =>
      cases taken
      exact .insert active unused (RefreshSession.issued_issueSession ..) rfl rfl
    next => cases taken
  next reuse _ => cases taken; exact .startUpdate reuse
  next updating _ => exact updateRow_cases updating taken
  next rawToken now idle _ =>
    have absent : ∀ secret, Rowless (logoutPhase secret now none) := fun _ => .logout
    exact select_cases idle .logout absent
      (fun secret current => logoutPhase_cases secret now current) taken
  next => exact commit_cases taken
  next => cases taken; exact .rollback
  next => cases taken

/-- A step moves only the request that takes it. -/
theorem phases_of_next {event : Event} (taken : next s event = some s') {other : RequestId}
    (differs : other ≠ event.request) : s'.phases other = s.phases other := by
  cases next_cases taken <;> exact Function.update_of_ne differs _ _

end Inversion

end SupportPilot.Security
