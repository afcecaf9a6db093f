import SupportPilot.Domain.Schemas
import SupportPilot.Lib.Inserts
import SupportPilot.Lib.Transition
import SupportPilot.Security.Sessions
import SupportPilot.Workspaces.Requests

/-! # Racing registrations

Any number of `register` requests at once, statement by statement: the `SELECT` of the email, the
flush of the user, the flush of the workspace, the membership and the refresh session, and the
commit of `get_db_session`.  Others do not see what is flushed, but an insert with the same unique
key waits until its transaction ends.  `set_tenant_context` touches no table, so it is no step of
its own.  What `uuid4` and `create_refresh_token` draw for users, workspaces and hashes is new, so
the constraints on these are left out. -/

namespace SupportPilot.Registration

open Lib Table Schemas
open Security (ClientMetadata Drawn RefreshSession TokenCodec issueSession)
open Workspaces (RequestId WorkspaceMembership)

/-! ## Rows -/

/-- A row of `users`, without the password's hash. -/
structure User extends Workspaces.User where
  displayName : Text
  deriving DecidableEq

structure Workspace extends Workspaces.Workspace where
  name : Text
  deriving DecidableEq

instance : Row User Text := ⟨fun user => user.email⟩

instance : Row Workspace Text := ⟨fun workspace => workspace.slug⟩

instance : Row WorkspaceMembership UUID := ⟨WorkspaceMembership.id⟩

structure Tables where
  users : List User
  workspaces : List Workspace
  memberships : List WorkspaceMembership
  refreshSessions : List RefreshSession
  deriving DecidableEq

/-- Tables that meet their unique constraints. -/
structure Database extends Tables where
  emails : Keyed users
  slugs : Keyed workspaces
  membershipIds : Keyed memberships
  sessionIds : Keyed refreshSessions

/-- The arguments of a call of `register`, with a payload that the schema has let through, and what
`uuid4`, `create_refresh_token` and the clock return on the way. -/
structure Request where
  payload : RegisterRequest
  client : ClientMetadata
  userId : UUID
  workspaceId : UUID
  membershipId : UUID
  familyId : UUID
  drawn : Drawn
  now : Nat

section Rows

variable [UnicodeTables] [TokenCodec] (refreshTokenDays : Nat) (request : Request)

namespace Request

/-- `str(payload.email).strip().lower()`. -/
def normalizedEmail : Text := UnicodeTables.lower (strip request.payload.email)

def user : User where
  id := request.userId
  email := normalizedEmail request
  isActive := true
  displayName := request.payload.displayName

omit [UnicodeTables] [TokenCodec] in
def workspace : Workspace where
  id := request.workspaceId
  slug := request.payload.workspaceSlug
  createdBy := request.userId
  name := request.payload.workspaceName

omit [UnicodeTables] [TokenCodec] in
def membership : WorkspaceMembership where
  id := request.membershipId
  workspaceId := request.workspaceId
  userId := request.userId
  role := .owner

def refreshSession : RefreshSession :=
  issueSession request.drawn request.userId request.familyId refreshTokenDays request.client
    request.now

end Request

end Rows

/-! ## Requests -/

inductive Phase where
  | idle
  /-- No account has the email. -/
  | checked
  | userFlushed
  | flushed
  | returned
  | raised (error : PyError)
  | cancelled
  deriving DecidableEq

namespace Phase

/-- The user is inserted and not committed. -/
def userOpen : Phase → Bool
  | userFlushed | flushed => true
  | _ => false

/-- The other rows are inserted and not committed. -/
def allOpen : Phase → Bool
  | flushed => true
  | _ => false

def ended : Phase → Bool
  | returned | raised _ | cancelled => true
  | _ => false

end Phase

structure State where
  users : Store RequestId Text User
  workspaces : Store RequestId Text Workspace
  memberships : Store RequestId UUID WorkspaceMembership
  refreshSessions : Store RequestId UUID RefreshSession
  phases : RequestId → Phase

inductive Statement where
  | selectEmail | flushUser | flush | commit | cancel
  deriving DecidableEq

structure Event where
  request : RequestId
  statement : Statement

namespace State

def start (database : Database) : State where
  users := .ofRows database.users
  workspaces := .ofRows database.workspaces
  memberships := .ofRows database.memberships
  refreshSessions := .ofRows database.refreshSessions
  phases _ := .idle

/-- What is committed. -/
def tables (s : State) : Tables :=
  ⟨s.users.committed, s.workspaces.committed, s.memberships.committed, s.refreshSessions.committed⟩

/-- The request goes to the next phase. -/
def enter (s : State) (r : RequestId) (phase : Phase) : State :=
  { s with phases := Function.update s.phases r phase }

/-- The `except` clause of `get_db_session`. -/
def rollback (s : State) (r : RequestId) (phase : Phase) : State where
  users := s.users.rollback r
  workspaces := s.workspaces.rollback r
  memberships := s.memberships.rollback r
  refreshSessions := s.refreshSessions.rollback r
  phases := Function.update s.phases r phase

def commit (s : State) (r : RequestId) : State where
  users := s.users.commit r
  workspaces := s.workspaces.commit r
  memberships := s.memberships.commit r
  refreshSessions := s.refreshSessions.commit r
  phases := Function.update s.phases r .returned

end State

section System

variable [UnicodeTables] [TokenCodec] (refreshTokenDays : Nat) (requests : RequestId → Request)

/-- The second flush does not have to wait for another transaction.  The check of the name comes
before the unique constraints. -/
def flushFree (s : State) (r : RequestId) : Bool :=
  !Column.workspaceName.check (requests r).workspace.name ||
    s.workspaces.free r (Row.key (requests r).workspace) &&
      s.memberships.free r (Row.key (requests r).membership) &&
      s.refreshSessions.free r (Row.key ((requests r).refreshSession refreshTokenDays))

/-- The second flush; `none` is an `IntegrityError`. -/
def flush (s : State) (r : RequestId) : Option State :=
  let request := requests r
  if Column.workspaceName.check request.workspace.name then do
    let workspaces ← s.workspaces.insert r request.workspace
    let memberships ← s.memberships.insert r request.membership
    let refreshSessions ← s.refreshSessions.insert r (request.refreshSession refreshTokenDays)
    return { s.enter r .flushed with workspaces, memberships, refreshSessions }
  else none

def next (s : State) (event : Event) : Option State :=
  let r := event.request
  let request := requests r
  match s.phases r, event.statement with
  | .idle, .selectEmail =>
    some (s.enter r (if s.users.taken request.normalizedEmail then
      .raised (.conflict "an account with this email already exists") else .checked))
  | .checked, .flushUser =>
    if s.users.free r request.normalizedEmail then
      match s.users.insert r request.user with
      | some users => some { s.enter r .userFlushed with users }
      -- this flush stands in front of the `try`
      | none => some (s.rollback r (.raised .integrityError))
    else none
  | .userFlushed, .flush =>
    if flushFree refreshTokenDays requests s r then
      match flush refreshTokenDays requests s r with
      | some flushed => some flushed
      | none => some (s.rollback r
          (.raised (.conflict "email or workspace slug is already in use")))
    else none
  | .flushed, .commit => some (s.commit r)
  | phase, .cancel => if phase.ended then none else some (s.rollback r .cancelled)
  | _, _ => none

/-- At a first flush, no committed account has the email. -/
def emailFree (s : State) (event : Event) : Bool :=
  event.statement ≠ .flushUser || !s.users.taken (requests event.request).normalizedEmail

/-- The rows from the start, and those of the requests that are done. -/
def Tables.register (tables : Tables) (done : List RequestId) : Tables where
  users := tables.users ++ done.map fun r => (requests r).user
  workspaces := tables.workspaces ++ done.map fun r => (requests r).workspace
  memberships := tables.memberships ++ done.map fun r => (requests r).membership
  refreshSessions := tables.refreshSessions ++
    done.map fun r => (requests r).refreshSession refreshTokenDays

/-- At most one request returns for an email and for a slug, what is refused is refused with a
`ConflictError`, and only requests that have returned leave rows. -/
structure Clean (database : Database) (s : State) : Prop where
  emails : ∀ r r', s.phases r = .returned → s.phases r' = .returned →
    (requests r).normalizedEmail = (requests r').normalizedEmail → r = r'
  slugs : ∀ r r', s.phases r = .returned → s.phases r' = .returned →
    (requests r).payload.workspaceSlug = (requests r').payload.workspaceSlug → r = r'
  refused : ∀ r error, s.phases r = .raised error → ∃ message, error = .conflict message
  rows : ∃ done : List RequestId, done.Nodup ∧ (∀ r, r ∈ done ↔ s.phases r = .returned) ∧
    s.tables = Tables.register refreshTokenDays requests database.toTables done

end System

end SupportPilot.Registration
