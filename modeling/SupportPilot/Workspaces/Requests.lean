import SupportPilot.Lib.Transition
import SupportPilot.Security.Rbac

/-! # Workspace requests as a transition system

Any number of `register`, `create_workspace`, `add_member`, `update_member` and `remove_member`
requests run at once.  A step is one database statement together with the code that runs up to
the next one; no request locks what it reads.  The last flush holds its row locks until the
commit that ends the request, and the others read the old rows meanwhile, so flush and commit
are one step. -/

namespace SupportPilot.Workspaces

open Lib Table Security

abbrev RequestId := Nat

structure User where
  id : UUID
  email : Text
  isActive : Bool
  deriving DecidableEq

structure Workspace where
  id : UUID
  slug : Text
  createdBy : UUID
  deriving DecidableEq

structure WorkspaceMembership where
  id : UUID
  workspaceId : UUID
  userId : UUID
  role : WorkspaceRole
  deriving DecidableEq

instance : Row User UUID := ⟨User.id⟩

/-- What a request raises: an `HTTPException` or an exception of the services. -/
inductive ApiError where
  | http (statusCode : Nat) (detail : String)
  | raised (error : PyError)
  deriving DecidableEq

/-! ## Payloads -/

/-- The roles that the payload validators let through. -/
abbrev AssignableRole := { role : WorkspaceRole // role ≠ .owner }

/-- The validator of `MembershipCreate.role` and of `MembershipUpdate.role`. -/
def ownerRequiresTransferWorkflow (value : WorkspaceRole) : Except PyError AssignableRole :=
  if owner : value = .owner then
    .error (.valueError "ownership transfer is not available in Week 1")
  else .ok ⟨value, owner⟩

/-- `normalizedEmail` is `str(payload.email).strip().lower()`. -/
structure RegisterRequest where
  normalizedEmail : Text
  workspaceSlug : Text

structure MembershipCreate where
  normalizedEmail : Text
  role : AssignableRole

structure MembershipUpdate where
  role : AssignableRole

/-- The requests on the members of a workspace, with their bodies as they arrive. -/
inductive MemberRequest where
  | addMember (normalizedEmail : Text) (role : WorkspaceRole)
  | updateMember (membershipId : UUID) (role : WorkspaceRole)
  | removeMember (membershipId : UUID)

/-- The routes that need a principal. -/
inductive Route where
  | createWorkspace (slug : Text)
  | members (workspaceId : UUID) (request : MemberRequest)

/-! ## Dependencies -/

structure Principal where
  user : User
  deriving DecidableEq

structure WorkspaceAccess where
  principal : Principal
  membership : WorkspaceMembership
  deriving DecidableEq

/-- `get_current_principal`, for the subject of a valid access token. -/
def getCurrentPrincipal (users : List User) (sub : UUID) : Except ApiError Principal :=
  match lookup users sub with
  | none => .error (.http 401 "authentication required")
  | some user =>
    if user.isActive then .ok ⟨user⟩ else .error (.http 401 "authentication required")

/-- `WorkspaceManagerAccess`. -/
def managerRoles : List WorkspaceRole := [.owner, .admin]

def requireWorkspaceRoles (roles : List WorkspaceRole) (memberships : List WorkspaceMembership)
    (principal : Principal) (workspaceId : UUID) : Except ApiError WorkspaceAccess :=
  match memberships.find? fun membership =>
      membership.workspaceId = workspaceId && membership.userId = principal.user.id with
  | none => .error (.http 404 "workspace not found")
  | some membership =>
    if !roles.isEmpty && !roleIsAllowed membership.role roles then
      .error (.http 403 "insufficient workspace role")
    else .ok ⟨principal, membership⟩

/-! ## Requests -/

inductive Phase where
  | idle
  /-- `register`: no account has the email. -/
  | registering (payload : RegisterRequest)
  | authenticated (principal : Principal) (route : Route)
  /-- `add_member`: the role can be assigned, the user is not read yet. -/
  | findingUser (workspaceId : UUID) (access : WorkspaceAccess) (payload : MembershipCreate)
  | adding (workspaceId : UUID) (access : WorkspaceAccess) (payload : MembershipCreate)
      (user : User)
  /-- `update_member`, or `remove_member` without a payload. -/
  | loadingTarget (workspaceId : UUID) (access : WorkspaceAccess) (membershipId : UUID)
      (payload : Option MembershipUpdate)
  | updating (access : WorkspaceAccess) (target : WorkspaceMembership)
      (payload : MembershipUpdate)
  | removing (access : WorkspaceAccess) (target : WorkspaceMembership)
  | returned
  | raised (error : ApiError)

/-- The access that the request has been granted. -/
def Phase.access : Phase → Option WorkspaceAccess
  | findingUser _ access _ | adding _ access _ _ | loadingTarget _ access _ _
  | updating access _ _ | removing access _ => some access
  | _ => none

/-- The membership that the request has loaded to change it. -/
def Phase.target : Phase → Option WorkspaceMembership
  | updating _ target _ | removing _ target => some target
  | _ => none

/-- The code between the dependencies and the first statement of the handlers. -/
def MemberRequest.start (workspaceId : UUID) (access : WorkspaceAccess) : MemberRequest → Phase
  | addMember normalizedEmail role =>
    match ownerRequiresTransferWorkflow role with
    | .error error => .raised (.raised error)
    | .ok role =>
      if canManageRole access.membership.role role then
        .findingUser workspaceId access ⟨normalizedEmail, role⟩
      else .raised (.http 403 "role cannot be assigned by this actor")
  | updateMember membershipId role =>
    match ownerRequiresTransferWorkflow role with
    | .error error => .raised (.raised error)
    | .ok role => .loadingTarget workspaceId access membershipId (some ⟨role⟩)
  | removeMember membershipId => .loadingTarget workspaceId access membershipId none

def updateMember (access : WorkspaceAccess) (target : WorkspaceMembership)
    (payload : MembershipUpdate) : Phase :=
  if target.userId = access.principal.user.id then
    .raised (.raised (.conflict "you cannot change your own role"))
  else if !canManageRole access.membership.role target.role ||
      !canManageRole access.membership.role payload.role then
    .raised (.http 403 "membership cannot be managed by this actor")
  else .updating access target payload

def removeMember (access : WorkspaceAccess) (target : WorkspaceMembership) : Phase :=
  if target.userId = access.principal.user.id then
    .raised (.raised (.conflict "you cannot remove yourself"))
  else if !canManageRole access.membership.role target.role then
    .raised (.http 403 "membership cannot be managed by this actor")
  else .removing access target

/-- `versions` are the rows of all the membership tables committed so far. -/
structure State where
  users : List User
  workspaces : List Workspace
  memberships : List WorkspaceMembership
  versions : List WorkspaceMembership
  phases : RequestId → Phase

inductive Statement where
  | selectEmail (payload : RegisterRequest)
  | insertAccount (userId workspaceId membershipId : UUID)
  | selectPrincipal (sub : UUID) (route : Route)
  | insertWorkspace (workspaceId membershipId : UUID)
  | selectMembership
  | selectUser
  | insertMembership (membershipId : UUID)
  | selectTarget
  | flush
  | cancel

structure Event where
  request : RequestId
  statement : Statement

namespace State

def init : State := ⟨[], [], [], [], fun _ => .idle⟩

/-- The request goes to the next phase. -/
def enter (s : State) (r : RequestId) (phase : Phase) : State :=
  { s with phases := Function.update s.phases r phase }

/-- The request commits the membership table. -/
def commit (s : State) (r : RequestId) (memberships : List WorkspaceMembership) : State :=
  { s.enter r .returned with memberships, versions := memberships ++ s.versions }

/-! `uuid4` draws no identifier twice. -/

def unusedWorkspace (s : State) (id : UUID) : Bool := s.workspaces.all fun other => other.id != id

def unusedMembership (s : State) (id : UUID) : Bool := s.versions.all fun other => other.id != id

def slugTaken (s : State) (slug : Text) : Bool := s.workspaces.any fun other => other.slug = slug

def emailTaken (s : State) (email : Text) : Bool := s.users.any fun other => other.email = email

/-- A new workspace and the membership of its creator. -/
def found (s : State) (r : RequestId) (workspace : Workspace) (membershipId : UUID) : State :=
  { s.commit r (s.memberships ++
      [⟨membershipId, workspace.id, workspace.createdBy, .owner⟩]) with
    workspaces := s.workspaces ++ [workspace] }

def register (s : State) (r : RequestId) (payload : RegisterRequest)
    (userId workspaceId membershipId : UUID) : State :=
  -- the first flush, of the user alone, is not guarded
  if s.emailTaken payload.normalizedEmail then s.enter r (.raised (.raised .integrityError))
  else if s.slugTaken payload.workspaceSlug then
    s.enter r (.raised (.raised (.conflict "email or workspace slug is already in use")))
  else
    { s.found r ⟨workspaceId, payload.workspaceSlug, userId⟩ membershipId with
      users := s.users ++ [⟨userId, payload.normalizedEmail, true⟩] }

def createWorkspace (s : State) (r : RequestId) (principal : Principal) (slug : Text)
    (workspaceId membershipId : UUID) : State :=
  if s.slugTaken slug then
    s.enter r (.raised (.raised (.conflict "workspace slug is already in use")))
  else s.found r ⟨workspaceId, slug, principal.user.id⟩ membershipId

/-- Somebody's membership of a workspace is unique. -/
def isMember (s : State) (workspaceId userId : UUID) : Bool :=
  s.memberships.any fun other => other.workspaceId = workspaceId && other.userId = userId

def insertMembership (s : State) (r : RequestId) (row : WorkspaceMembership) : State :=
  if s.isMember row.workspaceId row.userId then
    s.enter r (.raised (.raised (.conflict "user is already a workspace member")))
  else s.commit r (s.memberships ++ [row])

/-- `target.role = role`, flushed as `UPDATE … SET role WHERE id` if it is a change. -/
def setRole (s : State) (r : RequestId) (target : WorkspaceMembership) (role : WorkspaceRole) :
    State :=
  if role = target.role then s.enter r .returned
  else if s.memberships.any fun row => row.id = target.id then
    s.commit r (updateWhere (fun row => row.id = target.id) (fun row => { row with role })
      s.memberships)
  -- `StaleDataError`
  else s.enter r (.raised (.raised (.other 0)))

/-- `DELETE … WHERE id`; deleting no row is not an error. -/
def delete (s : State) (r : RequestId) (target : WorkspaceMembership) : State :=
  s.commit r (s.memberships.filter fun row => row.id ≠ target.id)

end State

def next (s : State) (event : Event) : Option State :=
  let r := event.request
  match s.phases r, event.statement with
  | .idle, .selectEmail payload =>
    some (s.enter r (if s.emailTaken payload.normalizedEmail then
      .raised (.raised (.conflict "an account with this email already exists"))
    else .registering payload))
  | .registering payload, .insertAccount userId workspaceId membershipId =>
    if s.users.all (fun other => other.id != userId) && s.unusedWorkspace workspaceId &&
        s.unusedMembership membershipId then
      some (s.register r payload userId workspaceId membershipId)
    else none
  | .idle, .selectPrincipal sub route =>
    some (s.enter r (match getCurrentPrincipal s.users sub with
      | .error error => .raised error
      | .ok principal => .authenticated principal route))
  | .authenticated principal (.createWorkspace slug), .insertWorkspace workspaceId membershipId =>
    if s.unusedWorkspace workspaceId && s.unusedMembership membershipId then
      some (s.createWorkspace r principal slug workspaceId membershipId)
    else none
  | .authenticated principal (.members workspaceId request), .selectMembership =>
    some (s.enter r
      (match requireWorkspaceRoles managerRoles s.memberships principal workspaceId with
      | .error error => .raised error
      | .ok access => request.start workspaceId access))
  | .findingUser workspaceId access payload, .selectUser =>
    some (s.enter r (match s.users.find? fun user => user.email = payload.normalizedEmail with
      | none => .raised (.raised (.notFound "user must register before being added"))
      | some user => .adding workspaceId access payload user))
  | .adding workspaceId _ payload user, .insertMembership membershipId =>
    if s.unusedMembership membershipId then
      some (s.insertMembership r ⟨membershipId, workspaceId, user.id, payload.role⟩)
    else none
  | .loadingTarget workspaceId access membershipId payload, .selectTarget =>
    some (s.enter r (match s.memberships.find? fun row =>
        row.id = membershipId && row.workspaceId = workspaceId, payload with
      | none, _ => .raised (.raised (.notFound "membership not found"))
      | some target, some payload => updateMember access target payload
      | some target, none => removeMember access target))
  | .updating _ target payload, .flush => some (s.setRole r target payload.role)
  | .removing _ target, .flush => some (s.delete r target)
  | _, .cancel => some (s.enter r (.raised (.raised (.other 0))))
  | _, _ => none

end SupportPilot.Workspaces
