import SupportPilot.Tenancy.Policies
import SupportPilot.Worker.Main

/-! # The routes of a workspace

`apps/api/dependencies.py`, `apps/api/routes/workspaces.py` and the routes of
`apps/api/routes/documents.py` that use nothing but the database, statement by statement.  A
request has checked its access before its route runs.

The clock, the collation of names and the identifiers that `uuid4` draws are arguments, and so is
the subject of the access token: `none` is a missing or invalid one.  A flush issues an `UPDATE`
only for columns that change, and expects it to find its row. -/

namespace SupportPilot.Tenancy

open Lib Workspaces Security

/-! ## Responses -/

structure WorkspaceResponse where
  id : UUID
  name : Text
  slug : Text
  role : WorkspaceRole
  createdAt : Nat
  deriving DecidableEq

structure MembershipResponse where
  id : UUID
  userId : UUID
  email : Text
  displayName : Text
  role : WorkspaceRole
  createdAt : Nat
  deriving DecidableEq

structure DocumentVersionResponse where
  id : UUID
  documentId : UUID
  versionNumber : Nat
  originalFilename : Text
  mediaType : Text
  byteSize : Nat
  sha256 : Text
  status : DocumentVersionStatus
  createdBy : UUID
  createdAt : Nat
  updatedAt : Nat
  deriving DecidableEq

structure JobResponse where
  id : UUID
  jobType : JobType
  state : JobState
  attemptCount : Nat
  maxAttempts : Nat
  availableAt : Nat
  leaseExpiresAt : Option Nat
  errorCode : Option Text
  errorMessage : Option Text
  createdAt : Nat
  updatedAt : Nat
  deriving DecidableEq

structure DocumentResponse where
  id : UUID
  workspaceId : UUID
  displayName : Text
  activeVersionId : Option UUID
  createdBy : UUID
  deletedAt : Option Nat
  createdAt : Nat
  updatedAt : Nat
  latestVersion : Option DocumentVersionResponse
  deriving DecidableEq

structure DocumentDetailResponse extends DocumentResponse where
  versions : List DocumentVersionResponse
  jobs : List JobResponse
  deriving DecidableEq

inductive Response where
  | workspaces (workspaces : List WorkspaceResponse)
  | workspace (workspace : WorkspaceResponse)
  | members (members : List MembershipResponse)
  | member (member : MembershipResponse)
  | documents (documents : List DocumentResponse)
  | document (document : DocumentResponse)
  | detail (document : DocumentDetailResponse)
  | job (job : JobResponse)
  | noContent
  deriving DecidableEq

def workspaceResponse (workspace : WorkspaceRow) (role : WorkspaceRole) : WorkspaceResponse where
  id := workspace.id
  name := workspace.name
  slug := workspace.slug
  role := role
  createdAt := workspace.createdAt

def membershipResponse (membership : MembershipRow) (user : UserRow) : MembershipResponse where
  id := membership.id
  userId := membership.userId
  email := user.email
  displayName := user.displayName
  role := membership.role
  createdAt := membership.createdAt

def versionResponse (version : VersionRow) : DocumentVersionResponse where
  id := version.id
  documentId := version.documentId
  versionNumber := version.versionNumber
  originalFilename := version.originalFilename
  mediaType := version.mediaType
  byteSize := version.byteSize
  sha256 := version.sha256
  status := version.status
  createdBy := version.createdBy
  createdAt := version.createdAt
  updatedAt := version.updatedAt

def jobResponse (job : JobRow) : JobResponse where
  id := job.id
  jobType := job.jobType
  state := job.state
  attemptCount := job.attemptCount
  maxAttempts := job.maxAttempts
  availableAt := job.availableAt
  leaseExpiresAt := job.leaseExpiresAt
  errorCode := job.errorCode
  errorMessage := job.errorMessage
  createdAt := job.createdAt
  updatedAt := job.updatedAt

/-! ## Statements of a handler -/

/-- `session.scalar(select(…))` and `session.get(…)`. -/
def scalar (t : TableName) (chosen : Record t → Bool) : Handler (Option (Record t)) := do
  let rows ← perform (.select t chosen)
  return rows.head?

/-- The flush of one changed row; the driver reports how many rows the `UPDATE` has found. -/
def flushRow (t : TableName) (chosen : Record t → Bool) (set : Record t → Record t)
    (keeps : ∀ row, SameKey t row (set row)) : Handler Unit := do
  let returned ← perform (.updateIn t chosen set keeps)
  if (returned t).length = 1 then pure ()
  -- `StaleDataError`
  else throw (.raised (.other 0))

def raiseUnless {α : Type} (found : Option α) (error : ApiError) : Handler α :=
  match found with
  | some a => pure a
  | none => throw error

/-! ## Dependencies -/

/-- `get_current_principal`. -/
def currentPrincipal (sub : Option UUID) : Handler UserRow := do
  let sub ← raiseUnless sub (.http 401 "authentication required")
  let found ← scalar .users fun row => row.id = sub
  let user ← raiseUnless found (.http 401 "authentication required")
  if user.isActive then
    perform (.setTenantContext user.id none)
    return user
  else throw (.http 401 "authentication required")

/-- `require_workspace_roles(*roles)`. -/
def workspaceAccess (roles : List WorkspaceRole) (principal : UserRow) (workspaceId : UUID) :
    Handler MembershipRow := do
  perform (.setTenantContext principal.id (some workspaceId))
  let found ← scalar .workspaceMemberships fun row =>
    row.workspaceId = workspaceId && row.userId = principal.id
  let membership ← raiseUnless found (.http 404 "workspace not found")
  if !roles.isEmpty && !roleIsAllowed membership.role roles then
    throw (.http 403 "insufficient workspace role")
  else return membership

/-- `WorkspaceContributorAccess`. -/
def contributorRoles : List WorkspaceRole := [.owner, .admin, .agent]

/-! ## Routes -/

/-- What a request is given besides its arguments: `now()` of its transaction,
`datetime.now(UTC)`, the collation of the database, and what `uuid4` draws. -/
structure Environment where
  now : Nat
  clock : Nat
  collated : Text → Text → Bool
  drawnId : UUID
  drawnMembershipId : UUID

/-- The routes below `/workspaces/{workspace_id}`, with their validated bodies. -/
inductive WorkspaceRoute where
  | getWorkspace
  | updateWorkspace (name : Text)
  | listMembers
  | addMember (payload : MembershipCreate)
  | updateMember (membershipId : UUID) (payload : MembershipUpdate)
  | removeMember (membershipId : UUID)
  | listDocuments
  | getDocument (documentId : UUID)
  | updateDocument (documentId : UUID) (displayName : Text)
  | deleteDocument (documentId : UUID)
  | retryDocumentJob (jobId : UUID)

/-- The roles that the dependency of the route lets in; an empty list lets in every role. -/
def WorkspaceRoute.roles : WorkspaceRoute → List WorkspaceRole
  | .getWorkspace | .listMembers | .listDocuments | .getDocument _ => []
  | .updateWorkspace _ | .addMember _ | .updateMember _ _ | .removeMember _ | .updateDocument _ _
  | .deleteDocument _ => managerRoles
  | .retryDocumentJob _ => contributorRoles

section Routes

variable (env : Environment) (workspaceId : UUID) (principal : UserRow) (access : MembershipRow)

/-- `list_workspaces`: one `SELECT` with a join. -/
def listWorkspaces : Handler Response := do
  let memberships ← perform (.select .workspaceMemberships fun row => row.userId = principal.id)
  let workspaces ← perform (.select .workspaces fun row =>
    memberships.any fun membership => membership.workspaceId = row.id)
  let ordered := workspaces.insertionSort fun a b => env.collated a.name b.name = true
  return .workspaces (ordered.flatMap fun workspace =>
    (memberships.filter fun membership => membership.workspaceId = workspace.id).map
      fun membership => workspaceResponse workspace membership.role)

/-- `create_workspace`. -/
def createWorkspace (name slug : Text) : Handler Response := do
  let workspace : WorkspaceRow := ⟨⟨env.drawnId, slug, principal.id⟩, strip name, env.now, env.now⟩
  perform (.setTenantContext principal.id (some workspace.id))
  let flush : Handler Unit := do
    let _ ← perform (.insertInto .workspaces workspace)
    let _ ← perform (.insertInto .workspaceMemberships
      ⟨⟨env.drawnMembershipId, workspace.id, principal.id, .owner⟩, env.now, env.now⟩)
  tryCatch flush fun
    | .raised .integrityError => throw (.raised (.conflict "workspace slug is already in use"))
    | error => throw error
  return .workspace (workspaceResponse workspace .owner)

def getWorkspace : Handler Response := do
  let found ← scalar .workspaces fun row => row.id = workspaceId
  let workspace ← raiseUnless found (.raised (.notFound "workspace not found"))
  return .workspace (workspaceResponse workspace access.role)

def updateWorkspace (name : Text) : Handler Response := do
  let found ← scalar .workspaces fun row => row.id = workspaceId
  let workspace ← raiseUnless found (.raised (.notFound "workspace not found"))
  if strip name = workspace.name then
    return .workspace (workspaceResponse workspace access.role)
  else
    flushRow .workspaces (fun row => row.id = workspace.id)
      (fun row => { row with name := strip name, updatedAt := env.now }) fun _ => rfl
    return .workspace (workspaceResponse { workspace with name := strip name } access.role)

/-- A membership with the user that is loaded with it. -/
def memberResponse (users : List UserRow) (membership : MembershipRow) :
    Handler MembershipResponse :=
  match users.find? fun user => user.id = membership.userId with
  | some user => pure (membershipResponse membership user)
  -- `membership.user` is `None`
  | none => throw (.raised (.other 0))

def listMembers : Handler Response := do
  let memberships ← perform (.select .workspaceMemberships fun row =>
    row.workspaceId = workspaceId)
  let users ← perform (.select .users fun user =>
    memberships.any fun membership => membership.userId = user.id)
  let members ← (Table.orderBy (fun row : MembershipRow => row.createdAt) memberships).mapM
    (memberResponse users)
  return .members members

def addMember (payload : MembershipCreate) : Handler Response := do
  if canManageRole access.role payload.role then
    let found ← scalar .users fun row => row.email = payload.normalizedEmail
    let user ← raiseUnless found (.raised (.notFound "user must register before being added"))
    let membership : MembershipRow :=
      ⟨⟨env.drawnMembershipId, workspaceId, user.id, payload.role⟩, env.now, env.now⟩
    let flush : Handler Unit := do
      let _ ← perform (.insertInto .workspaceMemberships membership)
    tryCatch flush fun
      | .raised .integrityError => throw (.raised (.conflict "user is already a workspace member"))
      | error => throw error
    return .member (membershipResponse membership user)
  else throw (.http 403 "role cannot be assigned by this actor")

/-- `load_target_membership`. -/
def loadTargetMembership (membershipId : UUID) : Handler MembershipRow := do
  let found ← scalar .workspaceMemberships fun row =>
    row.id = membershipId && row.workspaceId = workspaceId
  raiseUnless found (.raised (.notFound "membership not found"))

def updateMember (membershipId : UUID) (payload : MembershipUpdate) : Handler Response := do
  let target ← loadTargetMembership workspaceId membershipId
  let users ← perform (.select .users fun row => row.id = target.userId)
  if target.userId = principal.id then
    throw (.raised (.conflict "you cannot change your own role"))
  else if !canManageRole access.role target.role || !canManageRole access.role payload.role then
    throw (.http 403 "membership cannot be managed by this actor")
  else if (payload.role : WorkspaceRole) = target.role then
    let member ← memberResponse users target
    return .member member
  else
    flushRow .workspaceMemberships (fun row => row.id = target.id)
      (fun row => { row with role := payload.role, updatedAt := env.now }) fun _ => rfl
    let member ← memberResponse users { target with role := payload.role }
    return .member member

def removeMember (membershipId : UUID) : Handler Response := do
  let target ← loadTargetMembership workspaceId membershipId
  if target.userId = principal.id then
    throw (.raised (.conflict "you cannot remove yourself"))
  else if !canManageRole access.role target.role then
    throw (.http 403 "membership cannot be managed by this actor")
  else
    -- flushed by the commit
    let _ ← perform (.deleteFrom .workspaceMemberships fun row => row.id = target.id)
    return .noContent

/-- `ORDER BY version_number DESC`. -/
def newestFirst (versions : List VersionRow) : List VersionRow :=
  Table.orderBy (fun row => OrderDual.toDual row.versionNumber) versions

def responseOf (document : DocumentRow) (latest : Option VersionRow) : DocumentResponse where
  id := document.id
  workspaceId := document.workspaceId
  displayName := document.displayName
  activeVersionId := document.activeVersionId
  createdBy := document.createdBy
  deletedAt := document.deletedAt
  createdAt := document.createdAt
  updatedAt := document.updatedAt
  latestVersion := latest.map versionResponse

/-- `document_response`: the versions are selected by their document alone. -/
def documentResponse (document : DocumentRow) : Handler DocumentResponse := do
  let versions ← perform (.select .documentVersions fun row => row.documentId = document.id)
  return responseOf document (newestFirst versions).head?

def listDocuments : Handler Response := do
  let documents ← perform (.select .documents fun row =>
    row.workspaceId = workspaceId && row.deletedAt = none)
  let responses ← (Table.orderBy (fun row : DocumentRow => OrderDual.toDual row.createdAt)
    documents).mapM documentResponse
  return .documents responses

/-- The live document of the workspace. -/
def loadDocument (documentId : UUID) : Handler DocumentRow := do
  let found ← scalar .documents fun row =>
    row.id = documentId && row.workspaceId = workspaceId && row.deletedAt = none
  raiseUnless found (.raised (.notFound "document not found"))

def getDocument (documentId : UUID) : Handler Response := do
  let document ← loadDocument workspaceId documentId
  let versions ← perform (.select .documentVersions fun row => row.documentId = document.id)
  let jobs ← perform (.select .jobs fun row => row.workspaceId = workspaceId)
  let documentJobs := (Table.orderBy (fun row : JobRow => OrderDual.toDual row.createdAt)
    jobs).filter fun job => job.payload.documentId = some document.id
  let base ← documentResponse document
  return .detail { base with
    versions := (newestFirst versions).map versionResponse
    jobs := documentJobs.map jobResponse }

/-- `session.refresh`. -/
def refresh (t : TableName) (chosen : Record t → Bool) : Handler (Record t) := do
  let found ← scalar t chosen
  raiseUnless found (.raised (.other 0))

/-- `document.display_name = payload.display_name`, flushed. -/
def rename (document : DocumentRow) (displayName : Text) : Handler Unit :=
  if displayName = document.displayName then pure ()
  else flushRow .documents (fun row => row.id = document.id)
    (fun row => { row with displayName, updatedAt := env.now }) fun _ => rfl

def updateDocument (documentId : UUID) (displayName : Text) : Handler Response := do
  let document ← loadDocument workspaceId documentId
  rename env document displayName
  let refreshed ← refresh .documents fun row => row.id = document.id
  let response ← documentResponse refreshed
  return .document response

def deleteDocument (documentId : UUID) : Handler Response := do
  let document ← loadDocument workspaceId documentId
  flushRow .documents (fun row => row.id = document.id)
    (fun row => { row with
      deletedAt := some env.clock, activeVersionId := none, updatedAt := env.now }) fun _ => rfl
  let _ ← perform (.insertInto .jobs ⟨.new env.drawnId workspaceId .deleteObject
    ⟨some document.id, none⟩ (Documents.deleteKey document.id) 5 env.now, env.now⟩)
  return .noContent

/-- `retry_job` and the response. -/
def retryDocumentJob (jobId : UUID) : Handler Response := do
  let found ← scalar .jobs fun row => row.id = jobId && row.workspaceId = workspaceId
  let job ← raiseUnless found (.raised (.notFound "job not found"))
  if job.state ∉ [JobState.failed, .deadLetter] then
    throw (.raised (.conflict "only failed or dead-letter jobs can be retried"))
  else
    flushRow .jobs (fun row => row.id = job.id)
      (fun row => ⟨row.toJob.retry env.clock, env.now⟩) fun _ => rfl
    let refreshed ← refresh .jobs fun row => row.id = job.id
    return .job (jobResponse refreshed)

def WorkspaceRoute.handle : WorkspaceRoute → Handler Response
  | .getWorkspace => Tenancy.getWorkspace workspaceId access
  | .updateWorkspace name => Tenancy.updateWorkspace env workspaceId access name
  | .listMembers => Tenancy.listMembers workspaceId
  | .addMember payload => Tenancy.addMember env workspaceId access payload
  | .updateMember membershipId payload =>
    Tenancy.updateMember env workspaceId principal access membershipId payload
  | .removeMember membershipId => Tenancy.removeMember workspaceId principal access membershipId
  | .listDocuments => Tenancy.listDocuments workspaceId
  | .getDocument documentId => Tenancy.getDocument workspaceId documentId
  | .updateDocument documentId displayName =>
    Tenancy.updateDocument env workspaceId documentId displayName
  | .deleteDocument documentId => Tenancy.deleteDocument env workspaceId documentId
  | .retryDocumentJob jobId => Tenancy.retryDocumentJob env workspaceId jobId

end Routes

/-! ## Requests -/

inductive Request where
  | listWorkspaces
  | createWorkspace (name slug : Text)
  | ofWorkspace (workspaceId : UUID) (route : WorkspaceRoute)

def Request.handle (env : Environment) (sub : Option UUID) : Request → Handler Response
  | .listWorkspaces => do
    let principal ← currentPrincipal sub
    Tenancy.listWorkspaces env principal
  | .createWorkspace name slug => do
    let principal ← currentPrincipal sub
    Tenancy.createWorkspace env principal name slug
  | .ofWorkspace workspaceId route => do
    let principal ← currentPrincipal sub
    let access ← workspaceAccess route.roles principal workspaceId
    route.handle env workspaceId principal access

end SupportPilot.Tenancy
