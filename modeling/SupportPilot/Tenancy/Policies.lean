import SupportPilot.Lib.Program
import SupportPilot.Lib.Transition
import SupportPilot.Tenancy.Tables

/-! # Row level security and the identity of a transaction

The policies of the migrations, and the settings they read: `set_tenant_context` and
`set_worker_context` of `packages/database/tenant.py`, which last until the transaction ends.  The
text of an identifier is represented by the identifier, and the empty text by `none`.

A transaction is a program over the database.  It runs on a connection of the pool, is committed
if it returns, and is rolled back if it raises or a statement has failed; transactions follow one
another.  The interleavings of transactions are the subject of the models of the single services. -/

namespace SupportPilot.Tenancy

open Lib

/-! ## Settings -/

/-- The settings of a session.  The outer `none` is a setting that nobody has made since the
connection was opened. -/
structure Settings where
  currentUserId : Option (Option UUID)
  currentWorkspaceId : Option (Option UUID)
  currentWorkerId : Option Text
  deriving DecidableEq

namespace Settings

def fresh : Settings := ⟨none, none, none⟩

/-- `set_tenant_context`. -/
def setTenantContext (settings : Settings) (userId : UUID) (workspaceId : Option UUID) :
    Settings :=
  { settings with currentUserId := some (some userId), currentWorkspaceId := some workspaceId }

/-- `set_worker_context`. -/
def setWorkerContext (settings : Settings) (workerId : Text) : Settings :=
  { settings with currentWorkerId := some (workerId.take 128) }

/-- What is left of a local setting: the value before, or the empty text if there was none. -/
def restored {α : Type} (empty : α) : Option α → Option α → Option α
  | some before, _ => some before
  | none, some _ => some empty
  | none, none => none

/-- The end of a transaction undoes its local settings. -/
def ended (before after : Settings) : Settings where
  currentUserId := restored none before.currentUserId after.currentUserId
  currentWorkspaceId := restored none before.currentWorkspaceId after.currentWorkspaceId
  currentWorkerId := restored [] before.currentWorkerId after.currentWorkerId

end Settings

/-- `app_current_user_id()`, `app_current_workspace_id()` and `app_current_worker_id()`. -/
structure Context where
  userId : Option UUID
  workspaceId : Option UUID
  workerId : Option Text
  deriving DecidableEq

/-- `NULLIF(current_setting(…, true), '')`. -/
def Settings.context (settings : Settings) : Context where
  userId := settings.currentUserId.join
  workspaceId := settings.currentWorkspaceId.join
  workerId := settings.currentWorkerId.filter fun workerId => workerId ≠ []

def Context.nobody : Context := ⟨none, none, none⟩

/-! ## Policies -/

namespace Context

variable (context : Context)

/-- `… = app_current_workspace_id()`, which holds of no row when there is none. -/
def isCurrent (workspaceId : UUID) : Bool := context.workspaceId = some workspaceId

def isUser (userId : UUID) : Bool := context.userId = some userId

/-- `app_current_worker_id() IS NOT NULL`. -/
def isWorker : Bool := context.workerId.isSome

/-- `memberships_select`. -/
def seesMembership (row : MembershipRow) : Bool :=
  context.isCurrent row.workspaceId || context.isUser row.userId

/-- The workspaces that the subquery of `workspaces_select` finds, which row level security limits
like any other. -/
def memberOf (db : Tables) : List UUID :=
  (((db .workspaceMemberships).filter context.seesMembership).filter fun row =>
    context.isUser row.userId).map fun row => row.workspaceId

/-- `…_select`. -/
def selects (db : Tables) : Where Record
  | .users, _ => true
  | .workspaces, row => context.isCurrent row.id || (context.memberOf db).contains row.id
  | .workspaceMemberships, row => context.seesMembership row
  | .documents, row => context.isCurrent row.workspaceId
  | .documentVersions, row => context.isCurrent row.workspaceId
  | .jobs, row => context.isCurrent row.workspaceId || context.isWorker
  | .documentChunks, row => context.isCurrent row.workspaceId

/-- `…_insert`. -/
def inserts : Where Record
  | .users, _ => true
  | .workspaces, row => context.isCurrent row.id && context.isUser row.createdBy
  | .workspaceMemberships, row => context.isCurrent row.workspaceId
  | .documents, row => context.isCurrent row.workspaceId
  | .documentVersions, row => context.isCurrent row.workspaceId
  | .jobs, row => context.isCurrent row.workspaceId
  | .documentChunks, row => context.isCurrent row.workspaceId

/-- `…_update` and `…_delete`, which agree; a policy for updates without `WITH CHECK` checks the
new rows like the old ones. -/
def writes : Where Record
  | .users, _ => true
  | .workspaces, row => context.isCurrent row.id
  | .workspaceMemberships, row => context.isCurrent row.workspaceId
  | .documents, row => context.isCurrent row.workspaceId
  | .documentVersions, row => context.isCurrent row.workspaceId
  | .jobs, row => context.isCurrent row.workspaceId || context.isWorker
  | .documentChunks, row => context.isCurrent row.workspaceId

/-- The policies at the start of a statement. -/
def policies (db : Tables) : Policies Record where
  select := context.selects db
  insert := context.inserts
  update := context.writes
  updated := context.writes
  delete := context.writes

end Context

/-! ## Commands -/

inductive Command where
  | setTenantContext (userId : UUID) (workspaceId : Option UUID)
  | setWorkerContext (workerId : Text)
  | select (t : TableName) (chosen : Record t → Bool)
  | write (w : Write Record) (keeps : KeepsKeys w)

/-- Why a command is not executed. -/
inductive SqlError where
  | refused (reason : Refusal)
  /-- An earlier statement of the transaction has failed. -/
  | inFailedTransaction
  deriving DecidableEq

abbrev Command.Reply : Command → Type
  | .setTenantContext _ _ => Unit
  | .setWorkerContext _ => Unit
  | .select t _ => List (Record t)
  | .write _ _ => Tables

abbrev Answer (command : Command) : Type := Except SqlError command.Reply

structure Transaction where
  tables : Tables
  settings : Settings
  failed : Bool

namespace Transaction

/-- Execute a command under the policies that `secure` gives. -/
def executeUnder (secure : Transaction → Policies Record) (tx : Transaction)
    (command : Command) : Answer command × Transaction :=
  if tx.failed then (.error .inFailedTransaction, tx)
  else match command with
    | .setTenantContext userId workspaceId =>
      (.ok (), { tx with settings := tx.settings.setTenantContext userId workspaceId })
    | .setWorkerContext workerId =>
      (.ok (), { tx with settings := tx.settings.setWorkerContext workerId })
    | .select t chosen => (.ok (((secure tx).view tx.tables t).filter chosen), tx)
    | .write w _ =>
      match schema.execute (secure tx) tx.tables w with
      | .ok tables => (.ok ((secure tx).returned tx.tables w), { tx with tables })
      | .error reason => (.error (.refused reason), { tx with failed := true })

/-- The policies of the identity that the transaction has set. -/
def secured (tx : Transaction) : Policies Record := tx.settings.context.policies tx.tables

def execute : Transaction → (command : Command) → Answer command × Transaction :=
  executeUnder secured

/-- Execution for a role that row level security does not apply to. -/
def executeUnsecured : Transaction → (command : Command) → Answer command × Transaction :=
  executeUnder fun _ => .bypass

def start (tables : Tables) (settings : Settings) : Transaction := ⟨tables, settings, false⟩

/-- The tables after the commit or the rollback. -/
def outcome {χ α : Type} (before : Tables) (ended : Except χ α × Transaction) : Tables :=
  match ended with
  | (.ok _, tx) => if tx.failed then before else tx.tables
  | (.error _, _) => before

end Transaction

/-! ## Programs -/

/-- The code of a request or of a worker between the statements of a transaction. -/
abbrev Handler (α : Type) := Program Command Answer Workspaces.ApiError α

/-- What the driver raises: only a constraint is an `IntegrityError`. -/
def SqlError.raised : SqlError → PyError
  | .refused .constraint => .integrityError
  | _ => .other 0

/-- Issue a command whose failure the code does not expect. -/
def perform (command : Command) : Handler command.Reply :=
  .call command fun
    | .ok reply => .done reply
    | .error error => .raise (.raised error.raised)

theorem calls_perform {ok : Command → Prop} {command : Command} (allowed : ok command) :
    (perform command).Calls ok := by
  refine ⟨allowed, fun answer => ?_⟩
  cases answer <;> trivial

/-! ## The pool -/

abbrev ConnectionId := Nat

structure Server where
  tables : Tables
  sessions : ConnectionId → Settings

/-- A transaction on a connection. -/
structure Event where
  connection : ConnectionId
  program : Handler Unit

namespace Server

def init : Server := ⟨emptyTables, fun _ => .fresh⟩

def ran (s : Server) (event : Event) : Except Workspaces.ApiError Unit × Transaction :=
  event.program.run Transaction.execute (.start s.tables (s.sessions event.connection))

def next (s : Server) (event : Event) : Option Server :=
  some {
    tables := Transaction.outcome s.tables (s.ran event)
    sessions := Function.update s.sessions event.connection
      ((s.sessions event.connection).ended (s.ran event).2.settings) }

end Server

/-! ## Statements -/

theorem sameKey_refl (t : TableName) (row : Record t) : SameKey t row row := by
  cases t <;> rfl

theorem keepsKeys_update {t : TableName} {chosen : Record t → Bool} {set : Record t → Record t}
    (keeps : ∀ row, SameKey t row (set row)) :
    KeepsKeys (.update (Function.update (fun _ _ => false) t chosen)
      (Function.update (fun _ row => row) t set)) := by
  intro t' row
  by_cases same : t' = t
  · subst same
    rw [Function.update_self]
    exact keeps row
  · rw [Function.update_of_ne same]
    exact sameKey_refl t' row

namespace Command

def insertInto (t : TableName) (row : Record t) : Command :=
  .write (.insert (Function.update emptyTables t [row])) trivial

def updateIn (t : TableName) (chosen : Record t → Bool) (set : Record t → Record t)
    (keeps : ∀ row, SameKey t row (set row)) : Command :=
  .write (.update (Function.update (fun _ _ => false) t chosen)
    (Function.update (fun _ row => row) t set)) (keepsKeys_update keeps)

def deleteFrom (t : TableName) (chosen : Record t → Bool) : Command :=
  .write (.delete (Function.update (fun _ _ => false) t chosen)) trivial

end Command

/-! ## Samples -/

def sampleUser (id : UUID) : UserRow := ⟨⟨id, [Char.ofNat (id + 97)], true⟩, ['n'], ['h'], 0, 0⟩

def sampleWorkspace (id createdBy : UUID) : WorkspaceRow :=
  ⟨⟨id, [Char.ofNat (id + 97)], createdBy⟩, ['w', 's'], 0, 0⟩

/-- A user with a workspace and the membership of its owner. -/
def founding (userId workspaceId membershipId : UUID) : Handler Unit := do
  let _ ← perform (.insertInto .users (sampleUser userId))
  perform (.setTenantContext userId (some workspaceId))
  let _ ← perform (.insertInto .workspaces (sampleWorkspace workspaceId userId))
  let _ ← perform (.insertInto .workspaceMemberships
    ⟨⟨membershipId, workspaceId, userId, .owner⟩, 0, 0⟩)

def sampleVersion (id workspaceId documentId createdBy : UUID) : VersionRow where
  id := id
  workspaceId := workspaceId
  documentId := documentId
  versionNumber := 1
  objectKey := .version workspaceId documentId id ['f']
  originalFilename := ['f']
  mediaType := ['m']
  byteSize := 1
  sha256 := List.replicate 64 '0'
  status := .active
  createdBy := createdBy
  createdAt := 0
  updatedAt := 0

def sampleChunk (workspaceId documentId versionId : UUID) : Rag.DocumentChunk where
  chunkId := List.replicate 64 (Char.ofNat (versionId + 97))
  workspaceId := workspaceId
  documentId := documentId
  versionId := versionId
  pipelineVersion := "rag-v1-c1-e1".toList
  chunkOrder := 0
  originalText := ['x']
  tokenCount := 1
  locators := []
  headingPath := []
  pageNumber := none
  documentTitle := ['t']
  embedding := []

/-- A document with an active version and its chunk. -/
def publishing (userId workspaceId documentId versionId : UUID) : Handler Unit := do
  perform (.setTenantContext userId (some workspaceId))
  let _ ← perform (.insertInto .documents
    ⟨⟨documentId, workspaceId, ['d'], none, userId, none⟩, 0, 0⟩)
  let _ ← perform (.insertInto .documentVersions
    (sampleVersion versionId workspaceId documentId userId))
  let _ ← perform (.insertInto .documentChunks (sampleChunk workspaceId documentId versionId))
  let _ ← perform (.updateIn .documents (fun row => row.id = documentId)
    (fun row => { row with activeVersionId := some versionId }) fun _ => rfl)

/-- Two workspaces, one with a document. -/
def sampleEvents : List Event :=
  [⟨0, founding 1 10 100⟩, ⟨1, founding 2 20 200⟩, ⟨0, publishing 1 10 11 12⟩]

end SupportPilot.Tenancy
