import SupportPilot.Tenancy.Confidentiality
import SupportPilot.Tenancy.Routes

/-! # Who may do what

A request gets as far as its route only for an active user who is a member of the workspace in a
role that the route lets in (`run_ofWorkspace`); every other request raises before it has written
anything, and what it raises depends on the user and the membership alone.  The routes that let
in every role only read, and the only write of an agent is a retried job (`changes_need_role`). -/

namespace SupportPilot.Tenancy

open Lib Workspaces Security

variable {tx : Transaction} {t : TableName} {chosen : Record t → Bool} {env : Environment}
  {workspaceId : UUID} {principal : UserRow} {membership : MembershipRow} {sub : Option UUID}
  {roles : List WorkspaceRole}

/-! ## Statements -/

theorem run_select (sound : tx.failed = false) :
    (perform (.select t chosen)).run Transaction.execute tx =
      (.ok ((tx.secured.view tx.tables t).filter chosen), tx) := by
  simp only [perform, Program.run, Transaction.execute, Transaction.executeUnder, sound,
    Bool.false_eq_true, if_false]

theorem run_setTenantContext {userId : UUID} {current : Option UUID} (sound : tx.failed = false) :
    (perform (.setTenantContext userId current)).run Transaction.execute tx =
      (.ok (), { tx with settings := tx.settings.setTenantContext userId current }) := by
  simp only [perform, Program.run, Transaction.execute, Transaction.executeUnder, sound,
    Bool.false_eq_true, if_false]

theorem run_write {w : Write Record} {keeps : KeepsKeys w} (sound : tx.failed = false) :
    (perform (.write w keeps)).run Transaction.execute tx =
      match schema.execute tx.secured tx.tables w with
      | .ok tables => (.ok (tx.secured.returned tx.tables w), { tx with tables })
      | .error reason =>
        (.error (.raised (SqlError.refused reason).raised), { tx with failed := true }) := by
  simp only [perform, Program.run, Transaction.execute, Transaction.executeUnder, sound,
    Bool.false_eq_true, if_false]
  cases schema.execute tx.secured tx.tables w <;> rfl

theorem run_insertInto {row : Record t} (sound : tx.failed = false) :
    (perform (.insertInto t row)).run Transaction.execute tx =
      match schema.execute tx.secured tx.tables (.insert (Function.update emptyTables t [row])) with
      | .ok tables => (.ok (Function.update emptyTables t [row]), { tx with tables })
      | .error reason =>
        (.error (.raised (SqlError.refused reason).raised), { tx with failed := true }) :=
  run_write sound

theorem run_updateIn {set : Record t → Record t} {keeps : ∀ row, SameKey t row (set row)}
    (sound : tx.failed = false) :
    let write : Write Record := .update (Function.update (fun _ _ => false) t chosen)
      (Function.update (fun _ row => row) t set)
    (perform (.updateIn t chosen set keeps)).run Transaction.execute tx =
      match schema.execute tx.secured tx.tables write with
      | .ok tables => (.ok (tx.secured.returned tx.tables write), { tx with tables })
      | .error reason =>
        (.error (.raised (SqlError.refused reason).raised), { tx with failed := true }) :=
  run_write sound

theorem run_scalar (sound : tx.failed = false) :
    (scalar t chosen).run Transaction.execute tx =
      (.ok ((tx.secured.view tx.tables t).find? chosen), tx) := by
  simp only [scalar, Program.run_bind, run_select sound, Program.run_pure, List.head?_filter]

/-! ## Access -/

/-- What the dependencies find in the tables. -/
def accessOf (db : Tables) (sub : Option UUID) (roles : List WorkspaceRole) (workspaceId : UUID) :
    Except ApiError (UserRow × MembershipRow) :=
  match sub.bind fun id => (db .users).find? fun row => row.id = id with
  | none => .error (.http 401 "authentication required")
  | some user =>
    if user.isActive then
      match (db .workspaceMemberships).find? fun row =>
          row.workspaceId = workspaceId && row.userId = user.id with
      | none => .error (.http 404 "workspace not found")
      | some membership =>
        if !roles.isEmpty && !roleIsAllowed membership.role roles then
          .error (.http 403 "insufficient workspace role")
        else .ok (user, membership)
    else .error (.http 401 "authentication required")

/-- The settings of a request that has been let in. -/
def granted (settings : Settings) (userId workspaceId : UUID) : Settings :=
  settings.setTenantContext userId (some workspaceId)

/-- They find what the services look for. -/
theorem accessOf_eq (db : Tables) (id : UUID) :
    (accessOf db (some id) roles workspaceId).map
        (fun access => WorkspaceAccess.mk ⟨access.1.toUser⟩ access.2.toWorkspaceMembership) = (do
      let principal ← getCurrentPrincipal ((db .users).map (·.toUser)) id
      requireWorkspaceRoles roles ((db .workspaceMemberships).map (·.toWorkspaceMembership))
        principal workspaceId) := by
  simp only [accessOf, Option.bind_some, getCurrentPrincipal, requireWorkspaceRoles, Table.lookup,
    List.find?_map, Function.comp_def]
  change (Except.map _ (match (db .users).find? fun row => row.id = id with
    | none => _
    | some user => _)) = _
  cases (db .users).find? fun row => row.id = id with
  | none => rfl
  | some user =>
    show Except.map _ _ = Except.bind (if user.isActive = true then _ else _) _
    simp only
    split
    · simp only [Except.bind]
      cases (db .workspaceMemberships).find? fun row =>
          row.workspaceId = workspaceId && row.userId = user.id with
      | none => rfl
      | some membership =>
        simp only [Option.map_some]
        split <;> rfl
    · rfl

theorem accessOf_ok {db : Tables}
    (access : accessOf db sub roles workspaceId = .ok (principal, membership)) :
    sub = some principal.id ∧ principal ∈ db .users ∧ principal.isActive = true ∧
      membership ∈ db .workspaceMemberships ∧ membership.workspaceId = workspaceId ∧
      membership.userId = principal.id ∧ (roles = [] ∨ membership.role ∈ roles) := by
  simp only [accessOf] at access
  split at access
  next => cases access
  next user found =>
    split at access
    next active =>
      split at access
      next => cases access
      next row found' =>
        split at access
        next => cases access
        next sufficient =>
          cases access
          obtain ⟨id, rfl, found⟩ := Option.bind_eq_some_iff.mp found
          have same := List.find?_some found
          have belongs := List.find?_some found'
          simp only [Bool.and_eq_true, decide_eq_true_eq] at same belongs
          refine ⟨congrArg some same.symm, List.mem_of_find?_eq_some found, active,
            List.mem_of_find?_eq_some found', belongs.1, belongs.2, ?_⟩
          simpa [roleIsAllowed, or_iff_not_imp_left] using sufficient
    next => cases access

theorem run_currentPrincipal (sound : tx.failed = false) :
    (currentPrincipal sub).run Transaction.execute tx =
      match sub.bind fun id => (tx.tables .users).find? fun row => row.id = id with
      | none => (.error (.http 401 "authentication required"), tx)
      | some user =>
        if user.isActive then
          (.ok user, { tx with settings := tx.settings.setTenantContext user.id none })
        else (.error (.http 401 "authentication required"), tx) := by
  have users : tx.secured.view tx.tables .users = tx.tables .users := List.filter_eq_self.mpr
    fun _ _ => rfl
  unfold currentPrincipal
  cases sub with
  | none => rfl
  | some id =>
    simp only [raiseUnless, Program.run_bind, Program.run_pure, run_scalar sound, users,
      Option.bind_some]
    cases (tx.tables .users).find? fun row => row.id = id with
    | none => rfl
    | some user =>
      simp only [Program.run_pure]
      split
      · simp only [Program.run_bind, run_setTenantContext sound, Program.run_pure]
      · rfl

/-- The membership that is looked up is visible. -/
theorem find_membership {settings : Settings} {userId : UUID} (db : Tables) :
    (((granted settings userId workspaceId).context.policies db).view db
        .workspaceMemberships).find?
      (fun row => row.workspaceId = workspaceId && row.userId = userId) =
    (db .workspaceMemberships).find?
      (fun row => row.workspaceId = workspaceId && row.userId = userId) := by
  refine Policies.find_view fun row _ chosen => ?_
  simp only [Bool.and_eq_true, decide_eq_true_eq] at chosen
  show ((granted settings userId workspaceId).context.isCurrent row.workspaceId || _) = true
  simp [Context.isCurrent, granted, Settings.setTenantContext, Settings.context, chosen]

theorem run_workspaceAccess (sound : tx.failed = false) :
    (workspaceAccess roles principal workspaceId).run Transaction.execute tx =
      (match (tx.tables .workspaceMemberships).find? fun row =>
          row.workspaceId = workspaceId && row.userId = principal.id with
      | none => .error (.http 404 "workspace not found")
      | some membership =>
        if !roles.isEmpty && !roleIsAllowed membership.role roles then
          .error (.http 403 "insufficient workspace role")
        else .ok membership,
      { tx with settings := granted tx.settings principal.id workspaceId }) := by
  simp only [workspaceAccess, Program.run_bind, run_setTenantContext sound]
  rw [run_scalar (by exact sound)]
  simp only [Transaction.secured]
  rw [show tx.settings.setTenantContext principal.id (some workspaceId) =
    granted tx.settings principal.id workspaceId from rfl, find_membership]
  cases (tx.tables .workspaceMemberships).find? fun row =>
      row.workspaceId = workspaceId && row.userId = principal.id with
  | none => rfl
  | some membership =>
    simp only [raiseUnless, Program.run_pure]
    split <;> rfl

/-- A request that is refused access raises what the tables say, and has only made settings. -/
theorem run_refused {route : WorkspaceRoute} {error : ApiError} (env : Environment)
    (sound : tx.failed = false)
    (refused : accessOf tx.tables sub route.roles workspaceId = .error error) :
    ∃ settings, ((Request.ofWorkspace workspaceId route).handle env sub).run Transaction.execute tx =
      (.error error, { tx with settings }) := by
  simp only [Request.handle, Program.run_bind, run_currentPrincipal sound]
  simp only [accessOf] at refused
  split at refused
  next => exact ⟨tx.settings, by cases refused; rfl⟩
  next user found =>
    by_cases active : user.isActive = true
    · simp only [active, if_true] at refused ⊢
      rw [run_workspaceAccess (by exact sound)]
      refine ⟨granted (tx.settings.setTenantContext user.id none) user.id workspaceId, ?_⟩
      split at refused
      next none => cases refused; simp only [none]
      next membership found =>
        simp only [found]
        split at refused
        next insufficient => cases refused; rw [if_pos insufficient]
        next => cases refused
    · simp only [active, Bool.false_eq_true, if_false] at refused ⊢
      exact ⟨tx.settings, by cases refused; rfl⟩

/-- Every other request goes on to its route, as the user in the workspace. -/
theorem run_granted {route : WorkspaceRoute} (sound : tx.failed = false)
    (access : accessOf tx.tables sub route.roles workspaceId = .ok (principal, membership)) :
    ((Request.ofWorkspace workspaceId route).handle env sub).run Transaction.execute tx =
      (route.handle env workspaceId principal membership).run Transaction.execute
        { tx with settings := granted tx.settings principal.id workspaceId } := by
  simp only [Request.handle, Program.run_bind, run_currentPrincipal sound]
  simp only [accessOf] at access
  split at access
  next => cases access
  next user found =>
    by_cases active : user.isActive = true
    · simp only [active, if_true] at access ⊢
      rw [run_workspaceAccess (by exact sound)]
      split at access
      next => cases access
      next row found =>
        simp only [found]
        split at access
        next => cases access
        next sufficient =>
          cases access
          rw [if_neg sufficient]
          rfl
    · simp only [active, Bool.false_eq_true, if_false] at access
      cases access

/-! ## Writes -/

/-- A command that writes these tables alone, and deletes nothing but memberships. -/
def WritesOnly (written : List TableName) : Command → Prop
  | .setTenantContext _ _ => True
  | .setWorkerContext _ => True
  | .select _ _ => True
  | .write (.insert rows) _ => ∀ t, t ∉ written → rows t = []
  | .write (.update chosen _) _ => ∀ t, t ∉ written → ∀ row, chosen t row = false
  | .write (.delete chosen) _ => .workspaceMemberships ∈ written ∧
      ∀ t, t ≠ .workspaceMemberships → ∀ row, chosen t row = false

/-- The tables that the route writes. -/
def WorkspaceRoute.writes : WorkspaceRoute → List TableName
  | .getWorkspace | .listMembers | .listDocuments | .getDocument _ => []
  | .updateWorkspace _ => [.workspaces]
  | .addMember _ | .updateMember _ _ | .removeMember _ => [.workspaceMemberships]
  | .updateDocument _ _ => [.documents]
  | .deleteDocument _ => [.documents, .jobs]
  | .retryDocumentJob _ => [.jobs]

/-- The commands of a route: they set no identity, and write what the route writes. -/
def OfRoute (written : List TableName) (command : Command) : Prop :=
  Anonymous command ∧ WritesOnly written command

section Calls

variable {written : List TableName} {ok : Command → Prop} {α : Type}

theorem ofRoute_insertInto {row : Record t} (listed : t ∈ written) :
    OfRoute written (.insertInto t row) := by
  refine ⟨trivial, fun t' unlisted => ?_⟩
  rw [Function.update_of_ne (by rintro rfl; exact unlisted listed)]
  rfl

theorem ofRoute_updateIn {set : Record t → Record t} {keeps : ∀ row, SameKey t row (set row)}
    (listed : t ∈ written) : OfRoute written (.updateIn t chosen set keeps) := by
  refine ⟨trivial, fun t' unlisted row => ?_⟩
  rw [Function.update_of_ne (by rintro rfl; exact unlisted listed)]

theorem ofRoute_deleteFrom {chosen : MembershipRow → Bool}
    (listed : .workspaceMemberships ∈ written) :
    OfRoute written (.deleteFrom .workspaceMemberships chosen) := by
  refine ⟨fun row => rfl, listed, fun t' other row => ?_⟩
  rw [Function.update_of_ne other]

theorem calls_scalar (allowed : ok (.select t chosen)) : (scalar t chosen).Calls ok :=
  .bind (calls_perform allowed) fun _ => Program.calls_pure

theorem calls_raiseUnless {found : Option α} {error : ApiError} :
    (raiseUnless found error).Calls ok := by
  cases found <;> trivial

theorem calls_flushRow {set : Record t → Record t} {keeps : ∀ row, SameKey t row (set row)}
    (allowed : ok (.updateIn t chosen set keeps)) : (flushRow t chosen set keeps).Calls ok := by
  refine .bind (calls_perform allowed) fun returned => ?_
  split <;> trivial

theorem calls_mapM {β : Type} {f : α → Handler β} (each : ∀ a, (f a).Calls ok) (l : List α) :
    (l.mapM f).Calls ok := by
  induction l with
  | nil => exact Program.calls_pure
  | cons a l ih =>
    rw [List.mapM_cons]
    exact .bind (each a) fun _ => .bind ih fun _ => Program.calls_pure

theorem calls_found {found : Option α} {error : ApiError} {rest : α → Handler Response}
    (calls : ∀ a, (rest a).Calls ok) : (raiseUnless found error >>= rest).Calls ok :=
  .bind calls_raiseUnless calls

theorem calls_memberResponse {users : List UserRow} {membership : MembershipRow} :
    (memberResponse users membership).Calls ok := by
  unfold memberResponse
  split <;> trivial

theorem select_ofRoute : OfRoute written (.select t chosen) := ⟨trivial, trivial⟩

theorem calls_documentResponse {document : DocumentRow} :
    (documentResponse document).Calls (OfRoute written) :=
  .bind (calls_perform select_ofRoute) fun _ => Program.calls_pure

/-- What a route can do, whatever it is answered. -/
theorem calls_handle (env : Environment) (workspaceId : UUID) (principal : UserRow)
    (membership : MembershipRow) (route : WorkspaceRoute) :
    (route.handle env workspaceId principal membership).Calls (OfRoute route.writes) := by
  cases route with
  | getWorkspace =>
    exact .bind (calls_scalar select_ofRoute) fun _ => calls_found fun _ => Program.calls_pure
  | updateWorkspace name =>
    refine .bind (calls_scalar select_ofRoute) fun _ => calls_found fun workspace => ?_
    split
    · exact Program.calls_pure
    · exact .bind (calls_flushRow (ofRoute_updateIn (by simp [WorkspaceRoute.writes]))) fun _ =>
        Program.calls_pure
  | listMembers =>
    refine .bind (calls_perform select_ofRoute) fun memberships => ?_
    refine .bind (calls_perform select_ofRoute) fun users => ?_
    exact .bind (calls_mapM (fun _ => calls_memberResponse) _) fun _ => Program.calls_pure
  | addMember payload =>
    show (Tenancy.addMember _ _ _ _).Calls _
    unfold Tenancy.addMember
    split
    · refine .bind (calls_scalar select_ofRoute) fun _ => calls_found fun user => ?_
      refine .bind (.tryCatch ?_ fun error => ?_) fun _ => Program.calls_pure
      · exact .bind (calls_perform (ofRoute_insertInto (by simp [WorkspaceRoute.writes])))
          fun _ => Program.calls_pure
      · split <;> trivial
    · exact Program.calls_throw
  | updateMember membershipId payload =>
    refine .bind (.bind (calls_scalar select_ofRoute) fun _ => calls_raiseUnless) fun target => ?_
    refine .bind (calls_perform select_ofRoute) fun users => ?_
    split
    · exact Program.calls_throw
    split
    · exact Program.calls_throw
    split
    · exact .bind calls_memberResponse fun _ => Program.calls_pure
    · refine .bind (calls_flushRow (ofRoute_updateIn (by simp [WorkspaceRoute.writes])))
        fun _ => ?_
      exact .bind calls_memberResponse fun _ => Program.calls_pure
  | removeMember membershipId =>
    refine .bind (.bind (calls_scalar select_ofRoute) fun _ => calls_raiseUnless) fun target => ?_
    split
    · exact Program.calls_throw
    split
    · exact Program.calls_throw
    · exact .bind (calls_perform (ofRoute_deleteFrom (by simp [WorkspaceRoute.writes])))
        fun _ => Program.calls_pure
  | listDocuments =>
    refine .bind (calls_perform select_ofRoute) fun documents => ?_
    exact .bind (calls_mapM (fun _ => calls_documentResponse) _) fun _ => Program.calls_pure
  | getDocument documentId =>
    refine .bind (.bind (calls_scalar select_ofRoute) fun _ => calls_raiseUnless) fun document => ?_
    refine .bind (calls_perform select_ofRoute) fun versions => ?_
    refine .bind (calls_perform select_ofRoute) fun jobs => ?_
    exact .bind calls_documentResponse fun _ => Program.calls_pure
  | updateDocument documentId displayName =>
    refine .bind (.bind (calls_scalar select_ofRoute) fun _ => calls_raiseUnless) fun document => ?_
    refine .bind ?_ fun _ => ?_
    · unfold rename
      split
      · exact Program.calls_pure
      · exact calls_flushRow (ofRoute_updateIn (by simp [WorkspaceRoute.writes]))
    · refine .bind (.bind (calls_scalar select_ofRoute) fun _ => calls_raiseUnless) fun _ => ?_
      exact .bind calls_documentResponse fun _ => Program.calls_pure
  | deleteDocument documentId =>
    refine .bind (.bind (calls_scalar select_ofRoute) fun _ => calls_raiseUnless) fun document => ?_
    refine .bind (calls_flushRow (ofRoute_updateIn (by simp [WorkspaceRoute.writes]))) fun _ => ?_
    exact .bind (calls_perform (ofRoute_insertInto (by simp [WorkspaceRoute.writes])))
      fun _ => Program.calls_pure
  | retryDocumentJob jobId =>
    refine .bind (calls_scalar select_ofRoute) fun _ => calls_found fun job => ?_
    split
    · exact Program.calls_throw
    · refine .bind (calls_flushRow (ofRoute_updateIn (by simp [WorkspaceRoute.writes])))
        fun _ => ?_
      exact .bind (.bind (calls_scalar select_ofRoute) fun _ => calls_raiseUnless) fun _ =>
        Program.calls_pure

end Calls

section Unwritten

variable {db db' : Tables} {context : Context} {written : List TableName}

theorem unwritten_write {w : Write Record} {keeps : KeepsKeys w}
    (only : WritesOnly written (.write w keeps)) (unlisted : t ∉ written)
    (executed : schema.execute (context.policies db) db w = .ok db') : db' t = db t := by
  cases Schema.execute_eq_ok.1 executed with
  | insert _ _ _ => simp only [only t unlisted, List.append_nil]
  | update _ _ _ =>
    refine (List.map_congr_left fun row _ => ?_).trans (List.map_id' _)
    rw [if_neg (by simp [Policies.updatable, only t unlisted])]
  | @delete chosen _ =>
    have spared : ∀ t', t' ≠ .workspaceMemberships → ∀ row,
        (context.policies db).deletable chosen t' row = false := by
      intro t' other row
      rw [Policies.deletable, only.2 t' other, Bool.false_and]
    refine (congrFun (cascade_leaf (t := .workspaceMemberships) rfl spared) t).trans ?_
    rw [deleted, Function.update_of_ne (by rintro rfl; exact unlisted only.1)]

theorem run_unwritten {χ α : Type} {p : Program Command Answer χ α}
    (calls : p.Calls (WritesOnly written)) (unlisted : t ∉ written) :
    (p.run Transaction.execute tx).2.tables t = tx.tables t := by
  refine Program.run_invariant (I := fun tx' : Transaction => tx'.tables t = tx.tables t) calls
    (fun tx command only same => ?_) rfl
  have effect := Transaction.effect tx command
  generalize (tx.execute command).2 = tx' at effect ⊢
  cases effect with
  | wrote executed => exact (unwritten_write only unlisted executed).trans same
  | same | tenant | worker | refused => exact same

end Unwritten

/-! ## Runs of requests -/

/-- A request as it arrives: the connection that it is given, and the subject of its token. -/
structure Received where
  connection : ConnectionId
  env : Environment
  sub : Option UUID
  request : Request

def Received.event (received : Received) : Event where
  connection := received.connection
  program := do
    let _ ← received.request.handle received.env received.sub

namespace Server

def serve (s : Server) (received : Received) : Option Server := s.next received.event

/-- The response, and the transaction before its commit. -/
def answered (s : Server) (received : Received) : Except ApiError Response × Transaction :=
  (received.request.handle received.env received.sub).run Transaction.execute
    (.start s.tables (s.sessions received.connection))

end Server

/-- Who may make a request that changes the workspace's rows of the table. -/
inductive Entitled (db : Tables) (workspaceId : UUID) (t : TableName) (received : Received) : Prop
  /-- A member in the role that it takes; agents may only retry jobs. -/
  | member {route : WorkspaceRoute} {user : UserRow} {membership : MembershipRow}
      (asks : received.request = .ofWorkspace workspaceId route) (writes : t ∈ route.writes)
      (known : user ∈ db .users) (subject : received.sub = some user.id)
      (active : user.isActive = true) (listed : membership ∈ db .workspaceMemberships)
      (here : membership.workspaceId = workspaceId) (ofUser : membership.userId = user.id)
      (role : membership.role ∈ if t = .jobs then contributorRoles else managerRoles)
  /-- Whoever creates the workspace. -/
  | creator {name slug : Text} (asks : received.request = .createWorkspace name slug)
      (new : workspaceId ∉ workspaceIds db) (draws : received.env.drawnId = workspaceId)
      (table : t = .workspaces ∨ t = .workspaceMemberships)

theorem role_of_writes {route : WorkspaceRoute} {role : WorkspaceRole} (writes : t ∈ route.writes)
    (sufficient : route.roles = [] ∨ role ∈ route.roles) :
    role ∈ if t = .jobs then contributorRoles else managerRoles := by
  cases route with
  | getWorkspace | listMembers | listDocuments | getDocument _ => cases writes
  | retryDocumentJob _ =>
    obtain rfl := List.mem_singleton.mp writes
    exact sufficient.resolve_left (by simp [WorkspaceRoute.roles, contributorRoles])
  | updateWorkspace _ | addMember _ | updateMember _ _ | removeMember _ | updateDocument _ _
  | deleteDocument _ =>
    have manager : role ∈ managerRoles :=
      sufficient.resolve_left (by simp [WorkspaceRoute.roles, managerRoles])
    split
    · cases role <;> simp [managerRoles, contributorRoles] at manager ⊢
    · exact manager

section Serve

variable {s s' : Server} {received : Received}

theorem serve_tables (taken : stepOf Server.serve s received s') :
    s'.tables = Transaction.outcome s.tables (s.answered received) := by
  cases taken
  have ran : (received.request.handle received.env received.sub).run Transaction.execute
      (.start s.tables (s.sessions received.event.connection)) = s.answered received := rfl
  show Transaction.outcome _ (Program.run _ _ (_ >>= fun _ => pure ())) = _
  rw [Program.run_bind, ran]
  cases s.answered received with
  | mk result tx => cases result <;> rfl

theorem serve_keeps {I : Tables → Prop} (taken : stepOf Server.serve s received s')
    (start : I s.tables) (finish : I (s.answered received).2.tables) : I s'.tables := by
  rw [serve_tables taken]
  exact Transaction.outcome_keeps start finish

/-- A request that raises is rolled back. -/
theorem serve_raised {error : ApiError} (taken : stepOf Server.serve s received s')
    (raised : (s.answered received).1 = .error error) : s'.tables = s.tables := by
  rw [serve_tables taken]
  cases ended : s.answered received with
  | mk result tx =>
    rw [ended] at raised
    subst raised
    rfl

theorem calls_currentPrincipal {ok : Command → Prop} (allowed : ∀ command, (match command with
      | .select _ _ => True
      | .setTenantContext _ workspaceId => workspaceId = none
      | _ => False) → ok command) : (currentPrincipal sub).Calls ok := by
  unfold currentPrincipal
  refine .bind calls_raiseUnless fun id => .bind (calls_scalar (allowed _ trivial)) fun found => ?_
  refine .bind calls_raiseUnless fun user => ?_
  split
  · exact .bind (calls_perform (allowed _ rfl)) fun _ => Program.calls_pure
  · exact Program.calls_throw

theorem calls_listWorkspaces :
    (Request.listWorkspaces.handle env sub).Calls (WritesOnly []) := by
  refine .bind (calls_currentPrincipal fun command allowed => ?_) fun user => ?_
  · cases command <;> trivial
  refine .bind (calls_perform trivial) fun memberships => ?_
  exact .bind (calls_perform trivial) fun workspaces => Program.calls_pure

theorem calls_createWorkspace {ok : Command → Prop} {name slug : Text}
    (select : ∀ t chosen, ok (.select t chosen))
    (identity : ∀ userId current, current = none ∨ current = some env.drawnId →
      ok (.setTenantContext userId current))
    (insert : ∀ t row, t = .workspaces ∨ t = .workspaceMemberships → ok (.insertInto t row)) :
    ((Request.createWorkspace name slug).handle env sub).Calls ok := by
  refine .bind (calls_currentPrincipal fun command allowed => ?_) fun user => ?_
  · cases command with
    | select t chosen => exact select t chosen
    | setTenantContext userId current => exact identity userId current (.inl allowed)
    | setWorkerContext workerId => exact allowed.elim
    | write w keeps => exact allowed.elim
  refine .bind (calls_perform (identity _ _ (.inr rfl))) fun _ => ?_
  refine .bind (.tryCatch ?_ fun error => ?_) fun _ => Program.calls_pure
  · refine .bind (calls_perform (insert _ _ (.inl rfl))) fun _ => ?_
    exact .bind (calls_perform (insert _ _ (.inr rfl))) fun _ => Program.calls_pure
  · split <;> trivial

/-- Two rows would have the primary key. -/
theorem refuses_taken (policies : Policies Record) {db : Tables} (row : WorkspaceRow)
    (there : row.id ∈ workspaceIds db) : ∃ reason, schema.execute policies db
      (.insert (Function.update emptyTables .workspaces [row])) = .error reason := by
  cases executed : schema.execute policies db
      (.insert (Function.update emptyTables .workspaces [row])) with
  | error reason => exact ⟨reason, rfl⟩
  | ok tables =>
    have unique := (accepts_iff.1 (Schema.accepts_of_execute executed)).workspaces.1
    cases Schema.execute_eq_ok.1 executed with
    | insert _ _ _ =>
      rw [workspaceIds, Function.update_self, List.map_append] at unique
      exact absurd (by simp) (List.disjoint_of_nodup_append unique there)

/-- A workspace that is there is not created again. -/
theorem run_createWorkspace_taken {name slug : Text} (sound : tx.failed = false)
    (there : env.drawnId ∈ workspaceIds tx.tables) :
    ∃ error, ((createWorkspace env principal name slug).run Transaction.execute tx).1 =
      .error error := by
  simp only [createWorkspace, Program.run_bind, run_setTenantContext sound, Program.run_tryCatch]
  rw [run_insertInto (by exact sound)]
  obtain ⟨reason, refused⟩ := refuses_taken (Transaction.secured
    { tx with settings := tx.settings.setTenantContext principal.id (some env.drawnId) })
    ⟨⟨env.drawnId, slug, principal.id⟩, strip name, env.now, env.now⟩ there
  rw [refused]
  cases reason <;> exact ⟨_, rfl⟩

/-- A route that acts for another workspace stays outside. -/
theorem stays_outside_of_anonymous {w : UUID} {command : Command} (anonymous : Anonymous command) :
    StaysOutside false w command := by
  cases command with
  | setTenantContext _ _ | setWorkerContext _ => exact anonymous.elim
  | select _ _ => trivial
  | write write keeps => cases write <;> exact anonymous

/-- The rows of the workspace change only when somebody entitled asks for it. -/
theorem serve_rows {w : UUID} (sound : Sound s) (taken : stepOf Server.serve s received s')
    (unentitled : ¬ Entitled s.tables w t received) :
    (s'.tables t).filter (ofWorkspace w t) = (s.tables t).filter (ofWorkspace w t) := by
  have outside : Outside false w (s.sessions received.connection).context := by
    rw [sound.nobody received.connection]
    exact outside_nobody
  have committed := serve_keeps (I := fun tables =>
    (tables t).filter (ofWorkspace w t) = (s.tables t).filter (ofWorkspace w t)) taken rfl
  cases asks : received.request with
  | listWorkspaces =>
    refine committed (congrArg (List.filter _) ?_)
    rw [Server.answered, asks]
    exact run_unwritten calls_listWorkspaces (by simp)
  | createWorkspace name slug =>
    by_cases listed : t = .workspaces ∨ t = .workspaceMemberships
    · by_cases draws : received.env.drawnId = w
      · have there : w ∈ workspaceIds s.tables := by
          by_contra new
          exact unentitled (.creator asks new draws listed)
        suffices raised : ∃ error, (s.answered received).1 = .error error by
          obtain ⟨error, raised⟩ := raised
          rw [serve_raised taken raised]
        rw [Server.answered, asks]
        simp only [Request.handle, Program.run_bind]
        rw [run_currentPrincipal rfl]
        split
        next ran =>
          split at ran
          · cases ran
          · split at ran
            · cases ran
              exact run_createWorkspace_taken rfl (draws ▸ there)
            · cases ran
        next => exact ⟨_, rfl⟩
      · -- the new workspace is another one
        refine committed ?_
        rw [Server.answered, asks]
        refine (run_untouched (calls_createWorkspace (fun _ _ => trivial) ?_ fun _ _ _ => trivial)
          (show Scoped (Transaction.start s.tables _).tables from sound.inScope) outside).rows t
          ?_ (by simp)
        · rintro userId current (rfl | rfl)
          · exact Option.some_ne_none w |>.symm
          · simpa [StaysOutside] using draws
        · rintro rfl
          simp at listed
    · refine committed (congrArg (List.filter _) ?_)
      rw [Server.answered, asks]
      refine run_unwritten
        (calls_createWorkspace (fun _ _ => trivial) (fun _ _ _ => trivial) ?_)
        (show t ∉ [TableName.workspaces, .workspaceMemberships] by simpa using listed)
      intro t row either
      exact (ofRoute_insertInto (by simpa using either)).2
  | ofWorkspace workspaceId route =>
    refine committed ?_
    rw [Server.answered, asks]
    cases access : accessOf s.tables received.sub route.roles workspaceId with
    | error error =>
      obtain ⟨settings, ran⟩ := run_refused received.env
        (show (Transaction.start s.tables (s.sessions received.connection)).failed = false from rfl)
        access
      rw [ran]
      rfl
    | ok access' =>
      obtain ⟨user, membership⟩ := access'
      rw [run_granted
        (show (Transaction.start s.tables (s.sessions received.connection)).failed = false from rfl)
        access]
      have calls := calls_handle received.env workspaceId user membership route
      by_cases writes : t ∈ route.writes
      · obtain ⟨subject, known, active, listed, here, ofUser, role⟩ := accessOf_ok access
        by_cases same : workspaceId = w
        · subst same
          exact absurd (.member asks writes known subject active listed here ofUser
            (role_of_writes writes role)) unentitled
        · have stays : Program.Calls (StaysOutside false w) _ :=
            calls.mono fun _ allowed => stays_outside_of_anonymous allowed.1
          refine (run_untouched stays (show Scoped s.tables from sound.inScope) ?_).rows t ?_
            (by simp)
          · exact ⟨by simpa [granted, Settings.setTenantContext, Settings.context] using same,
              outside.2⟩
          · rintro rfl
            cases route <;> simp [WorkspaceRoute.writes] at writes
      · exact congrArg (List.filter _) (run_unwritten (calls.mono fun _ allowed => allowed.2) writes)

end Serve

theorem sound_serve {s s' : Server} {received : Received} (sound : Sound s)
    (taken : stepOf Server.serve s received s') : Sound s' :=
  sound_next sound (show stepOf Server.next s received.event s' from taken)

def sampleEnvironment : Environment := ⟨0, 0, fun _ _ => true, 30, 300⟩

/-- A user who is no member and the owner want to rename the document. -/
def sampleRequests : List Received :=
  [⟨0, sampleEnvironment, some 2, .ofWorkspace 10 (.updateDocument 11 ['e'])⟩,
    ⟨1, sampleEnvironment, some 1, .ofWorkspace 10 (.updateDocument 11 ['e'])⟩]

end SupportPilot.Tenancy
