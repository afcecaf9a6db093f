import SupportPilot.Tenancy.Authorization

/-! # What a response tells

The response to a request depends on the rows alone that its user sees in its workspace, and so
does what the request leaves for the user to see: two states that look alike there answer alike,
unless a statement is refused in one of them, as the keys of hidden rows count too. -/

namespace SupportPilot.Tenancy

open Lib Workspaces Security

/-- What the request may see: as the subject of its token, in its workspace. -/
def Received.limit (received : Received) : Context where
  userId := received.sub
  workspaceId :=
    match received.request with
    | .listWorkspaces => none
    | .createWorkspace _ _ => some received.env.drawnId
    | .ofWorkspace workspaceId _ => some workspaceId
  workerId := none

section Alike

variable {limit : Context} {db db' : Tables} {sub : Option UUID} {roles : List WorkspaceRole}
  {workspaceId : UUID}

theorem view_users (context : Context) (db : Tables) :
    (context.policies db).view db .users = db .users :=
  List.filter_eq_self.mpr fun _ _ => rfl

theorem users_alike (alike : Alike limit db db') : db .users = db' .users := by
  rw [← view_users limit db, alike, view_users]

theorem find_member (here : limit.workspaceId = some workspaceId) (userId : UUID) (db : Tables) :
    ((limit.policies db).view db .workspaceMemberships).find?
        (fun row => row.workspaceId = workspaceId && row.userId = userId) =
      (db .workspaceMemberships).find?
        fun row => row.workspaceId = workspaceId && row.userId = userId := by
  refine Policies.find_view fun row _ chosen => ?_
  simp only [Bool.and_eq_true, decide_eq_true_eq] at chosen
  show (limit.isCurrent row.workspaceId || _) = true
  simp [Context.isCurrent, here, chosen]

/-- Access is decided alike. -/
theorem accessOf_alike (alike : Alike limit db db') (here : limit.workspaceId = some workspaceId) :
    accessOf db sub roles workspaceId = accessOf db' sub roles workspaceId := by
  have members : ∀ userId, (db .workspaceMemberships).find?
        (fun row => row.workspaceId = workspaceId && row.userId = userId) =
      (db' .workspaceMemberships).find?
        fun row => row.workspaceId = workspaceId && row.userId = userId := by
    intro userId
    rw [← find_member here, alike, find_member here]
  simp only [accessOf, users_alike alike, members]

end Alike

section Responses

variable {s s' : Server} {received : Received} {limit : Context}

/-- Two transactions that have set the identity of a user. -/
theorem indistinguishable_start {settings settings' : Settings} {userId : UUID}
    {current : Option UUID} (sound : Sound s) (sound' : Sound s')
    (anonymous : settings.context = .nobody) (anonymous' : settings'.context = .nobody)
    (alike : Alike limit s.tables s'.tables) (user : limit.userId = some userId)
    (here : ∀ id, current = some id → limit.workspaceId = some id) :
    Indistinguishable limit ⟨s.tables, settings.setTenantContext userId current, false⟩
      ⟨s'.tables, settings'.setTenantContext userId current, false⟩ := by
  refine ⟨?_, ⟨fun id given => ?_, fun id given => here id given, fun worker => ?_⟩, rfl, rfl,
    sound.inScope, sound'.inScope, alike⟩
  · show (settings.setTenantContext userId current).context =
      (settings'.setTenantContext userId current).context
    rw [context_setTenantContext, context_setTenantContext, anonymous, anonymous']
  · cases given
    exact user
  · change (settings.setTenantContext userId current).context.isWorker = true at worker
    rw [context_setTenantContext, anonymous] at worker
    cases worker

/-- Two runs that end alike: the commits leave alike what the requests have left alike. -/
structure EndsAlike (limit : Context) (s s' : Server)
    (ended ended' : Except ApiError Response × Transaction) : Prop where
  results : ended.1 = ended'.1
  alike : Alike limit (Transaction.outcome s.tables ended) (Transaction.outcome s'.tables ended')

theorem endsAlike_of_tables {ended ended' : Except ApiError Response × Transaction}
    (start : Alike limit s.tables s'.tables) (results : ended.1 = ended'.1)
    (accepted : ended.2.failed = false) (accepted' : ended'.2.failed = false)
    (alike : Alike limit ended.2.tables ended'.2.tables) : EndsAlike limit s s' ended ended' := by
  obtain ⟨result, tx⟩ := ended
  obtain ⟨result', tx'⟩ := ended'
  obtain rfl : result = result' := results
  refine ⟨rfl, ?_⟩
  cases result with
  | error error => exact start
  | ok response =>
    show Alike limit (if tx.failed = true then _ else _) (if tx'.failed = true then _ else _)
    rw [if_neg (by simp [show tx.failed = false from accepted]),
      if_neg (by simp [show tx'.failed = false from accepted'])]
    exact alike

theorem endsAlike_of_run {p : Handler Response} {tx tx' : Transaction}
    (start : Alike limit s.tables s'.tables) (same : Indistinguishable limit tx tx')
    (calls : p.Calls (StaysWithin limit))
    (accepted : (p.run Transaction.execute tx).2.failed = false)
    (accepted' : (p.run Transaction.execute tx').2.failed = false) :
    EndsAlike limit s s' (p.run Transaction.execute tx) (p.run Transaction.execute tx') := by
  obtain ⟨results, rest⟩ := run_indistinguishable calls same accepted accepted'
  exact endsAlike_of_tables start results accepted accepted' rest.alike

theorem staysWithin_of_anonymous {command : Command} (anonymous : Anonymous command) :
    StaysWithin limit command := by
  cases command with
  | setTenantContext _ _ | setWorkerContext _ => exact anonymous.elim
  | select _ _ | write _ _ => trivial

/-- The user is found in both states, or in none. -/
theorem endsAlike_of_principal {rest : UserRow → Handler Response} {settings settings' : Settings}
    (sound : Sound s) (sound' : Sound s') (anonymous : settings.context = .nobody)
    (anonymous' : settings'.context = .nobody) (alike : Alike limit s.tables s'.tables)
    {sub : Option UUID} (subject : limit.userId = sub)
    (calls : ∀ user : UserRow, sub = some user.id → (rest user).Calls (StaysWithin limit))
    (accepted : ((currentPrincipal sub >>= rest).run Transaction.execute
      (.start s.tables settings)).2.failed = false)
    (accepted' : ((currentPrincipal sub >>= rest).run Transaction.execute
      (.start s'.tables settings')).2.failed = false) :
    EndsAlike limit s s'
      ((currentPrincipal sub >>= rest).run Transaction.execute (.start s.tables settings))
      ((currentPrincipal sub >>= rest).run Transaction.execute (.start s'.tables settings')) := by
  simp only [Program.run_bind] at accepted accepted' ⊢
  rw [run_currentPrincipal rfl] at accepted accepted' ⊢
  rw [run_currentPrincipal rfl]
  simp only [Transaction.start] at accepted accepted' ⊢
  rw [← users_alike alike] at accepted' ⊢
  cases found : sub.bind fun id => (s.tables .users).find? fun row => row.id = id with
  | none => exact ⟨rfl, alike⟩
  | some user =>
    simp only [found] at accepted accepted' ⊢
    obtain ⟨id, rfl, chosen⟩ := Option.bind_eq_some_iff.mp found
    have same := List.find?_some chosen
    obtain rfl : user.id = id := of_decide_eq_true same
    by_cases active : user.isActive = true
    · simp only [active, if_true] at accepted accepted' ⊢
      refine endsAlike_of_run alike ?_ (calls user rfl) accepted accepted'
      exact indistinguishable_start sound sound' anonymous anonymous' alike subject
        fun _ given => by cases given
    · simp only [active, Bool.false_eq_true, if_false]
      exact ⟨rfl, alike⟩

end Responses

end SupportPilot.Tenancy
