import SupportPilot.Workspaces.Requests

/-! # Owners, memberships and ranks

A membership row keeps its identifier, its workspace, its user and whether it is an owner's
(`Stable`), so what a request has read of a row stays true of the row it changes later, except for
the role among the others.  `Change` lists what one step can do, with the reads behind it. -/

namespace SupportPilot.Workspaces

open Lib Table Security

/-- Two versions of a row agree on what no request changes. -/
structure Same (row version : WorkspaceMembership) : Prop where
  workspaceId : row.workspaceId = version.workspaceId
  userId : row.userId = version.userId
  owner : row.role = .owner ↔ version.role = .owner

def Stable (versions : List WorkspaceMembership) : Prop :=
  ∀ row ∈ versions, ∀ version ∈ versions, row.id = version.id → Same row version

/-- A membership of the workspace, an owner's only if its user is the creator. -/
structure OfWorkspace (workspace : Workspace) (row : WorkspaceMembership) : Prop where
  workspaceId : row.workspaceId = workspace.id
  creator : row.role = .owner → row.userId = workspace.createdBy

/-- The request has read the membership of its user. -/
structure AccessOk (versions : List WorkspaceMembership) (access : WorkspaceAccess) : Prop where
  wasRead : access.membership ∈ versions
  userId : access.membership.userId = access.principal.user.id

/-- The request has read a target of a lower rank in its workspace, and somebody else's. -/
structure TargetOk (versions : List WorkspaceMembership) (access : WorkspaceAccess)
    (target : WorkspaceMembership) : Prop where
  wasRead : target ∈ versions
  workspaceId : target.workspaceId = access.membership.workspaceId
  other : target.userId ≠ access.principal.user.id
  rank : roleRank target.role < roleRank access.membership.role

/-- What the request in the phase has read and checked. -/
def PhaseOk (versions : List WorkspaceMembership) : Phase → Prop
  | .findingUser workspaceId access payload | .adding workspaceId access payload _ =>
    AccessOk versions access ∧ workspaceId = access.membership.workspaceId ∧
      roleRank payload.role < roleRank access.membership.role
  | .loadingTarget workspaceId access _ _ =>
    AccessOk versions access ∧ workspaceId = access.membership.workspaceId
  | .updating access target payload => AccessOk versions access ∧ TargetOk versions access target ∧
      roleRank payload.role < roleRank access.membership.role
  | .removing access target => AccessOk versions access ∧ TargetOk versions access target
  | _ => True

/-- The memberships that a request in the phase may commit. -/
inductive Managed (s : State) (phase : Phase) (access : WorkspaceAccess) :
    List WorkspaceMembership → Prop
  | add {row : WorkspaceMembership} (isNew : s.unusedMembership row.id = true)
      (workspaceId : row.workspaceId = access.membership.workspaceId)
      (rank : roleRank row.role < roleRank access.membership.role)
      (absent : s.isMember row.workspaceId row.userId = false) :
      Managed s phase access (s.memberships ++ [row])
  | update {target : WorkspaceMembership} {role : WorkspaceRole}
      (loaded : phase.target = some target) (ok : TargetOk s.versions access target)
      (rank : roleRank role < roleRank access.membership.role) :
      Managed s phase access (updateWhere (fun row => row.id = target.id)
        (fun row => { row with role }) s.memberships)
  | remove {target : WorkspaceMembership} (loaded : phase.target = some target)
      (ok : TargetOk s.versions access target) :
      Managed s phase access (s.memberships.filter fun row => row.id ≠ target.id)

/-- Everything one step of request `r` can do. -/
inductive Change (s : State) (r : RequestId) : State → Prop
  | enter {phase : Phase} (ok : PhaseOk s.versions phase) : Change s r (s.enter r phase)
  | found {workspace : Workspace} {membershipId : UUID} {users : List User}
      (newWorkspace : s.unusedWorkspace workspace.id = true)
      (newMembership : s.unusedMembership membershipId = true) :
      Change s r { s.found r workspace membershipId with users }
  | manage {access : WorkspaceAccess} {rows : List WorkspaceMembership}
      (granted : (s.phases r).access = some access) (ok : AccessOk s.versions access)
      (managed : Managed s (s.phases r) access rows) : Change s r (s.commit r rows)

structure Inv (s : State) : Prop where
  current : s.memberships ⊆ s.versions
  stable : Stable s.versions
  unique : (s.memberships.map fun row => (row.workspaceId, row.userId)).Nodup
  workspaces : (s.workspaces.map Workspace.id).Nodup
  owned : ∀ workspace ∈ s.workspaces, ∃ row ∈ s.memberships,
    OfWorkspace workspace row ∧ row.role = .owner
  known : ∀ row ∈ s.versions, ∃ workspace ∈ s.workspaces, OfWorkspace workspace row
  phases : ∀ r, PhaseOk s.versions (s.phases r)

/-! ## Reads -/

section Reads

variable {s : State} {r : RequestId} {versions memberships : List WorkspaceMembership}
  {access : WorkspaceAccess} {workspaceId : UUID} {target : WorkspaceMembership}

theorem PhaseOk.mono {versions' : List WorkspaceMembership} {phase : Phase}
    (more : versions ⊆ versions') (ok : PhaseOk versions phase) : PhaseOk versions' phase := by
  have access' : ∀ {access}, AccessOk versions access → AccessOk versions' access :=
    fun ok => ⟨more ok.wasRead, ok.userId⟩
  have target' : ∀ {access target}, TargetOk versions access target →
      TargetOk versions' access target :=
    fun ok => ⟨more ok.wasRead, ok.workspaceId, ok.other, ok.rank⟩
  cases phase with
  | findingUser => exact ⟨access' ok.1, ok.2⟩
  | adding => exact ⟨access' ok.1, ok.2⟩
  | loadingTarget => exact ⟨access' ok.1, ok.2⟩
  | updating => exact ⟨access' ok.1, target' ok.2.1, ok.2.2⟩
  | removing => exact ⟨access' ok.1, target' ok.2⟩
  | idle | registering | authenticated | returned | raised => trivial

theorem requireWorkspaceRoles_ok {roles : List WorkspaceRole} {principal : Principal}
    (granted : requireWorkspaceRoles roles memberships principal workspaceId = .ok access)
    (known : memberships ⊆ versions) :
    AccessOk versions access ∧ workspaceId = access.membership.workspaceId := by
  unfold requireWorkspaceRoles at granted
  split at granted
  · cases granted
  next membership found =>
    split at granted
    · cases granted
    · cases granted
      have selected := List.find?_some found
      simp only [Bool.and_eq_true, decide_eq_true_eq] at selected
      exact ⟨⟨known (List.mem_of_find?_eq_some found), selected.2⟩, selected.1.symm⟩

theorem start_ok (ok : AccessOk versions access)
    (here : workspaceId = access.membership.workspaceId) (request : MemberRequest) :
    PhaseOk versions (request.start workspaceId access) := by
  cases request with
  | addMember normalizedEmail role =>
    simp only [MemberRequest.start]
    split
    · trivial
    · split
      next manages => exact ⟨ok, here, rank_lt_of_canManageRole manages⟩
      next => trivial
  | updateMember membershipId role =>
    simp only [MemberRequest.start]
    split
    · trivial
    · exact ⟨ok, here⟩
  | removeMember membershipId => exact ⟨ok, here⟩

theorem updateMember_ok (ok : AccessOk versions access) (wasRead : target ∈ versions)
    (here : target.workspaceId = access.membership.workspaceId) (payload : MembershipUpdate) :
    PhaseOk versions (updateMember access target payload) := by
  unfold updateMember
  split
  · trivial
  next other =>
    split
    · trivial
    next manages =>
      simp only [Bool.or_eq_true, Bool.not_eq_true', not_or, Bool.not_eq_false] at manages
      obtain ⟨target', payload'⟩ := manages
      exact ⟨ok, ⟨wasRead, here, other, rank_lt_of_canManageRole target'⟩,
        rank_lt_of_canManageRole payload'⟩

theorem removeMember_ok (ok : AccessOk versions access) (wasRead : target ∈ versions)
    (here : target.workspaceId = access.membership.workspaceId) :
    PhaseOk versions (removeMember access target) := by
  unfold removeMember
  split
  · trivial
  next other =>
    split
    · trivial
    next manages =>
      rw [Bool.not_eq_true', Bool.not_eq_false] at manages
      exact ⟨ok, wasRead, here, other, rank_lt_of_canManageRole manages⟩

end Reads

/-! ## Inversion -/

section Inversion

variable {s s' : State} {r : RequestId} {event : Event}

theorem change_register {payload : RegisterRequest} {userId workspaceId membershipId : UUID}
    (newWorkspace : s.unusedWorkspace workspaceId = true)
    (newMembership : s.unusedMembership membershipId = true) :
    Change s r (s.register r payload userId workspaceId membershipId) := by
  unfold State.register
  split
  · exact .enter trivial
  · split
    · exact .enter trivial
    · exact .found newWorkspace newMembership

theorem change_createWorkspace {principal : Principal} {slug : Text}
    {workspaceId membershipId : UUID} (newWorkspace : s.unusedWorkspace workspaceId = true)
    (newMembership : s.unusedMembership membershipId = true) :
    Change s r (s.createWorkspace r principal slug workspaceId membershipId) := by
  unfold State.createWorkspace
  split
  · exact .enter trivial
  · exact .found newWorkspace newMembership

theorem change_insertMembership {access : WorkspaceAccess} {row : WorkspaceMembership}
    (granted : (s.phases r).access = some access) (ok : AccessOk s.versions access)
    (isNew : s.unusedMembership row.id = true)
    (here : row.workspaceId = access.membership.workspaceId)
    (rank : roleRank row.role < roleRank access.membership.role) :
    Change s r (s.insertMembership r row) := by
  unfold State.insertMembership
  split
  · exact .enter trivial
  next absent => exact .manage granted ok (.add isNew here rank (by simpa using absent))

theorem change_setRole {access : WorkspaceAccess} {target : WorkspaceMembership}
    {role : WorkspaceRole} (granted : (s.phases r).access = some access)
    (loaded : (s.phases r).target = some target) (ok : AccessOk s.versions access)
    (target' : TargetOk s.versions access target)
    (rank : roleRank role < roleRank access.membership.role) :
    Change s r (s.setRole r target role) := by
  unfold State.setRole
  split
  · exact .enter trivial
  · split
    · exact .manage granted ok (.update loaded target' rank)
    · exact .enter trivial

theorem change_of_next (inv : Inv s) (taken : stepOf next s event s') :
    Change s event.request s' := by
  have ok := inv.phases event.request
  unfold stepOf next at taken
  dsimp only at taken
  split at taken
  · -- register: the email
    cases taken
    refine .enter ?_
    split <;> trivial
  · -- register: the rows
    split at taken
    next unused =>
      cases taken
      simp only [Bool.and_eq_true] at unused
      exact change_register unused.1.2 unused.2
    next => cases taken
  · -- the principal
    cases taken
    refine .enter ?_
    split <;> trivial
  · -- create_workspace
    split at taken
    next unused =>
      cases taken
      simp only [Bool.and_eq_true] at unused
      exact change_createWorkspace unused.1 unused.2
    next => cases taken
  next request _ _ =>
    -- the actor's membership
    cases taken
    refine .enter ?_
    split
    · trivial
    next granted =>
      obtain ⟨access', here⟩ := requireWorkspaceRoles_ok granted inv.current
      exact start_ok access' here request
  next finding _ =>
    -- add_member: the user
    rw [finding] at ok
    cases taken
    refine .enter ?_
    split
    · trivial
    · exact ok
  next adding _ =>
    -- add_member: the row
    rw [adding] at ok
    obtain ⟨access', here, rank⟩ := ok
    split at taken
    next isNew =>
      cases taken
      exact change_insertMembership (by rw [adding]; rfl) access' isNew here rank
    next => cases taken
  next loading _ =>
    -- update_member and remove_member: the target
    rw [loading] at ok
    obtain ⟨access', here⟩ := ok
    cases taken
    refine .enter ?_
    split
    · trivial
    next target payload found =>
      have selected := List.find?_some found
      simp only [Bool.and_eq_true, decide_eq_true_eq] at selected
      exact updateMember_ok access' (inv.current (List.mem_of_find?_eq_some found))
        (selected.2.trans here) payload
    next target found =>
      have selected := List.find?_some found
      simp only [Bool.and_eq_true, decide_eq_true_eq] at selected
      exact removeMember_ok access' (inv.current (List.mem_of_find?_eq_some found))
        (selected.2.trans here)
  next updating _ =>
    rw [updating] at ok
    obtain ⟨access', target', rank⟩ := ok
    cases taken
    exact change_setRole (by rw [updating]; rfl) (by rw [updating]; rfl) access' target' rank
  next removing _ =>
    rw [removing] at ok
    obtain ⟨access', target'⟩ := ok
    cases taken
    exact .manage (by rw [removing]; rfl) access' (.remove (by rw [removing]; rfl) target')
  · cases taken
    exact .enter trivial
  · cases taken

end Inversion

/-! ## The invariant -/

section Invariant

variable {s s' : State} {r : RequestId} {event : Event} {access : WorkspaceAccess}
  {versions rows : List WorkspaceMembership} {row target : WorkspaceMembership}

theorem Same.symm {version : WorkspaceMembership} (same : Same row version) : Same version row :=
  ⟨same.workspaceId.symm, same.userId.symm, same.owner.symm⟩

theorem Same.trans {version other : WorkspaceMembership} (same : Same row version)
    (same' : Same version other) : Same row other :=
  ⟨same.workspaceId.trans same'.workspaceId, same.userId.trans same'.userId,
    same.owner.trans same'.owner⟩

theorem OfWorkspace.same {workspace : Workspace} {version : WorkspaceMembership}
    (known : OfWorkspace workspace row) (same : Same row version) :
    OfWorkspace workspace version where
  workspaceId := same.workspaceId.symm.trans known.workspaceId
  creator owner := same.userId.symm.trans (known.creator (same.owner.mpr owner))

theorem Stable.mono (stable : Stable versions) (fewer : rows ⊆ versions) : Stable rows :=
  fun row member version member' => stable row (fewer member) version (fewer member')

theorem Stable.insert (stable : Stable versions)
    (isNew : ∀ version ∈ versions, version.id ≠ row.id) : Stable (row :: versions) := by
  intro left member right member' sameId
  obtain rfl | old := List.mem_cons.mp member
  · obtain rfl | old' := List.mem_cons.mp member'
    · exact ⟨rfl, rfl, Iff.rfl⟩
    · exact absurd sameId.symm (isNew right old')
  · obtain rfl | old' := List.mem_cons.mp member'
    · exact absurd sameId (isNew left old)
    · exact stable left old right old' sameId

/-- Rows that go back to earlier versions. -/
theorem Stable.append (stable : Stable versions)
    (origin : ∀ row ∈ rows, ∃ version ∈ versions, version.id = row.id ∧ Same version row) :
    Stable (rows ++ versions) := by
  have origin' : ∀ row ∈ rows ++ versions,
      ∃ version ∈ versions, version.id = row.id ∧ Same version row := by
    intro row member
    obtain new | old := List.mem_append.mp member
    · exact origin row new
    · exact ⟨row, old, rfl, rfl, rfl, Iff.rfl⟩
  intro left member right member' sameId
  obtain ⟨version, known, id, same⟩ := origin' left member
  obtain ⟨version', known', id', same'⟩ := origin' right member'
  have between := stable version known version' known' (by rw [id, id', sameId])
  exact (same.symm.trans between).trans same'

theorem not_owner_of_rank {role role' : WorkspaceRole} (rank : roleRank role < roleRank role') :
    role ≠ .owner := by
  rintro rfl
  revert rank
  cases role' <;> decide

/-- A target is no owner, and neither is the row it has become. -/
theorem TargetOk.not_owner (ok : TargetOk versions access target) (stable : Stable versions)
    (member : row ∈ versions) (sameId : row.id = target.id) : row.role ≠ .owner := by
  have same := stable row member target ok.wasRead sameId
  exact fun owner => not_owner_of_rank ok.rank (same.owner.mp owner)

theorem Inv.stable_insert (inv : Inv s) (isNew : s.unusedMembership row.id = true) :
    Stable (s.memberships ++ [row] ++ s.versions) := by
  simp only [State.unusedMembership, List.all_eq_true, bne_iff_ne] at isNew
  refine (inv.stable.insert isNew).mono fun version member => ?_
  simp only [List.append_assoc, List.mem_append, List.mem_singleton] at member
  obtain old | rfl | old := member
  · exact List.mem_cons_of_mem _ (inv.current old)
  · exact List.mem_cons_self
  · exact List.mem_cons_of_mem _ old

theorem Inv.unique_insert (inv : Inv s) (absent : s.isMember row.workspaceId row.userId = false) :
    ((s.memberships ++ [row]).map fun row => (row.workspaceId, row.userId)).Nodup := by
  simp only [State.isMember, List.any_eq_false, Bool.and_eq_true, decide_eq_true_eq] at absent
  rw [List.map_append, List.nodup_append]
  refine ⟨inv.unique, List.nodup_singleton _, fun pair member pair' single same => ?_⟩
  obtain ⟨other, present, rfl⟩ := List.mem_map.mp member
  rw [List.map_singleton, List.mem_singleton] at single
  subst single
  rw [Prod.mk.injEq] at same
  exact absent other present same

theorem inv_enter (inv : Inv s) {phase : Phase} (ok : PhaseOk s.versions phase) :
    Inv (s.enter r phase) := by
  refine ⟨inv.current, inv.stable, inv.unique, inv.workspaces, inv.owned, inv.known, ?_⟩
  intro other
  by_cases same : other = r
  · subst same
    simpa [State.enter] using ok
  · simpa [State.enter, same] using inv.phases other

theorem Inv.knownBefore (inv : Inv s) (workspaces : List Workspace) (member : row ∈ s.versions) :
    ∃ workspace ∈ s.workspaces ++ workspaces, OfWorkspace workspace row := by
  obtain ⟨workspace, known, ofThis⟩ := inv.known row member
  exact ⟨workspace, List.mem_append_left _ known, ofThis⟩

/-- Committing a table, with new workspaces and users. -/
theorem inv_commit (inv : Inv s) {workspaces : List Workspace} {users : List User}
    (stable : Stable (rows ++ s.versions))
    (unique : (rows.map fun row => (row.workspaceId, row.userId)).Nodup)
    (workspaces' : (workspaces.map Workspace.id).Nodup)
    (owned : ∀ workspace ∈ workspaces,
      ∃ row ∈ rows, OfWorkspace workspace row ∧ row.role = .owner)
    (known : ∀ row ∈ rows ++ s.versions, ∃ workspace ∈ workspaces, OfWorkspace workspace row) :
    Inv { s.commit r rows with workspaces, users } := by
  refine ⟨List.subset_append_left rows s.versions, stable, unique, workspaces', owned, known, ?_⟩
  intro other
  by_cases same : other = r
  · subst same
    simp [State.commit, State.enter, PhaseOk]
  · have ok := (inv.phases other).mono (List.subset_append_right rows s.versions)
    simpa [State.commit, State.enter, same] using ok

theorem inv_found (inv : Inv s) {workspace : Workspace} {membershipId : UUID} {users : List User}
    (newWorkspace : s.unusedWorkspace workspace.id = true)
    (newMembership : s.unusedMembership membershipId = true) :
    Inv { s.found r workspace membershipId with users } := by
  simp only [State.unusedWorkspace, List.all_eq_true, bne_iff_ne] at newWorkspace
  let row : WorkspaceMembership := ⟨membershipId, workspace.id, workspace.createdBy, .owner⟩
  have ofNew : OfWorkspace workspace row := ⟨rfl, fun _ => rfl⟩
  -- the rows of the other workspaces
  have elsewhere : ∀ version ∈ s.versions, version.workspaceId ≠ workspace.id := by
    intro version member same
    obtain ⟨other, known, ofOther⟩ := inv.known version member
    exact newWorkspace other known (ofOther.workspaceId.symm.trans same)
  have absent : s.isMember row.workspaceId row.userId = false := by
    simp only [State.isMember, List.any_eq_false, Bool.and_eq_true, decide_eq_true_eq]
    exact fun version member same => elsewhere version (inv.current member) same.1
  have stable : Stable (s.memberships ++ [row] ++ s.versions) := inv.stable_insert newMembership
  have ids : ((s.workspaces ++ [workspace]).map Workspace.id).Nodup := by
    rw [List.map_append, List.nodup_append]
    refine ⟨inv.workspaces, List.nodup_singleton _, fun id member id' single same => ?_⟩
    obtain ⟨other, present, rfl⟩ := List.mem_map.mp member
    rw [List.map_singleton, List.mem_singleton] at single
    exact newWorkspace other present (same.trans single)
  have owned : ∀ other ∈ s.workspaces ++ [workspace],
      ∃ version ∈ s.memberships ++ [row], OfWorkspace other version ∧ version.role = .owner := by
    intro other member
    obtain old | new := List.mem_append.mp member
    · obtain ⟨version, present, owner⟩ := inv.owned other old
      exact ⟨version, List.mem_append_left _ present, owner⟩
    · obtain rfl := List.mem_singleton.mp new
      exact ⟨row, List.mem_append_right _ List.mem_cons_self, ofNew, rfl⟩
  have known : ∀ version ∈ s.memberships ++ [row] ++ s.versions,
      ∃ other ∈ s.workspaces ++ [workspace], OfWorkspace other version := by
    intro version member
    simp only [List.append_assoc, List.mem_append, List.mem_singleton] at member
    obtain present | rfl | past := member
    · exact inv.knownBefore [workspace] (inv.current present)
    · exact ⟨workspace, List.mem_append_right _ List.mem_cons_self, ofNew⟩
    · exact inv.knownBefore [workspace] past
  exact inv_commit inv stable (inv.unique_insert absent) ids owned known

/-- Commits of the member requests leave the workspaces and their owners alone. -/
theorem inv_rows (inv : Inv s) (stable : Stable (rows ++ s.versions))
    (unique : (rows.map fun row => (row.workspaceId, row.userId)).Nodup)
    (owners : ∀ row ∈ s.memberships, row.role = .owner → row ∈ rows)
    (known : ∀ row ∈ rows, ∃ workspace ∈ s.workspaces, OfWorkspace workspace row) :
    Inv (s.commit r rows) := by
  refine inv_commit inv stable unique inv.workspaces ?_ ?_
  · intro workspace member
    obtain ⟨row, present, ofThis, owner⟩ := inv.owned workspace member
    exact ⟨row, owners row present owner, ofThis, owner⟩
  · intro row member
    obtain new | old := List.mem_append.mp member
    · exact known row new
    · exact inv.known row old

theorem inv_managed (inv : Inv s) {phase : Phase} (ok : AccessOk s.versions access)
    (managed : Managed s phase access rows) : Inv (s.commit r rows) := by
  cases managed with
  | @add row isNew workspaceId rank absent =>
    apply inv_rows inv (inv.stable_insert isNew) (inv.unique_insert absent)
    · exact fun old present _ => List.mem_append_left _ present
    · intro version member
      obtain old | new := List.mem_append.mp member
      · exact inv.known version (inv.current old)
      · obtain rfl := List.mem_singleton.mp new
        obtain ⟨workspace, known, ofThis⟩ := inv.known access.membership ok.wasRead
        refine ⟨workspace, known, workspaceId.trans ofThis.workspaceId, fun owner => ?_⟩
        exact absurd owner (not_owner_of_rank rank)
  | @update target role loaded target' rank =>
    -- every row of the new table goes back to one of the old table
    have origin : ∀ row ∈ updateWhere (fun row => row.id = target.id)
        (fun row => { row with role }) s.memberships,
        ∃ version ∈ s.versions, version.id = row.id ∧ Same version row := by
      intro row member
      obtain ⟨old, present, rfl⟩ := List.mem_map.mp member
      refine ⟨old, inv.current present, ?_⟩
      split
      next isTarget =>
        rw [decide_eq_true_eq] at isTarget
        have wasNone := target'.not_owner inv.stable (inv.current present) isTarget
        exact ⟨rfl, rfl, rfl, iff_of_false wasNone (not_owner_of_rank rank)⟩
      next => exact ⟨rfl, rfl, rfl, Iff.rfl⟩
    apply inv_rows inv (inv.stable.append origin)
    · have pairs : (updateWhere (fun row => row.id = target.id) (fun row => { row with role })
          s.memberships).map (fun row => (row.workspaceId, row.userId)) =
          s.memberships.map fun row => (row.workspaceId, row.userId) := by
        rw [updateWhere, List.map_map]
        refine List.map_congr_left fun row _ => ?_
        dsimp only [Function.comp]
        split <;> rfl
      rw [pairs]
      exact inv.unique
    · intro row present owner
      refine List.mem_map.mpr ⟨row, present, if_neg fun isTarget => ?_⟩
      rw [decide_eq_true_eq] at isTarget
      exact target'.not_owner inv.stable (inv.current present) isTarget owner
    · intro row member
      obtain ⟨version, present, -, same⟩ := origin row member
      obtain ⟨workspace, known, ofThis⟩ := inv.known version present
      exact ⟨workspace, known, ofThis.same same⟩
  | @remove target loaded target' =>
    have fewer : (s.memberships.filter fun row => row.id ≠ target.id) ⊆ s.versions :=
      fun row member => inv.current (List.mem_of_mem_filter member)
    apply inv_rows inv
    · exact inv.stable.append fun row member => ⟨row, fewer member, rfl, rfl, rfl, Iff.rfl⟩
    · exact inv.unique.sublist (List.filter_sublist.map _)
    · intro row present owner
      refine List.mem_filter.mpr ⟨present, ?_⟩
      rw [decide_eq_true_eq]
      exact fun isTarget => target'.not_owner inv.stable (inv.current present) isTarget owner
    · exact fun row member => inv.known row (fewer member)

theorem inv_step (inv : Inv s) (taken : stepOf next s event s') : Inv s' := by
  cases change_of_next inv taken with
  | enter ok => exact inv_enter inv ok
  | found newWorkspace newMembership => exact inv_found inv newWorkspace newMembership
  | manage granted ok managed => exact inv_managed inv ok managed

theorem inv_init : Inv .init := by
  refine ⟨List.Subset.refl _, ?_, List.nodup_nil, List.nodup_nil, ?_, ?_, fun _ => trivial⟩
  · intro row member
    cases member
  · intro workspace member
    cases member
  · intro row member
    cases member

theorem inv_of_reachable (reached : Reachable (stepOf next) .init s) : Inv s :=
  reached.invariant inv_init fun _ _ _ inv taken => inv_step inv taken

end Invariant

/-! ## Owners and ranks in every reachable state -/

/-- A new workspace, with the membership of its creator. -/
def Founds (s s' : State) : Prop :=
  ∃ (workspace : Workspace) (membershipId : UUID), workspace ∉ s.workspaces ∧
    s'.workspaces = s.workspaces ++ [workspace] ∧ s'.memberships = s.memberships ++
      [⟨membershipId, workspace.id, workspace.createdBy, .owner⟩]

/-- The last field bounds what the next step can do to the memberships. -/
structure RolesOk (s : State) : Prop where
  oneOwner : ∀ workspace ∈ s.workspaces, ∃ owner, owner.userId = workspace.createdBy ∧
    (s.memberships.filter fun row => row.workspaceId = workspace.id && row.role = .owner) = [owner]
  oneMembership : (s.memberships.map fun row => (row.workspaceId, row.userId)).Nodup
  sameRow : ∀ row ∈ s.memberships, ∀ version ∈ s.versions, row.id = version.id → Same row version
  changes : ∀ event s', stepOf next s event s' → s'.memberships = s.memberships ∨ Founds s s' ∨
    ∃ access, (s.phases event.request).access = some access ∧ AccessOk s.versions access ∧
      Managed s (s.phases event.request) access s'.memberships

section Owners

variable {s s' : State} {event : Event}

theorem Inv.oneOwner (inv : Inv s) {workspace : Workspace} (member : workspace ∈ s.workspaces) :
    ∃ owner, owner.userId = workspace.createdBy ∧ (s.memberships.filter fun row =>
      row.workspaceId = workspace.id && row.role = .owner) = [owner] := by
  obtain ⟨owner, present, ofThis, isOwner⟩ := inv.owned workspace member
  refine ⟨owner, ofThis.creator isOwner, filter_eq_singleton inv.unique.of_map present ?_ ?_⟩
  · simp [ofThis.workspaceId, isOwner]
  · intro row present' selected
    simp only [Bool.and_eq_true, decide_eq_true_eq] at selected
    obtain ⟨here, isOwner'⟩ := selected
    obtain ⟨other, known, ofOther⟩ := inv.known row (inv.current present')
    obtain rfl : other = workspace := List.inj_on_of_nodup_map inv.workspaces known member
      (ofOther.workspaceId.symm.trans here)
    -- both are memberships of the creator
    refine List.inj_on_of_nodup_map inv.unique present' present (Prod.ext ?_ ?_)
    · exact here.trans ofThis.workspaceId.symm
    · exact (ofOther.creator isOwner').trans (ofThis.creator isOwner).symm

theorem Change.memberships {r : RequestId} (change : Change s r s') :
    s'.memberships = s.memberships ∨ Founds s s' ∨ ∃ access, (s.phases r).access = some access ∧
      AccessOk s.versions access ∧ Managed s (s.phases r) access s'.memberships := by
  cases change with
  | enter ok => exact .inl rfl
  | @found workspace membershipId users newWorkspace newMembership =>
    refine .inr (.inl ⟨workspace, membershipId, fun known => ?_, rfl, rfl⟩)
    simp only [State.unusedWorkspace, List.all_eq_true, bne_iff_ne] at newWorkspace
    exact newWorkspace workspace known rfl
  | manage granted ok managed => exact .inr (.inr ⟨_, granted, ok, managed⟩)

end Owners

theorem rolesOk_of_reachable {s : State} (reached : Reachable (stepOf next) .init s) :
    RolesOk s := by
  have inv := inv_of_reachable reached
  refine ⟨fun workspace member => inv.oneOwner member, inv.unique, ?_, ?_⟩
  · exact fun row present => inv.stable row (inv.current present)
  · exact fun event s' taken => (change_of_next inv taken).memberships

/-! ## A team -/

def registers (r : RequestId) (name : String) (userId : UUID) : List Event :=
  [⟨r, .selectEmail ⟨(name ++ "@example.com").toList, name.toList⟩⟩,
    ⟨r, .insertAccount userId userId userId⟩]

def adds (r : RequestId) (actor : UUID) (name : String) (role : WorkspaceRole)
    (membershipId : UUID) : List Event :=
  [⟨r, .selectPrincipal actor (.members 1 (.addMember (name ++ "@example.com").toList role))⟩,
    ⟨r, .selectMembership⟩, ⟨r, .selectUser⟩, ⟨r, .insertMembership membershipId⟩]

/-- A workspace with its owner, an admin and a viewer. -/
def team : List Event :=
  registers 1 "first" 1 ++ registers 2 "second" 2 ++ registers 3 "third" 3 ++
    adds 4 1 "second" .admin 12 ++ adds 5 1 "third" .viewer 13

theorem rolesOk_team :
    ∃ s, Reachable (stepOf next) .init s ∧ s.memberships.length = 5 ∧ RolesOk s := by
  have executed : ((exec next .init team).any fun s =>
      decide (s.memberships.length = 5)) = true := by
    decide
  obtain ⟨s, reached, size⟩ := reachable_of_exec executed
  exact ⟨s, reached, of_decide_eq_true size, rolesOk_of_reachable reached⟩

/-- While the admin changes the viewer's role, the owner makes the viewer an admin. -/
def promotion : List Event :=
  [⟨6, .selectPrincipal 2 (.members 1 (.updateMember 13 .agent))⟩, ⟨6, .selectMembership⟩,
    ⟨6, .selectTarget⟩, ⟨7, .selectPrincipal 1 (.members 1 (.updateMember 13 .admin))⟩,
    ⟨7, .selectMembership⟩, ⟨7, .selectTarget⟩, ⟨7, .flush⟩]

/-- While the admin adds a member, who is the admin, the owner removes the admin. -/
def removal : List Event :=
  [⟨8, .selectPrincipal 2 (.members 1 (.addMember "second@example.com".toList .agent))⟩,
    ⟨8, .selectMembership⟩, ⟨9, .selectPrincipal 1 (.members 1 (.removeMember 12))⟩,
    ⟨9, .selectMembership⟩, ⟨9, .selectTarget⟩, ⟨9, .flush⟩, ⟨8, .selectUser⟩]

def sampleAdmin : WorkspaceAccess :=
  ⟨⟨⟨2, "second@example.com".toList, true⟩⟩, ⟨12, 1, 2, .admin⟩⟩

/-- The admin takes a role of its own rank away, and it adds itself. -/
theorem admin_escapes_rank_and_self :
    (∃ s s' event old, Reachable (stepOf next) .init s ∧ stepOf next s event s' ∧
      (s.phases event.request).access = some sampleAdmin ∧ old ∈ s.memberships ∧
      { old with role := .agent } ∈ s'.memberships ∧ old ∉ s'.memberships ∧
      ¬ roleRank old.role < roleRank sampleAdmin.membership.role) ∧
    ∃ s s' event row, Reachable (stepOf next) .init s ∧ stepOf next s event s' ∧
      (s.phases event.request).access = some sampleAdmin ∧ row ∉ s.memberships ∧
      row ∈ s'.memberships ∧ row.userId = sampleAdmin.principal.user.id := by
  constructor
  · have executed : ((exec next .init (team ++ promotion)).any fun s =>
        (exec next s [⟨6, .flush⟩]).any fun s' =>
          decide ((s.phases 6).access = some sampleAdmin ∧ ⟨13, 1, 3, .admin⟩ ∈ s.memberships ∧
            ⟨13, 1, 3, .agent⟩ ∈ s'.memberships ∧ ⟨13, 1, 3, .admin⟩ ∉ s'.memberships)) = true := by
      decide
    obtain ⟨s, s', reached, run, checked⟩ := run_of_exec executed
    obtain ⟨granted, before, after, gone⟩ := of_decide_eq_true checked
    cases run with
    | cons taken rest =>
      cases rest
      exact ⟨s, s', _, ⟨13, 1, 3, .admin⟩, reached, taken, granted, before, after, gone, by decide⟩
  · have executed : ((exec next .init (team ++ removal)).any fun s =>
        (exec next s [⟨8, .insertMembership 14⟩]).any fun s' =>
          decide ((s.phases 8).access = some sampleAdmin ∧ ⟨14, 1, 2, .agent⟩ ∉ s.memberships ∧
            ⟨14, 1, 2, .agent⟩ ∈ s'.memberships)) = true := by
      decide
    obtain ⟨s, s', reached, run, checked⟩ := run_of_exec executed
    obtain ⟨granted, before, after⟩ := of_decide_eq_true checked
    cases run with
    | cons taken rest =>
      cases rest
      exact ⟨s, s', _, ⟨14, 1, 2, .agent⟩, reached, taken, granted, before, after, rfl⟩

end SupportPilot.Workspaces
