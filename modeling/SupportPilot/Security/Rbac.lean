import SupportPilot.Domain

/-! # Roles of a workspace -/

namespace SupportPilot.Security

/-- `ROLE_RANK`. -/
def roleRank : WorkspaceRole → Nat
  | .viewer => 10
  | .agent => 20
  | .admin => 30
  | .owner => 40

def canManageRole (actor target : WorkspaceRole) : Bool :=
  if target = .owner then false
  else if actor = .owner then true
  else if actor = .admin then target = .agent || target = .viewer
  else false

def roleIsAllowed (actual : WorkspaceRole) (allowed : List WorkspaceRole) : Bool :=
  allowed.contains actual

variable {actor target : WorkspaceRole}

/-- Owners and admins manage exactly the roles below their own. -/
theorem canManageRole_iff : canManageRole actor target = true ↔
    (actor = .owner ∨ actor = .admin) ∧ roleRank target < roleRank actor := by
  cases actor <;> cases target <;> decide

theorem rank_lt_of_canManageRole (manages : canManageRole actor target = true) :
    roleRank target < roleRank actor :=
  (canManageRole_iff.1 manages).2

/-- Nobody manages an owner. -/
theorem ne_owner_of_canManageRole (manages : canManageRole actor target = true) :
    target ≠ .owner := by
  rintro rfl
  simp [canManageRole] at manages

end SupportPilot.Security
