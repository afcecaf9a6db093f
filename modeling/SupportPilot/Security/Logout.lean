import SupportPilot.Security.Replay

/-! # Logout and the session family

`revoke_session` revokes the one row that the presented token names.  If that
row is the newest of its family, nothing of the family is left alive: all older
rows were revoked when they were rotated.  If it was rotated before, the commit
writes nothing new, and the row that replaced it stays alive. -/

namespace SupportPilot.Security

open Lib Table

section Logout

variable {s t : State} {r : RequestId} {row : RefreshSession} {family : UUID}

/-- A request has accepted a token of the family. -/
def Accepting (s : State) (family : UUID) : Prop :=
  ∃ r current, current.familyId = family ∧ ((∃ now, s.phases r = .accepted current now) ∨
    (∃ now, s.phases r = .active current now) ∨
    ∃ replacement now, s.phases r = .flushed current replacement now)

/-- No token of a dead family is accepted. -/
theorem not_accepting_of_dead (inv : Inv s) (dead : Dead s.store.committed family) :
    ¬ Accepting s family := by
  intro ⟨r, current, inFamily, accepts⟩
  have ok := inv.phases r
  have live : lookup s.store.committed current.id = some current ∧ current.Live := by
    obtain ⟨now, phase⟩ | ⟨now, phase⟩ | ⟨replacement, now, phase⟩ := accepts
    · rw [phase] at ok
      exact ⟨ok.2.1.committed, ok.2.2⟩
    · rw [phase] at ok
      exact ⟨ok.2.1.committed, ok.2.2⟩
    · rw [phase] at ok
      exact ⟨ok.2.1.committed, ok.2.2.1⟩
  exact dead.revoked current (mem_of_lookup live.1) inFamily live.2.unrevoked

/-- What the commit of a logout does to the committed rows. -/
theorem mem_of_logout (inv : Inv s) (logout : s.phases r = .logout (some row)) :
    ∃ current now, lookup s.store.committed current.id = some current ∧ row = current.revoke now ∧
      ∀ row', row' ∈ ((s.store.write r row).commit r).committed ↔
        row' = row ∨ row' ∈ s.store.committed ∧ row'.id ≠ row.id := by
  have ok := inv.phases r
  rw [logout] at ok
  obtain ⟨current, now, held, rfl⟩ := ok.2 row rfl
  have wf : (s.store.write r (current.revoke now)).Wf := inv.wf.write held.free
  refine ⟨current, now, held.committed, rfl, fun row' => ?_⟩
  have written : (s.store.write r (current.revoke now)).writes r = [current.revoke now] := by
    rw [Store.writes_write, ok.1]
    rfl
  rw [Store.mem_commit wf, written, List.mem_singleton]
  refine or_congr Iff.rfl (and_congr_right fun _ => ?_)
  rw [lookup_eq_none, List.forall_mem_singleton]
  exact ne_comm

/-- Revoking the newest row of a chain leaves the family dead. -/
theorem dead_of_newest (inv : ChainInv s) (logout : s.phases r = .logout (some row))
    (newest : row.usedAt = none) :
    Dead ((s.store.write r row).commit r).committed row.familyId := by
  obtain ⟨current, now, found, rfl, members⟩ := mem_of_logout inv.toInv logout
  have linear := linearChains inv.wf.keyed inv.chained inv.logged
  obtain ⟨user, ids, chain⟩ := inv.chained current (mem_of_lookup found)
  have last := chain.linked.last_of_unused (chain.complete current (mem_of_lookup found) rfl)
    found newest
  refine ⟨⟨_, (members _).mpr (.inl rfl), rfl⟩, fun row' member inFamily => ?_⟩
  cases (members row').mp member with
  | inl same =>
    rw [same]
    simp [RefreshSession.revoke]
  | inr old =>
    obtain ⟨isRow, differs⟩ := old
    have found' : lookup s.store.committed row'.id = some row' :=
      (mem_iff_lookup inv.wf.keyed).mp isRow
    have isUsed : row'.usedAt ≠ none := by
      -- an unused row is the last of the chain, which is the presented one
      intro unused
      have last' := chain.linked.last_of_unused (chain.complete row' isRow inFamily) found' unused
      rw [last] at last'
      exact differs (Option.some.inj last').symm
    exact (linear.replaced row' isRow isUsed).1

/-- A family without a live row has all its rows revoked. -/
theorem dead_of_no_live (inv : ChainInv s) (logout : s.phases r = .logout (some row))
    (noneLive : ∀ row' ∈ s.store.committed, row'.familyId = row.familyId → ¬ row'.Live) :
    Dead ((s.store.write r row).commit r).committed row.familyId := by
  obtain ⟨current, now, found, rfl, members⟩ := mem_of_logout inv.toInv logout
  have linear := linearChains inv.wf.keyed inv.chained inv.logged
  refine ⟨⟨_, (members _).mpr (.inl rfl), rfl⟩, fun row' member inFamily => ?_⟩
  cases (members row').mp member with
  | inl same =>
    rw [same]
    simp [RefreshSession.revoke]
  | inr old =>
    intro unrevoked
    apply noneLive row' old.1 inFamily
    refine ⟨?_, unrevoked⟩
    by_contra isUsed
    exact (linear.replaced row' old.1 isUsed).1 unrevoked

/-- A live row other than the presented one is still there after the commit. -/
theorem live_of_used (inv : ChainInv s) (logout : s.phases r = .logout (some row))
    (used : row.usedAt ≠ none) {other : RefreshSession} (member : other ∈ s.store.committed)
    (live : other.Live) : other ∈ ((s.store.write r row).commit r).committed := by
  obtain ⟨current, now, found, rfl, members⟩ := mem_of_logout inv.toInv logout
  refine (members other).mpr (.inr ⟨member, fun same => used ?_⟩)
  have found' : lookup s.store.committed other.id = some other :=
    (mem_iff_lookup inv.wf.keyed).mp member
  have sameId : other.id = current.id := same
  rw [sameId, found] at found'
  cases found'
  exact live.unused

/-- Let a logout commit in a reachable state.  If the row it presents was not
rotated, or no row of its family is alive any more, then in every later state of
every run no request has accepted a token of the family and no rotation of it has
been added.  Otherwise a row of the family is alive after the commit. -/
theorem family_dead_of_logout [TokenCodec] (reached : Reachable (stepOf next) .init s)
    (logout : s.phases r = .logout (some row)) (committed : next s ⟨r, .commit⟩ = some t) :
    ((row.usedAt = none ∨
        ∀ row' ∈ s.store.committed, row'.familyId = row.familyId → ¬ row'.Live) →
      ∀ later u, Run (stepOf next) t later u → ¬ Accepting u row.familyId ∧
        u.rotations.filter (·.familyId = row.familyId) =
          s.rotations.filter (·.familyId = row.familyId)) ∧
    (¬ (row.usedAt = none ∨
        ∀ row' ∈ s.store.committed, row'.familyId = row.familyId → ¬ row'.Live) →
      ∃ row' ∈ t.store.committed, row'.familyId = row.familyId ∧ row'.Live) := by
  have inv := chainInv_of_reachable reached
  have after : t = s.enter r ((s.store.write r row).commit r) .idle := by
    simp only [next, logout, State.commit, Option.some.injEq] at committed
    exact committed.symm
  have inv' := inv.step (show stepOf next s ⟨r, .commit⟩ t from committed)
  constructor
  · intro newest later u run
    have dead : Dead t.store.committed row.familyId := by
      rw [after, State.enter_store]
      cases newest with
      | inl unused => exact dead_of_newest inv logout unused
      | inr noneLive => exact dead_of_no_live inv logout noneLive
    obtain ⟨deadLater, same⟩ := dead_of_run run inv'.toInv dead
    have invLater : Inv u :=
      run.invariant (fun _ _ _ inv taken => inv.change (next_cases taken)) inv'.toInv
    refine ⟨not_accepting_of_dead invLater deadLater, same.trans ?_⟩
    rw [after]
    rfl
  · intro otherwise
    -- a live row of the family is left, and the logout revokes another one
    simp only [not_or, not_forall, not_not] at otherwise
    obtain ⟨used, other, member, inFamily, live⟩ := otherwise
    refine ⟨other, ?_, inFamily, live⟩
    rw [after, State.enter_store]
    exact live_of_used inv logout used member live

end Logout

/-! ## Two logouts -/

/-- A login, then a logout with its token. -/
def loginThenLogout : List Event :=
  [⟨0, .issue ⟨1, List.replicate 43 'A'⟩ 5 7 30 ⟨none, none⟩ 100⟩, ⟨0, .commit⟩,
    ⟨1, .selectForLogout firstToken 200⟩]

theorem family_dead_after_logout :
    ∃ s t, @exec _ _ (@next sampleCodec) .init loginThenLogout = some s ∧
      @next sampleCodec s ⟨1, .commit⟩ = some t ∧ ¬ Accepting t 7 := by
  let := sampleCodec
  let row := @issueSession sampleCodec ⟨1, List.replicate 43 'A'⟩ 5 7 30 ⟨none, none⟩ 100
  have executed : ((exec (@next sampleCodec) .init loginThenLogout).any fun s =>
      decide (s.phases 1 = .logout (some (row.logout 200))) &&
        (@next sampleCodec s ⟨1, .commit⟩).isSome) = true := by
    unfold row
    rw [sampleCodec_eq, loginThenLogout, firstToken_eq]
    decide
  obtain ⟨s, ran, checked⟩ := (Option.any_eq_true _ _).mp executed
  rw [Bool.and_eq_true, decide_eq_true_eq] at checked
  obtain ⟨t, committed⟩ := Option.isSome_iff_exists.mp checked.2
  have dead := (family_dead_of_logout ⟨_, Run.of_exec ran⟩ checked.1 committed).1 (.inl rfl)
  exact ⟨s, t, ran, committed, (dead [] t .nil).1⟩

/-- The browser refreshes and logs out at once: the logout presents the token
that the refresh has just rotated. -/
def logoutEvents : List Event :=
  loginAndRefresh ++ [⟨2, .selectForLogout firstToken 300⟩, ⟨2, .commit⟩]

/-- A refresh with the token of the rotation. -/
def refreshAfterLogout : List Event :=
  [⟨3, .selectForRotation secondToken 400⟩, ⟨3, .readUser true⟩,
    ⟨3, .insertReplacement ⟨3, List.replicate 43 'C'⟩ 30 ⟨none, none⟩ 401⟩, ⟨3, .commit⟩]

theorem logout_misses_replacement :
    ∃ s, @exec _ _ (@next sampleCodec) .init logoutEvents = some s ∧
      ∃ t, @exec _ _ (@next sampleCodec) s refreshAfterLogout = some t ∧
        ⟨7, 2, 3⟩ ∈ t.rotations := by
  let := sampleCodec
  have executed : ((exec (@next sampleCodec) .init logoutEvents).any fun s =>
      (exec (@next sampleCodec) s refreshAfterLogout).any fun t =>
        decide (⟨7, 2, 3⟩ ∈ t.rotations)) = true := by
    rw [sampleCodec_eq, logoutEvents, loginAndRefresh, refreshAfterLogout, firstToken_eq,
      secondToken_eq]
    decide
  obtain ⟨s, t, ran, ran', rotated⟩ := exists_exec executed
  exact ⟨s, ran, t, ran', of_decide_eq_true rotated⟩

end SupportPilot.Security
