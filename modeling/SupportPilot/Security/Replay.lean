import SupportPilot.Security.Chains

/-! # Replay detection and the session family

A family whose rows are all revoked stays so (`Dead.change`): no row of it can be
rotated any more.  The family-wide update of a replay reaches every row of the
family when no rotation of the family commits while it runs
(`family_dead_of_replayed`).  A rotation that commits between the snapshot of the
update and its end leaves a live row behind (`replay_misses_replacement`). -/

namespace SupportPilot.Security

open Lib Table

/-- The family has rows, and all are revoked. -/
structure Dead (rows : List RefreshSession) (family : UUID) : Prop where
  some_row : ∃ row ∈ rows, row.familyId = family
  revoked : ∀ row ∈ rows, row.familyId = family → row.revokedAt ≠ none

section Tables

variable {rows rows' : List RefreshSession} {log log' : List Rotation} {family : UUID}

/-- Where a row of the new table comes from: an old row of the family, a new
family, or a rotation of the family. -/
theorem TableChange.origin (keyed' : Keyed rows') (change : TableChange rows rows' log log')
    {row : RefreshSession} (member : row ∈ rows') :
    (∃ old ∈ rows, old.id = row.id ∧ old.familyId = row.familyId ∧
      (old.revokedAt ≠ none → row.revokedAt ≠ none)) ∨
    (∀ old ∈ rows, old.familyId ≠ row.familyId) ∨
    ∃ current ∈ rows, current.Live ∧ current.familyId = row.familyId ∧
      log' = ⟨row.familyId, current.id, row.id⟩ :: log := by
  have present := (mem_iff_lookup keyed').mp member
  -- a row was there before, starts a family, or replaces a live one
  cases change with
  | root absent newFamily issued reads =>
    rw [reads] at present
    split at present
    · cases present
      exact .inr (.inl newFamily)
    · exact .inl ⟨row, mem_of_lookup present, rfl, rfl, id⟩
  | revocation reads =>
    rcases reads (Row.key row) with kept | ⟨old, now, before, after⟩
    · exact .inl ⟨row, mem_of_lookup (kept.symm.trans present), rfl, rfl, id⟩
    · cases after.symm.trans present
      exact .inl ⟨old, mem_of_lookup before, rfl, rfl, fun _ => by simp [RefreshSession.revoke]⟩
  | rotation now found live absent issued sameFamily sameUser reads =>
    rw [reads] at present
    split at present
    · cases present
      exact .inl ⟨_, mem_of_lookup found, rfl, rfl, fun _ => by simp [RefreshSession.rotate]⟩
    · split at present
      · cases present
        exact .inr (.inr ⟨_, mem_of_lookup found, live, sameFamily.symm, by rw [sameFamily]⟩)
      · exact .inl ⟨row, mem_of_lookup present, rfl, rfl, id⟩

/-- A change takes no row away. -/
theorem TableChange.survives (change : TableChange rows rows' log log') (keyed : Keyed rows)
    {row : RefreshSession} (member : row ∈ rows) :
    ∃ row' ∈ rows', row'.familyId = row.familyId := by
  have present : lookup rows row.id = some row := (mem_iff_lookup keyed).mp member
  have other : ∀ id, lookup rows id = none → row.id ≠ id := by
    rintro id absent rfl
    rw [present] at absent
    cases absent
  cases change with
  | root absent newFamily issued reads =>
    exact ⟨row, mem_of_lookup ((reads row.id).trans ((if_neg (other _ absent)).trans present)), rfl⟩
  | revocation reads =>
    rcases reads row.id with kept | ⟨old, now, before, after⟩
    · exact ⟨row, mem_of_lookup (kept.trans present), rfl⟩
    · cases before.symm.trans present
      exact ⟨_, mem_of_lookup after, rfl⟩
  | rotation now found live absent issued sameFamily sameUser reads =>
    have read := reads row.id
    split at read
    next isCurrent =>
      rw [isCurrent, found] at present
      cases present
      exact ⟨_, mem_of_lookup read, rfl⟩
    next =>
      rw [if_neg (other _ absent)] at read
      exact ⟨row, mem_of_lookup (read.trans present), rfl⟩

/-- A dead family stays dead, and none of its rows is rotated. -/
theorem Dead.change (keyed : Keyed rows) (keyed' : Keyed rows') (dead : Dead rows family)
    (change : TableChange rows rows' log log') : Dead rows' family ∧
      log'.filter (·.familyId = family) = log.filter (·.familyId = family) := by
  obtain ⟨⟨row, member, inFamily⟩, revoked⟩ := dead
  refine ⟨⟨?_, fun row' member' inFamily' => ?_⟩, ?_⟩
  · obtain ⟨row', member', same⟩ := change.survives keyed member
    exact ⟨row', member', same.trans inFamily⟩
  · rcases change.origin keyed' member' with
      ⟨old, isOld, -, same, stays⟩ | newFamily | ⟨current, isCurrent, live, same, -⟩
    · exact stays (revoked old isOld (same.trans inFamily'))
    · exact absurd (inFamily.trans inFamily'.symm) (newFamily row member)
    · exact absurd live.unrevoked (revoked current isCurrent (same.trans inFamily'))
  · cases change with
    | root | revocation => rfl
    | rotation now found live absent issued sameFamily sameUser reads =>
      refine List.filter_cons_of_neg ?_
      simp only [decide_eq_true_eq]
      exact fun same => revoked _ (mem_of_lookup found) same live.unrevoked

end Tables

/-! ## Quiet commits -/

section Requests

variable [TokenCodec] {s s' : State} {r : RequestId}

/-- No update of the family is between its snapshot and its commit. -/
def Quiet (s : State) (family : UUID) : Prop :=
  ∀ r current now todo, s.phases r = .updating current now todo → current.familyId ≠ family

/-- The step commits a rotation only while its family is quiet. -/
def CommitsQuietly (s : State) (event : Event) : Prop :=
  ∀ current replacement now, s.phases event.request = .flushed current replacement now →
    event.statement = .commit → Quiet s current.familyId

/-- Steps that commit quietly. -/
def quietStep (s : State) (event : Event) (s' : State) : Prop :=
  stepOf next s event s' ∧ CommitsQuietly s event

/-- An update under way still has every row of the family before it, or has
written it. -/
def Covers (s : State) : Prop :=
  ∀ r current now todo, s.phases r = .updating current now todo →
    ∀ row ∈ s.store.committed, row.familyId = current.familyId →
      row.id ∈ todo ∨ ∃ version ∈ s.store.writes r, version.id = row.id

/-- Only a commit of a flushed replacement is logged. -/
theorem rotations_of_next {event : Event} (taken : next s event = some s') :
    s'.rotations = s.rotations ∨ ∃ current replacement now,
      s.phases event.request = .flushed current replacement now ∧ event.statement = .commit ∧
      s'.rotations = ⟨current.familyId, current.id, replacement.id⟩ :: s.rotations := by
  cases next_cases taken with
  | @commitRotation current replacement now flushed =>
    cases statement : event.statement with
    | commit => exact .inr ⟨current, replacement, now, flushed, rfl, rfl⟩
    | issue | selectForRotation | readUser | insertReplacement | startUpdate | updateRow
    | selectForLogout => simp [next, flushed, statement] at taken
    | rollback =>
      simp only [next, flushed, statement, Option.some.injEq] at taken
      rw [← taken]
      exact .inl rfl
  | _ => exact .inl rfl

omit [TokenCodec] in
theorem Covers.others (inv : Inv s) (covers : Covers s) (change : Change s r s')
    (quiet : ∀ rotation, s'.rotations = rotation :: s.rotations → Quiet s rotation.familyId)
    {other : RequestId} (differ : other ≠ r) {current : RefreshSession} {now : Nat}
    {todo : List UUID} (updating : s'.phases other = .updating current now todo) :
    ∀ row ∈ s'.store.committed, row.familyId = current.familyId →
      row.id ∈ todo ∨ ∃ version ∈ s'.store.writes other, version.id = row.id := by
  intro row member inFamily
  have effect := inv.effect change
  rw [effect.phases other differ] at updating
  rw [(effect.keeps other differ).writes]
  have ok := inv.phases other
  rw [updating] at ok
  rcases (inv.tableChange change).origin effect.wf.keyed member with
    ⟨old, isOld, sameId, same, -⟩ | newFamily | ⟨rotated, -, -, -, logged⟩
  · rw [← sameId]
    exact covers other current now todo updating old isOld (same.trans inFamily)
  · exact absurd inFamily.symm (newFamily current (mem_of_lookup ok.1.committed))
  · exact absurd inFamily.symm (quiet _ logged other current now todo updating)

omit [TokenCodec] in
theorem Covers.own (inv : Inv s) (covers : Covers s) (change : Change s r s') {current : RefreshSession}
    {now : Nat} {todo : List UUID} (updating : s'.phases r = .updating current now todo) :
    ∀ row ∈ s'.store.committed, row.familyId = current.familyId →
      row.id ∈ todo ∨ ∃ version ∈ s'.store.writes r, version.id = row.id := by
  cases change with
  | startUpdate reuse =>
    simp only [State.enter, Function.update_self, Phase.updating.injEq] at updating
    obtain ⟨rfl, rfl, rfl⟩ := updating
    intro row member inFamily
    refine .inl (List.mem_map_of_mem (List.mem_filter.mpr ⟨member, ?_⟩))
    exact decide_eq_true inFamily
  | @updateRow current' row' now' todo' before inTodo found isFree sameFamily =>
    simp only [State.enter, Function.update_self, Phase.updating.injEq] at updating
    obtain ⟨rfl, rfl, rfl⟩ := updating
    intro row member inFamily
    rw [State.enter_store, Store.writes_write]
    -- the row leaves the list and enters the writes
    by_cases same : row.id = row'.id
    · exact .inr (exists_upsert _ (row'.revoke now') (.inl same))
    · rcases covers r _ _ _ before row member inFamily with left | written
      · exact .inl ((List.mem_erase_of_ne same).mpr left)
      · exact .inr (exists_upsert _ _ (.inr written))
  | @skipRow current' id now' todo' before otherFamily =>
    simp only [State.enter, Function.update_self, Phase.updating.injEq] at updating
    obtain ⟨rfl, rfl, rfl⟩ := updating
    intro row member inFamily
    rcases covers r _ _ _ before row member inFamily with left | written
    · have differ : row.id ≠ id := by
        rintro rfl
        exact otherFamily row ((mem_iff_lookup inv.wf.keyed).mp member) inFamily
      exact .inl ((List.mem_erase_of_ne differ).mpr left)
    · exact .inr written
  | reject before rowless | rejectLocked idle isFree rowless =>
    simp only [State.enter, Function.update_self] at updating
    cases updating ▸ rowless
  | select idle found isFree opens =>
    simp only [State.enter, Function.update_self] at updating
    cases updating ▸ opens
  | readUser accepted goes =>
    simp only [State.enter, Function.update_self] at updating
    rcases goes with rfl | rfl <;> cases updating
  | issue | insert | commitIssued | commitRotation | commitReplay | commitLogout | commitNothing
  | rollback =>
    simp only [State.enter, Function.update_self] at updating
    cases updating

/-! ## Runs -/

/-- What quiet runs keep: updates under way miss no row, and replayed families
are dead. -/
structure ReplayInv (s : State) : Prop extends Inv s where
  covers : Covers s
  dead : ∀ family ∈ s.replayed, Dead s.store.committed family

omit [TokenCodec] in
/-- The commit of a finished update leaves the family dead. -/
theorem dead_of_updated (inv : Inv s) (covers : Covers s) {current : RefreshSession} {now : Nat}
    (updated : s.phases r = .updating current now []) :
    Dead (s.store.commit r).committed current.familyId := by
  have ok := inv.phases r
  rw [updated] at ok
  obtain ⟨held, revokes⟩ := ok
  refine ⟨?_, fun row member inFamily => ?_⟩
  · have change : TableChange s.store.committed (s.store.commit r).committed [] [] :=
      tableChange_revocation inv.wf fun row member => by
        obtain ⟨old, found, -, same⟩ := revokes row member
        exact ⟨old, now, found, same⟩
    exact change.survives inv.wf.keyed (mem_of_lookup held.committed)
  · rcases (Store.mem_commit inv.wf).mp member with written | ⟨before, unwritten⟩
    · obtain ⟨old, -, -, rfl⟩ := revokes row written
      simp [RefreshSession.revoke]
    · obtain ⟨version, present, sameId⟩ :=
        (covers r _ _ _ updated row before inFamily).resolve_left (List.not_mem_nil)
      exact absurd sameId (lookup_eq_none.1 unwritten version present)

omit [TokenCodec] in
theorem ReplayInv.change (inv : ReplayInv s) (change : Change s r s')
    (quiet : ∀ rotation, s'.rotations = rotation :: s.rotations → Quiet s rotation.familyId) :
    ReplayInv s' := by
  have inv' := inv.toInv.change change
  refine ⟨inv', fun other current now todo updating => ?_, ?_⟩
  · by_cases same : other = r
    · subst same
      exact inv.covers.own inv.toInv change updating
    · exact inv.covers.others inv.toInv change quiet same updating
  · have stays : ∀ family ∈ s.replayed, Dead s'.store.committed family := fun family member =>
      ((inv.dead family member).change inv.wf.keyed inv'.wf.keyed (inv.tableChange change)).1
    cases change with
    | commitReplay updated =>
      exact List.forall_mem_cons.mpr ⟨dead_of_updated inv.toInv inv.covers updated, stays⟩
    | _ => exact stays

theorem ReplayInv.step {event : Event} (inv : ReplayInv s) (taken : quietStep s event s') :
    ReplayInv s' := by
  refine inv.change (next_cases taken.1) fun rotation logged => ?_
  rcases rotations_of_next taken.1 with same | ⟨current, replacement, now, flushed, commits, logged'⟩
  · rw [same] at logged
    exact absurd (congrArg List.length logged) (by simp)
  · rw [logged', List.cons.injEq] at logged
    rw [← logged.1]
    exact taken.2 current replacement now flushed commits

/-- A dead family stays dead in every run, and none of its tokens is rotated. -/
theorem dead_of_run {t : State} {events : List Event} {family : UUID}
    (run : Run (stepOf next) s events t) (inv : Inv s) (dead : Dead s.store.committed family) :
    Dead t.store.committed family ∧
      t.rotations.filter (·.familyId = family) = s.rotations.filter (·.familyId = family) := by
  induction run with
  | nil => exact ⟨dead, rfl⟩
  | cons taken _ ih =>
    have change := next_cases taken
    have inv' := inv.change change
    obtain ⟨dead', same⟩ := dead.change inv.wf.keyed inv'.wf.keyed (inv.tableChange change)
    obtain ⟨dead'', same'⟩ := ih inv' dead'
    exact ⟨dead'', same'.trans same⟩

/-- After a run of quiet steps, every family whose revocation has been committed
is revoked for good: in every later state all its rows are revoked, and no token
of it is rotated any more. -/
theorem family_dead_of_replayed {events : List Event} (run : Run quietStep .init events s) :
    ∀ family ∈ s.replayed, ∀ later t, Run (stepOf next) s later t →
      (∀ row ∈ t.store.committed, row.familyId = family → row.revokedAt ≠ none) ∧
        t.rotations.filter (·.familyId = family) = s.rotations.filter (·.familyId = family) := by
  intro family member later t afterwards
  have start : ReplayInv .init := by
    refine ⟨inv_init, ?_, ?_⟩
    · intro r current now todo updating
      cases updating
    · intro family member
      cases member
  have inv := run.invariant (fun _ _ _ inv taken => inv.step taken) start
  obtain ⟨dead, same⟩ := dead_of_run afterwards inv.toInv (inv.dead family member)
  exact ⟨dead.revoked, same⟩

/-! ## A check of a run -/

/-- The step commits quietly, as far as these requests show. -/
def commitsQuietly (requests : List RequestId) (s : State) (event : Event) : Bool :=
  match s.phases event.request, event.statement with
  | .flushed current _ _, .commit =>
    requests.all fun r =>
      match s.phases r with
      | .updating other _ _ => other.familyId ≠ current.familyId
      | _ => true
  | _, _ => true

/-- The check is enough where all other requests are idle. -/
theorem quietRun_of_checked {requests : List RequestId} {events : List Event} {t : State}
    (run : Run (stepOf (guarded (commitsQuietly requests) next)) s events t)
    (known : ∀ event ∈ events, event.request ∈ requests)
    (idle : ∀ r ∉ requests, s.phases r = .idle) : Run quietStep s events t := by
  induction run with
  | nil => exact .nil
  | @cons s event u events t taken _ ih =>
    obtain ⟨checked, taken⟩ := stepOf_guarded.1 taken
    rw [List.forall_mem_cons] at known
    refine .cons ⟨taken, ?_⟩ (ih known.2 fun r other => ?_)
    · intro current replacement now flushed commits r current' now' todo updating
      -- an idle request updates nothing, so the check has seen this one
      have isKnown : r ∈ requests := by
        by_contra other
        rw [idle r other] at updating
        cases updating
      simp only [commitsQuietly, flushed, commits, List.all_eq_true] at checked
      have apart := checked r isKnown
      simpa [updating] using apart
    -- the step leaves the requests that are not listed idle
    · have differs : r ≠ event.request := fun same => other (same ▸ known.1)
      rw [phases_of_next taken differs]
      exact idle r other

end Requests

/-! ## Two replays -/

/-- The first token is presented again after the refresh. -/
def replayEvents : List Event :=
  loginAndRefresh ++ [⟨2, .selectForRotation firstToken 300⟩, ⟨2, .startUpdate⟩, ⟨2, .updateRow 1⟩,
    ⟨2, .updateRow 2⟩, ⟨2, .commit⟩]

theorem family_dead_after_replay : ∃ s, @Run _ _ (@quietStep sampleCodec) .init replayEvents s ∧
    7 ∈ s.replayed ∧ ∀ row ∈ s.store.committed, row.familyId = 7 → row.revokedAt ≠ none := by
  rw [sampleCodec_eq]
  let : TokenCodec := ⟨sampleUuid, sampleHash⟩
  have executed : ((exec (guarded (commitsQuietly [0, 1, 2]) next) .init replayEvents).any
      fun s => 7 ∈ s.replayed) = true := by
    rw [replayEvents, loginAndRefresh, firstToken_eq]
    decide
  obtain ⟨s, ran, replayed⟩ := (Option.any_eq_true _ _).mp executed
  have run := quietRun_of_checked (.of_exec ran) (by decide) fun _ _ => rfl
  exact ⟨s, run, of_decide_eq_true replayed,
    (family_dead_of_replayed run 7 (of_decide_eq_true replayed) [] s .nil).1⟩

/-- Request 2 rotates the second token while request 3 presents the first one
again: request 2 commits after the snapshot of the update, before its end. -/
def raceEvents : List Event :=
  loginAndRefresh ++ [⟨2, .selectForRotation secondToken 300⟩, ⟨2, .readUser true⟩,
    ⟨2, .insertReplacement ⟨3, List.replicate 43 'C'⟩ 30 ⟨none, none⟩ 301⟩,
    ⟨3, .selectForRotation firstToken 302⟩, ⟨3, .startUpdate⟩, ⟨3, .updateRow 1⟩, ⟨2, .commit⟩,
    ⟨3, .updateRow 2⟩, ⟨3, .commit⟩]

/-- A refresh with the token that request 2 got. -/
def refreshAfterRace : List Event :=
  [⟨4, .selectForRotation thirdToken 400⟩, ⟨4, .readUser true⟩,
    ⟨4, .insertReplacement ⟨4, List.replicate 43 'D'⟩ 30 ⟨none, none⟩ 401⟩, ⟨4, .commit⟩]

theorem replay_misses_replacement :
    ∃ s, @exec _ _ (@next sampleCodec) .init raceEvents = some s ∧ 7 ∈ s.replayed ∧
      (∃ row ∈ s.store.committed, row.familyId = 7 ∧ row.revokedAt = none) ∧
      ∃ t, @exec _ _ (@next sampleCodec) s refreshAfterRace = some t ∧
        ⟨7, 3, 4⟩ ∈ t.rotations := by
  let := sampleCodec
  have executed : ((exec (@next sampleCodec) .init raceEvents).any fun s =>
      (exec (@next sampleCodec) s refreshAfterRace).any fun t => decide (7 ∈ s.replayed) &&
        (s.store.committed.any fun row => row.familyId = 7 && row.revokedAt = none) &&
        decide (⟨7, 3, 4⟩ ∈ t.rotations)) = true := by
    rw [sampleCodec_eq, raceEvents, loginAndRefresh, refreshAfterRace, firstToken_eq,
      secondToken_eq, thirdToken_eq]
    decide
  obtain ⟨s, t, ran, ran', checked⟩ := exists_exec executed
  simp only [Bool.and_eq_true, decide_eq_true_eq, List.any_eq_true] at checked
  obtain ⟨⟨replayed, alive⟩, rotated⟩ := checked
  exact ⟨s, ran, replayed, alive, t, ran', rotated⟩

end SupportPilot.Security
