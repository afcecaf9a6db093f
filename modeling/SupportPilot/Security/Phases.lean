import SupportPilot.Security.Requests

/-! # What an open request relies on

`PhaseOk` says what a request in each phase has locked and written.  It holds in
every reachable state (`Inv.change`): the steps of a request establish it, and
the steps of the others cannot disturb it (`PhaseOk.keeps`).  With it, a step
changes the committed table in one of the ways of `TableChange`
(`Inv.tableChange`). -/

namespace SupportPilot.Security

open Lib Table

abbrev SessionStore := Store RequestId UUID RefreshSession

variable {store store' : SessionStore} {r other : RequestId} {current row : RefreshSession}

/-- The request has the lock of the committed row. -/
structure Held (store : SessionStore) (r : RequestId) (current : RefreshSession) : Prop where
  locked : store.locks current.id = some r
  committed : lookup store.committed current.id = some current

/-- The version that the family-wide update writes of a committed row. -/
def Revokes (store : SessionStore) (family : UUID) (now : Nat) (row : RefreshSession) : Prop :=
  ∃ old, lookup store.committed row.id = some old ∧ old.familyId = family ∧ row = old.revoke now

/-- What holds for a request in the phase. -/
def PhaseOk (store : SessionStore) (r : RequestId) : Phase → Prop
  | .idle | .raised _ => store.writes r = []
  | .issued row => store.writes r = [row] ∧ row.Issued ∧ lookup store.committed row.id = none
  | .accepted current _ | .active current _ =>
    store.writes r = [] ∧ Held store r current ∧ current.Live
  | .flushed current replacement _ => store.writes r = [replacement] ∧ Held store r current ∧
      current.Live ∧ replacement.Issued ∧ lookup store.committed replacement.id = none ∧
      replacement.familyId = current.familyId ∧ replacement.userId = current.userId
  | .reuse current _ => store.writes r = [] ∧ Held store r current
  | .updating current now _ => Held store r current ∧
      ∀ row ∈ store.writes r, Revokes store current.familyId now row
  | .logout row => store.writes r = [] ∧
      ∀ version ∈ row, ∃ current now, Held store r current ∧ version = current.revoke now

theorem Held.keeps (held : Held store r current) (keeps : Store.Keeps store store' r) :
    Held store' r current :=
  ⟨keeps.locks _ held.locked, (keeps.rows _ held.locked).trans held.committed⟩

/-- Other requests do not disturb a phase. -/
theorem PhaseOk.keeps {phase : Phase} (wf : store.Wf) (keeps : Store.Keeps store store' r)
    (ok : PhaseOk store r phase) : PhaseOk store' r phase := by
  -- the rows that the request writes are locked, so nobody else has changed them
  have unseen : ∀ row ∈ store.writes r,
      lookup store'.committed row.id = lookup store.committed row.id :=
    fun row member => keeps.rows _ (wf.locked r row member)
  cases phase with
  | idle => exact keeps.writes.trans ok
  | raised error => exact keeps.writes.trans ok
  | issued row =>
    obtain ⟨written, issued, absent⟩ := ok
    exact ⟨keeps.writes.trans written, issued, (unseen row (by simp [written])).trans absent⟩
  | accepted current now =>
    obtain ⟨written, held, live⟩ := ok
    exact ⟨keeps.writes.trans written, held.keeps keeps, live⟩
  | active current now =>
    obtain ⟨written, held, live⟩ := ok
    exact ⟨keeps.writes.trans written, held.keeps keeps, live⟩
  | flushed current replacement now =>
    obtain ⟨written, held, live, issued, absent, same⟩ := ok
    exact ⟨keeps.writes.trans written, held.keeps keeps, live, issued,
      (unseen replacement (by simp [written])).trans absent, same⟩
  | reuse current now =>
    obtain ⟨written, held⟩ := ok
    exact ⟨keeps.writes.trans written, held.keeps keeps⟩
  | updating current now todo =>
    obtain ⟨held, revokes⟩ := ok
    refine ⟨held.keeps keeps, fun row member => ?_⟩
    rw [keeps.writes] at member
    obtain ⟨old, found, holds⟩ := revokes row member
    exact ⟨old, (unseen row member).trans found, holds⟩
  | logout row =>
    obtain ⟨written, fromRow⟩ := ok
    refine ⟨keeps.writes.trans written, fun row' member => ?_⟩
    obtain ⟨current, now, held, same⟩ := fromRow row' member
    exact ⟨current, now, held.keeps keeps, same⟩

/-! ## The invariant -/

/-- Every family belongs to a drawn identifier, and the family of an inserted
sign-in row is nobody else's. -/
structure FamiliesOk (s : State) : Prop where
  committed : ∀ row ∈ s.store.committed, row.familyId ∈ s.families
  written : ∀ r, ∀ row ∈ s.store.writes r, row.familyId ∈ s.families
  own : ∀ r row, s.phases r = .issued row →
    (∀ row' ∈ s.store.committed, row'.familyId ≠ row.familyId) ∧
      ∀ r' ≠ r, ∀ row' ∈ s.store.writes r', row'.familyId ≠ row.familyId

structure Inv (s : State) : Prop where
  wf : s.store.Wf
  phases : ∀ r, PhaseOk s.store r (s.phases r)
  families : FamiliesOk s

theorem inv_init : Inv .init := by
  refine ⟨Store.wf_empty, fun _ => rfl, ?_, ?_, ?_⟩
  · intro row member
    cases member
  · intro r row member
    cases member
  · intro r row issued
    cases issued

/-- A step of one request: its own phase, and the others left alone. -/
structure Effect (s s' : State) (r : RequestId) : Prop where
  wf : s'.store.Wf
  own : PhaseOk s'.store r (s'.phases r)
  keeps : ∀ other ≠ r, Store.Keeps s.store s'.store other
  phases : ∀ other ≠ r, s'.phases other = s.phases other

theorem Effect.phasesOk {s s' : State} (inv : Inv s) (effect : Effect s s' r) :
    ∀ other, PhaseOk s'.store other (s'.phases other) := by
  intro other
  by_cases same : other = r
  · exact same ▸ effect.own
  · rw [effect.phases other same]
    exact (inv.phases other).keeps inv.wf (effect.keeps other same)

theorem effect_enter {s s' : State} {phase : Phase}
    (phases : s'.phases = Function.update s.phases r phase) (wf : s'.store.Wf)
    (own : PhaseOk s'.store r phase) (keeps : ∀ other ≠ r, Store.Keeps s.store s'.store other) :
    Effect s s' r := by
  refine ⟨wf, ?_, keeps, fun other differ => ?_⟩
  · rwa [phases, Function.update_self]
  · rw [phases, Function.update_of_ne differ]

theorem Rowless.phaseOk {phase : Phase} (rowless : Rowless phase) :
    PhaseOk store r phase ↔ store.writes r = [] := by
  cases rowless with
  | idle => rfl
  | raised => rfl
  | logout => simp [PhaseOk]

theorem Held.lock (held : Held store r current) (id : UUID) : Held (store.lock r id) r current :=
  ⟨Store.locks_lock_of_held held.locked, held.committed⟩

theorem Held.write (held : Held store r current) (row : RefreshSession) :
    Held (store.write r row) r current :=
  ⟨Store.locks_lock_of_held held.locked, held.committed⟩

theorem Held.free (held : Held store r current) : store.free r current.id = true :=
  Store.free_of_held held.locked

theorem unusedId_iff {s : State} {id : UUID} : s.unusedId id = true ↔
    s.store.locks id = none ∧ lookup s.store.committed id = none := by
  simp [State.unusedId]

/-- A commit that writes one more row first. -/
theorem effect_writeCommit {s s' : State} (inv : Inv s) (held : Held s.store r current)
    (sameId : row.id = current.id) (phases : s'.phases = Function.update s.phases r .idle)
    (committed : s'.store = (s.store.write r row).commit r) : Effect s s' r := by
  have isFree : s.store.free r (Row.key row) = true :=
    Store.free_of_held (show s.store.locks row.id = some r from sameId ▸ held.locked)
  have wf := inv.wf.write isFree
  refine effect_enter phases (committed ▸ wf.commit) ?_ fun other differ => ?_
  · rw [committed]
    exact Store.writes_close ..
  · rw [committed]
    exact (Store.keeps_write differ isFree).trans (Store.keeps_commit wf differ)

theorem Inv.effect {s s' : State} (inv : Inv s) (change : Change s r s') : Effect s s' r := by
  have ok := inv.phases r
  cases change with
  | @issue row idle unused newFamily issued =>
    rw [idle] at ok
    obtain ⟨unlocked, absent⟩ := unusedId_iff.1 unused
    have isFree : s.store.free r (Row.key row) = true := Store.free_iff.2 (.inl unlocked)
    refine effect_enter rfl (inv.wf.write isFree) ⟨?_, issued, absent⟩
      fun other differ => Store.keeps_write differ isFree
    rw [State.enter, Store.writes_write, ok]
    rfl
  | reject before rowless =>
    exact effect_enter rfl inv.wf (rowless.phaseOk.mpr (before.phaseOk.mp ok))
      fun other _ => .refl ..
  | rejectLocked idle isFree rowless =>
    rw [idle] at ok
    exact effect_enter rfl (inv.wf.lock isFree) (rowless.phaseOk.mpr ok)
      fun other differ => Store.keeps_lock differ isFree
  | @select current phase idle found isFree opens =>
    rw [idle] at ok
    -- the row is locked from here on
    have held : Held (s.store.lock r current.id) r current := ⟨Store.locks_lock .., found⟩
    refine effect_enter rfl (inv.wf.lock isFree) ?_ fun other differ => Store.keeps_lock differ isFree
    cases opens with
    | accepted live => exact ⟨ok, held, live⟩
    | reuse => exact ⟨ok, held⟩
    | logout =>
      refine ⟨ok, fun version member => ?_⟩
      cases member
      exact ⟨current, _, held, rfl⟩
  | readUser accepted goes =>
    rw [accepted] at ok
    refine effect_enter rfl inv.wf ?_ fun other _ => .refl ..
    rcases goes with rfl | rfl
    · exact ok
    · exact ok.1
  | @insert current replacement now active unused issued sameFamily sameUser =>
    rw [active] at ok
    obtain ⟨written, held, live⟩ := ok
    obtain ⟨unlocked, absent⟩ := unusedId_iff.1 unused
    have isFree : s.store.free r (Row.key replacement) = true := Store.free_iff.2 (.inl unlocked)
    have inserted : (s.store.write r replacement).writes r = [replacement] := by
      rw [Store.writes_write, written]
      rfl
    exact effect_enter rfl (inv.wf.write isFree)
      ⟨inserted, held.write replacement, live, issued, absent, sameFamily, sameUser⟩
      fun other differ => Store.keeps_write differ isFree
  | startUpdate reuse =>
    rw [reuse] at ok
    obtain ⟨written, held⟩ := ok
    exact effect_enter rfl inv.wf ⟨held, fun row member => by
      rw [State.enter_store, written] at member
      cases member⟩
      fun other _ => .refl ..
  | @updateRow current row now todo updating inTodo found isFree sameFamily =>
    rw [updating] at ok
    obtain ⟨held, revokes⟩ := ok
    have isFree' : s.store.free r (Row.key (row.revoke now)) = true := isFree
    refine effect_enter rfl (inv.wf.write isFree') ⟨held.write _, fun version member => ?_⟩
      fun other differ => Store.keeps_write differ isFree'
    rw [State.enter_store, Store.writes_write] at member
    rcases mem_upsert member with rfl | before
    · exact ⟨row, found, sameFamily, rfl⟩
    · exact revokes version before
  | skipRow updating other =>
    rw [updating] at ok
    exact effect_enter rfl inv.wf ok fun other _ => .refl ..
  | commitIssued issued =>
    exact effect_enter rfl inv.wf.commit (Store.writes_close ..)
      fun other differ => Store.keeps_commit inv.wf differ
  | @commitRotation current replacement now flushed =>
    rw [flushed] at ok
    exact effect_writeCommit inv ok.2.1
      (show (current.rotate now replacement.id).id = current.id from rfl) rfl rfl
  | commitReplay updated =>
    exact effect_enter rfl inv.wf.commit (Store.writes_close ..)
      fun other differ => Store.keeps_commit inv.wf differ
  | @commitLogout row logout =>
    rw [logout] at ok
    obtain ⟨current, now, held, rfl⟩ := ok.2 row rfl
    exact effect_writeCommit inv held (show (current.revoke now).id = current.id from rfl) rfl rfl
  | commitNothing logout =>
    exact effect_enter rfl inv.wf.commit (Store.writes_close ..)
      fun other differ => Store.keeps_commit inv.wf differ
  | rollback =>
    exact effect_enter rfl inv.wf.rollback (Store.writes_close ..)
      fun other differ => Store.keeps_rollback differ

/-- The request sees a row of this family. -/
def Knows (s : State) (r : RequestId) (family : UUID) : Prop :=
  ∃ old, (old ∈ s.store.committed ∨ old ∈ s.store.writes r) ∧ old.familyId = family

/-- New rows carry the family of an old one. -/
structure Spreads (s s' : State) (r : RequestId) : Prop where
  committed : ∀ row ∈ s'.store.committed, Knows s r row.familyId
  own : ∀ row ∈ s'.store.writes r, Knows s r row.familyId
  families : s'.families = s.families
  notIssued : ∀ row, s'.phases r ≠ .issued row

theorem FamiliesOk.spread {s s' : State} (ok : FamiliesOk s) (effect : Effect s s' r)
    (spreads : Spreads s s' r) : FamiliesOk s' := by
  -- every row that is known is of a family that has been drawn
  have drawn : ∀ old, old ∈ s.store.committed ∨ old ∈ s.store.writes r →
      old.familyId ∈ s.families := by
    rintro old (committed | written)
    · exact ok.committed old committed
    · exact ok.written r old written
  constructor
  · intro row member
    obtain ⟨old, source, same⟩ := spreads.committed row member
    rw [spreads.families, ← same]
    exact drawn old source
  · intro other row member
    rw [spreads.families]
    by_cases mine : other = r
    · subst mine
      obtain ⟨old, source, same⟩ := spreads.own row member
      rw [← same]
      exact drawn old source
    · rw [(effect.keeps other mine).writes] at member
      exact ok.written other row member
  · intro other row issued
    have differ : other ≠ r := by
      rintro rfl
      exact spreads.notIssued row issued
    rw [effect.phases other differ] at issued
    obtain ⟨committed, written⟩ := ok.own other row issued
    -- a row that another request issues starts a family of its own
    have apart : ∀ old, old ∈ s.store.committed ∨ old ∈ s.store.writes r →
        old.familyId ≠ row.familyId := by
      rintro old (isCommitted | isWritten)
      · exact committed old isCommitted
      · exact written r (Ne.symm differ) old isWritten
    refine ⟨fun row' member => ?_, fun other' differ' row' member => ?_⟩
    · obtain ⟨old, source, same⟩ := spreads.committed row' member
      rw [← same]
      exact apart old source
    · by_cases mine : other' = r
      · subst mine
        obtain ⟨old, source, same⟩ := spreads.own row' member
        rw [← same]
        exact apart old source
      · rw [(effect.keeps other' mine).writes] at member
        exact written other' differ' row' member

theorem spreads_enter {s s' : State} {phase : Phase}
    (phases : s'.phases = Function.update s.phases r phase) (families : s'.families = s.families)
    (notIssued : ∀ row, phase ≠ .issued row) (committed : s'.store.committed = s.store.committed)
    (written : ∀ row ∈ s'.store.writes r, row ∈ s.store.writes r ∨ Knows s r row.familyId) :
    Spreads s s' r := by
  refine ⟨fun row member => ?_, fun row member => ?_, families, ?_⟩
  · exact ⟨row, .inl (committed ▸ member), rfl⟩
  · rcases written row member with before | known
    · exact ⟨row, .inr before, rfl⟩
    · exact known
  · rwa [phases, Function.update_self]

theorem spreads_commit {s s' : State} {phase : Phase}
    (phases : s'.phases = Function.update s.phases r phase) (families : s'.families = s.families)
    (notIssued : ∀ row, phase ≠ .issued row) (isStore : s'.store = store.commit r) (wf : store.Wf)
    (committed : store.committed = s.store.committed)
    (written : ∀ row ∈ store.writes r, row ∈ s.store.writes r ∨ Knows s r row.familyId) :
    Spreads s s' r := by
  refine ⟨fun row member => ?_, fun row member => ?_, families, ?_⟩
  · rw [isStore] at member
    rcases (Store.mem_commit wf).mp member with mine | ⟨before, -⟩
    · rcases written row mine with before | known
      · exact ⟨row, .inr before, rfl⟩
      · exact known
    · exact ⟨row, .inl (committed ▸ before), rfl⟩
  · rw [isStore, Store.commit, Store.writes_close] at member
    cases member
  · rwa [phases, Function.update_self]

theorem Inv.issue {s : State} (inv : Inv s) (idle : s.store.writes r = [])
    (newFamily : row.familyId ∉ s.families) :
    FamiliesOk { s.enter r (s.store.write r row) (.issued row) with
      families := row.familyId :: s.families } := by
  have ok := inv.families
  have others : ∀ other ≠ r, (s.store.write r row).writes other = s.store.writes other :=
    fun other differ => Store.writes_write_of_ne differ row
  have mine : (s.store.write r row).writes r = [row] := by rw [Store.writes_write, idle]; rfl
  -- the family is drawn now, so no row is of it
  have isNew : ∀ old : RefreshSession, old.familyId ∈ s.families → old.familyId ≠ row.familyId :=
    fun old drawn same => newFamily (same ▸ drawn)
  constructor
  · exact fun old member => .tail _ (ok.committed old member)
  · intro other old member
    by_cases same : other = r
    · subst same
      rw [State.enter, mine, List.mem_singleton] at member
      exact member ▸ List.mem_cons_self
    · rw [State.enter, others other same] at member
      exact .tail _ (ok.written other old member)
  · intro other old issued
    by_cases same : other = r
    · subst same
      simp only [State.enter, Function.update_self, Phase.issued.injEq] at issued
      subst issued
      refine ⟨fun old member => isNew old (ok.committed old member),
        fun other' differ old member => isNew old (ok.written other' old ?_)⟩
      rwa [State.enter, others other' differ] at member
    · simp only [State.enter, Function.update_of_ne same] at issued
      obtain ⟨committed, written⟩ := ok.own other old issued
      refine ⟨committed, fun other' differ row' member => ?_⟩
      by_cases isMine : other' = r
      · subst isMine
        rw [State.enter, mine, List.mem_singleton] at member
        subst member
        have holds := inv.phases other
        rw [issued] at holds
        exact (isNew old (ok.written other old (by simp [holds.1]))).symm
      · rw [State.enter, others other' isMine] at member
        exact written other' differ row' member

theorem Inv.spreads {s s' : State} (inv : Inv s) (change : Change s r s') :
    Spreads s s' r ∨ ∃ row, s.phases r = .idle ∧ row.familyId ∉ s.families ∧
      s' = { s.enter r (s.store.write r row) (.issued row) with
        families := row.familyId :: s.families } := by
  have ok := inv.phases r
  have unwritten : ∀ row ∈ s.store.writes r, row ∈ s.store.writes r ∨ Knows s r row.familyId :=
    fun row member => .inl member
  have upserted : ∀ {row : RefreshSession}, Knows s r row.familyId →
      ∀ version ∈ (s.store.write r row).writes r,
        version ∈ s.store.writes r ∨ Knows s r version.familyId := by
    intro row known version member
    rw [Store.writes_write] at member
    rcases mem_upsert member with rfl | before
    · exact .inr known
    · exact .inl before
  -- only `issue` draws a family; what the others write is of a family that they know
  cases change with
  | @issue row idle unused newFamily issued => exact .inr ⟨row, idle, newFamily, rfl⟩
  | reject before rowless =>
    exact .inl (spreads_enter rfl rfl (fun row issued => by cases issued ▸ rowless) rfl unwritten)
  | rejectLocked idle isFree rowless =>
    exact .inl (spreads_enter rfl rfl (fun row issued => by cases issued ▸ rowless) rfl unwritten)
  | select idle found isFree opens =>
    exact .inl (spreads_enter rfl rfl (fun row issued => by cases issued ▸ opens) rfl unwritten)
  | readUser accepted goes =>
    refine .inl (spreads_enter rfl rfl (fun row issued => ?_) rfl unwritten)
    rcases goes with rfl | rfl <;> cases issued
  | insert active unused issued sameFamily sameUser =>
    rw [active] at ok
    refine .inl (spreads_enter rfl rfl (fun row issued => by cases issued) rfl (upserted ?_))
    exact ⟨_, .inl (mem_of_lookup ok.2.1.committed), sameFamily.symm⟩
  | startUpdate reuse =>
    exact .inl (spreads_enter rfl rfl (fun row issued => by cases issued) rfl unwritten)
  | updateRow updating inTodo found isFree sameFamily =>
    refine .inl (spreads_enter rfl rfl (fun row issued => by cases issued) rfl (upserted ?_))
    exact ⟨_, .inl (mem_of_lookup found), rfl⟩
  | skipRow updating other =>
    exact .inl (spreads_enter rfl rfl (fun row issued => by cases issued) rfl unwritten)
  | commitIssued issued =>
    exact .inl (spreads_commit rfl rfl (fun row issued => by cases issued) rfl inv.wf rfl
      unwritten)
  | commitRotation flushed =>
    rw [flushed] at ok
    have held := ok.2.1
    exact .inl (spreads_commit rfl rfl (fun row issued => by cases issued) rfl
      (inv.wf.write held.free) rfl (upserted ⟨_, .inl (mem_of_lookup held.committed), rfl⟩))
  | commitReplay updated =>
    exact .inl (spreads_commit rfl rfl (fun row issued => by cases issued) rfl inv.wf rfl
      unwritten)
  | @commitLogout row logout =>
    rw [logout] at ok
    obtain ⟨current, now, held, rfl⟩ := ok.2 row rfl
    exact .inl (spreads_commit rfl rfl (fun row issued => by cases issued) rfl
      (inv.wf.write held.free) rfl (upserted ⟨_, .inl (mem_of_lookup held.committed), rfl⟩))
  | commitNothing logout =>
    exact .inl (spreads_commit rfl rfl (fun row issued => by cases issued) rfl inv.wf rfl
      unwritten)
  | rollback =>
    refine .inl (spreads_enter rfl rfl (fun row issued => by cases issued) rfl fun row member => ?_)
    rw [State.enter_store, Store.rollback, Store.writes_close] at member
    cases member

theorem Inv.change {s s' : State} (inv : Inv s) (change : Change s r s') : Inv s' := by
  have effect := inv.effect change
  refine ⟨effect.wf, effect.phasesOk inv, ?_⟩
  rcases inv.spreads change with spreads | ⟨row, idle, newFamily, rfl⟩
  · exact inv.families.spread effect spreads
  · have ok := inv.phases r
    rw [idle] at ok
    exact inv.issue ok newFamily

/-! ## What a step does to the committed table -/

theorem tableChange_kept {rows : List RefreshSession} {log : List Rotation} :
    TableChange rows rows log log :=
  .revocation fun _ => .inl rfl

/-- A commit without versions. -/
theorem tableChange_nothing (wf : store.Wf) (written : store.writes r = []) {log : List Rotation} :
    TableChange store.committed (store.commit r).committed log log := by
  refine .revocation fun k => .inl ?_
  rw [Store.lookup_commit wf, written]
  rfl

/-- A commit of versions that revoke committed rows. -/
theorem tableChange_revocation (wf : store.Wf)
    (revokes : ∀ row ∈ store.writes r, ∃ old now, lookup store.committed row.id = some old ∧
      row = old.revoke now) {log : List Rotation} :
    TableChange store.committed (store.commit r).committed log log := by
  refine .revocation fun k => ?_
  rw [Store.lookup_commit wf]
  cases written : lookup (store.writes r) k with
  | none => exact .inl rfl
  | some row =>
    obtain ⟨old, now, found, rfl⟩ := revokes row (mem_of_lookup written)
    obtain rfl := key_of_lookup written
    exact .inr ⟨old, now, found, rfl⟩

theorem tableChange_rotation (wf : store.Wf) {replacement : RefreshSession} (now : Nat)
    (written : store.writes r = [replacement]) (held : Held store r current) (live : current.Live)
    (issued : replacement.Issued) (absent : lookup store.committed replacement.id = none)
    (sameFamily : replacement.familyId = current.familyId)
    (sameUser : replacement.userId = current.userId) {log : List Rotation} :
    TableChange store.committed
      ((store.write r (current.rotate now replacement.id)).commit r).committed log
      (⟨current.familyId, current.id, replacement.id⟩ :: log) := by
  refine .rotation now held.committed live absent issued sameFamily sameUser fun k => ?_
  have wf' : (store.write r (current.rotate now replacement.id)).Wf := wf.write held.free
  rw [Store.lookup_commit wf', Store.writes_write, written, lookup_upsert]
  by_cases isCurrent : k = current.id
  · rw [if_pos isCurrent, if_pos (show k = Row.key (current.rotate now replacement.id) from isCurrent)]
    rfl
  · rw [if_neg isCurrent, if_neg (show ¬ k = Row.key (current.rotate now replacement.id) from isCurrent)]
    by_cases isNew : k = replacement.id
    · subst isNew
      simp [lookup, Row.key]
    · have other : lookup [replacement] k = none :=
        lookup_eq_none.2 (List.forall_mem_singleton.mpr (Ne.symm isNew))
      rw [if_neg isNew, other, Option.none_or]
      rfl

/-- A step changes the committed table as the session families allow. -/
theorem Inv.tableChange {s s' : State} (inv : Inv s) (change : Change s r s') :
    TableChange s.store.committed s'.store.committed s.rotations s'.rotations := by
  have ok := inv.phases r
  -- the committed table changes at the commits, in the way of the phase before
  cases change with
  | issue | reject | rejectLocked | select | readUser | insert | startUpdate | updateRow
  | skipRow | rollback => exact tableChange_kept
  | @commitIssued row issued =>
    rw [issued] at ok
    obtain ⟨written, isIssued, absent⟩ := ok
    refine .root absent (inv.families.own r row issued).1 isIssued fun k => ?_
    rw [State.enter_store, Store.lookup_commit inv.wf, written]
    by_cases isNew : k = row.id
    · subst isNew
      simp [lookup, Row.key]
    · have other : lookup [row] k = none :=
        lookup_eq_none.2 (List.forall_mem_singleton.mpr (Ne.symm isNew))
      rw [if_neg isNew, other, Option.none_or]
  | @commitRotation current replacement now flushed =>
    rw [flushed] at ok
    obtain ⟨written, held, live, issued, absent, sameFamily, sameUser⟩ := ok
    exact tableChange_rotation inv.wf now written held live issued absent sameFamily sameUser
  | @commitReplay current now updated =>
    rw [updated] at ok
    refine tableChange_revocation inv.wf fun row member => ?_
    obtain ⟨old, found, -, same⟩ := ok.2 row member
    exact ⟨old, now, found, same⟩
  | @commitLogout row logout =>
    rw [logout] at ok
    obtain ⟨current, now, held, rfl⟩ := ok.2 row rfl
    have wf : (s.store.write r (current.revoke now)).Wf := inv.wf.write held.free
    refine tableChange_revocation wf fun version member => ?_
    rw [Store.writes_write, ok.1] at member
    rw [List.mem_singleton.mp (show version ∈ [current.revoke now] from member)]
    exact ⟨current, now, held.committed, rfl⟩
  | commitNothing logout =>
    rw [logout] at ok
    exact tableChange_nothing inv.wf ok.1

end SupportPilot.Security
