import SupportPilot.Security.Replay

/-! # Revocations on a refused refresh

On its way to a refusal `rotate_session` sets `revoked_at` on rows.  A replay commits these
changes before it raises; an expired row or an inactive user does not, and `get_db_session`
rolls the transaction back.  `Tracked` adds to a request the row it presents and the rows on
which it has set `revoked_at` while it refuses. -/

namespace SupportPilot.Security

open Lib Table

/-- The row with this identifier is revoked in the database. -/
def Revoked (rows : List RefreshSession) (id : UUID) : Prop :=
  ∃ row, lookup rows id = some row ∧ row.revokedAt ≠ none

theorem Revoked.change {rows rows' : List RefreshSession} {log log' : List Rotation} {id : UUID}
    (revoked : Revoked rows id) (change : TableChange rows rows' log log') : Revoked rows' id := by
  obtain ⟨row, found, isRevoked⟩ := revoked
  cases change with
  | root absent newFamily issued reads =>
    refine ⟨row, ?_, isRevoked⟩
    rw [reads, if_neg, found]
    intro same
    rw [same, absent] at found
    cases found
  | rotation now current live absent issued sameFamily sameUser reads =>
    have read := reads id
    split at read
    · exact ⟨_, read, by simp [RefreshSession.rotate]⟩
    · split at read
      next isNew =>
        rw [isNew, absent] at found
        cases found
      next => exact ⟨row, read.trans found, isRevoked⟩
  | revocation reads =>
    obtain kept | ⟨old, now, -, read⟩ := reads id
    · exact ⟨row, kept.trans found, isRevoked⟩
    · exact ⟨_, read, by simp [RefreshSession.revoke]⟩

theorem revoked_upsert (rows : List RefreshSession) {row : RefreshSession}
    (isRevoked : row.revokedAt ≠ none) {id : UUID} (revoked : id = row.id ∨ Revoked rows id) :
    Revoked (upsert rows row) id := by
  have read := lookup_upsert rows row id
  split at read
  · exact ⟨row, read, isRevoked⟩
  next differ =>
    obtain ⟨version, found, revoked⟩ := revoked.resolve_left differ
    exact ⟨version, read.trans found, revoked⟩

/-! ## Tracking refusals -/

/-- `presented` is the row that the request's token names and whose secret matches, `marks`
are the rows on which the request has set `revoked_at` while it refuses. -/
structure Tracked where
  base : State
  presented : RequestId → Option RefreshSession
  marks : RequestId → List UUID

namespace Tracked

def init : Tracked := ⟨.init, fun _ => none, fun _ => []⟩

variable [TokenCodec]

def matching (s : State) (rawToken : Text) : Option RefreshSession :=
  match parseRefreshToken rawToken with
  | .error _ => none
  | .ok parts => (lookup s.store.committed parts.sessionId).filter (State.hashMatches parts.secret)

def presents (s : State) (event : Event) (before : Option RefreshSession) :
    Option RefreshSession :=
  match s.phases event.request, event.statement with
  | .idle, .selectForRotation rawToken _ => matching s rawToken
  | _, _ => before

/-- The rows on which the step sets `revoked_at` while it refuses. -/
def marked (s : State) (event : Event) : List UUID :=
  match s.phases event.request, event.statement with
  | .idle, .selectForRotation rawToken now =>
    match matching s rawToken with
    | some current => if current.verdict now = .refused then [current.id] else []
    | none => []
  | .accepted current _, .readUser active => if active then [] else [current.id]
  | .updating current _ todo, .updateRow id =>
    match lookup s.store.committed id with
    | some row => if id ∈ todo ∧ row.familyId = current.familyId then [id] else []
    | none => []
  | _, _ => []

/-- A request that has ended presents nothing. -/
def next (s : Tracked) (event : Event) : Option Tracked :=
  (Security.next s.base event).map fun base =>
    let r := event.request
    if base.phases r = .idle then
      { base
        presented := Function.update s.presented r none
        marks := Function.update s.marks r [] }
    else
      { base
        presented := Function.update s.presented r (presents s.base event (s.presented r))
        marks := Function.update s.marks r (s.marks r ++ marked s.base event) }

end Tracked

/-! ## What the marks of a request mean -/

/-- What is known of the row a request presents and of its marks, by its phase. -/
def TrackOk (store : SessionStore) (r : RequestId) (presented : Option RefreshSession)
    (marks : List UUID) : Phase → Prop
  | .idle | .issued _ | .logout _ => presented = none ∧ marks = []
  | .accepted current _ | .active current _ | .flushed current _ _ =>
    presented = some current ∧ marks = []
  | .reuse current _ => presented = some current ∧ ¬ current.Live ∧ marks = []
  | .updating current _ todo => presented = some current ∧ ¬ current.Live ∧
      (current.id ∈ marks ∨ current.id ∈ todo) ∧ ∀ id ∈ marks, Revoked (store.writes r) id
  | .raised _ => (presented = none → marks = []) ∧ ∀ current ∈ presented,
      current.id ∈ marks ∧ (current.Live → marks = [current.id] ∧ Held store r current) ∧
      (¬ current.Live → ∀ id ∈ marks, Revoked store.committed id)

section Steps

variable {store store' : SessionStore} {r : RequestId} {presented : Option RefreshSession}
  {marks : List UUID}

/-- Other requests do not disturb what is known. -/
theorem TrackOk.keeps {phase : Phase} (keeps : Store.Keeps store store' r)
    (stays : ∀ id, Revoked store.committed id → Revoked store'.committed id)
    (ok : TrackOk store r presented marks phase) : TrackOk store' r presented marks phase := by
  cases phase with
  | idle | issued | logout | accepted | active | flushed | reuse => exact ok
  | updating current now todo =>
    obtain ⟨isPresented, used, covered, written⟩ := ok
    refine ⟨isPresented, used, covered, ?_⟩
    rw [keeps.writes]
    exact written
  | raised error =>
    obtain ⟨nothing, presents⟩ := ok
    refine ⟨nothing, ?_⟩
    intro current member
    obtain ⟨own, live, used⟩ := presents current member
    refine ⟨own, ?_, fun replayed id marked => stays id (used replayed id marked)⟩
    intro isLive
    obtain ⟨alone, held⟩ := live isLive
    exact ⟨alone, held.keeps keeps⟩

theorem not_live_of_reuse {current : RefreshSession} {now : Nat}
    (reuse : current.verdict now = .reuse) : ¬ current.Live := by
  intro live
  simp [RefreshSession.verdict, live.unused, live.unrevoked] at reuse
  split at reuse <;> cases reuse

theorem live_of_refused {current : RefreshSession} {now : Nat}
    (refused : current.verdict now = .refused) : current.Live := by
  unfold RefreshSession.verdict at refused
  split at refused
  · cases refused
  next neither =>
    rw [not_or, not_not, not_not] at neither
    exact ⟨neither.1, neither.2⟩

variable [TokenCodec] {s base : State}

/-- Reading the presented row. -/
theorem trackOk_select {rawToken : Text} {now : Nat} (idle : s.phases r = .idle)
    (selected : s.select r rawToken (.raised invalidSession)
      (fun secret => State.rotationPhase secret now) = some base) :
    TrackOk base.store r (Tracked.matching s rawToken)
      (Tracked.marked s ⟨r, .selectForRotation rawToken now⟩) (base.phases r) := by
  have marked : Tracked.marked s ⟨r, .selectForRotation rawToken now⟩ =
      match Tracked.matching s rawToken with
      | some current => if current.verdict now = .refused then [current.id] else []
      | none => [] := by simp only [Tracked.marked, idle]
  rw [marked]
  unfold State.select at selected
  unfold Tracked.matching
  cases parsed : parseRefreshToken rawToken with
  | error e =>
    rw [parsed] at selected
    cases selected
    simp [State.enter, TrackOk]
  | ok parts =>
    rw [parsed] at selected
    obtain ⟨⟨found, store'⟩, locked, rfl⟩ := Option.map_eq_some_iff.mp selected
    dsimp only
    obtain ⟨rfl, rfl⟩ | ⟨current, rfl, sameId, known, -, rfl⟩ := selectForUpdate_cases locked
    · -- no row has this identifier
      have absent : lookup s.store.committed parts.sessionId = none := by
        unfold State.selectForUpdate at locked
        split at locked
        next absent => exact absent
        next => split at locked <;> cases locked
      simp [State.enter, State.rotationPhase, TrackOk, absent]
    · rw [known]
      cases matches' : State.hashMatches parts.secret current with
      | false => simp [State.enter, State.rotationPhase, TrackOk, matches', Option.filter]
      | true =>
        cases verdict : current.verdict now with
        | reuse =>
          simp [State.enter, State.rotationPhase, TrackOk, matches', Option.filter, verdict,
            not_live_of_reuse verdict]
        | accepted =>
          simp [State.enter, State.rotationPhase, TrackOk, matches', Option.filter, verdict]
        | refused =>
          -- the refused request has locked the row that it marks
          have held : Held (s.store.lock r parts.sessionId) r current := by
            rw [← sameId] at known ⊢
            exact ⟨Store.locks_lock .., known⟩
          simp [State.enter, State.rotationPhase, TrackOk, matches', Option.filter, verdict,
            live_of_refused verdict, held]

/-- One row of the family-wide update. -/
theorem trackOk_updateRow {current : RefreshSession} {now : Nat} {todo : List UUID} {id : UUID}
    (held : Held s.store r current)
    (ok : TrackOk s.store r presented marks (.updating current now todo))
    (updating : s.phases r = .updating current now todo)
    (updated : s.updateRow r current now todo id = some base) :
    TrackOk base.store r presented (marks ++ Tracked.marked s ⟨r, .updateRow id⟩)
      (base.phases r) := by
  obtain ⟨isPresented, used, covered, written⟩ := ok
  have marked : Tracked.marked s ⟨r, .updateRow id⟩ =
      match lookup s.store.committed id with
      | some row => if id ∈ todo ∧ row.familyId = current.familyId then [id] else []
      | none => [] := by simp only [Tracked.marked, updating]
  rw [marked]
  -- the presented row is passed over by no step
  have left : current.id ≠ id → current.id ∈ marks ∨ current.id ∈ todo.erase id := by
    intro differ
    exact covered.imp_right (List.mem_erase_of_ne differ).mpr
  unfold State.updateRow at updated
  split at updated
  next enabled =>
    cases known : lookup s.store.committed id with
    | none =>
      rw [known] at updated
      cases updated
      have differ : current.id ≠ id := by
        rintro rfl
        cases held.committed.symm.trans known
      simpa [State.enter, TrackOk, used, isPresented, left differ] using written
    | some row =>
      rw [known] at updated
      cases updated
      obtain rfl := key_of_lookup known
      by_cases sameFamily : row.familyId = current.familyId
      · simp only [State.enter, Function.update_self, sameFamily, enabled.1, if_true, TrackOk,
          and_self]
        refine ⟨isPresented, used, ?_, ?_⟩
        · by_cases own : current.id = row.id
          · exact .inl (List.mem_append_right _ (List.mem_singleton.mpr own))
          · exact (left own).imp_left (List.mem_append_left _)
        · have revoked : (row.revoke now).revokedAt ≠ none := by simp [RefreshSession.revoke]
          rw [List.forall_mem_append, List.forall_mem_singleton, Store.writes_write]
          constructor
          · intro other marked
            exact revoked_upsert _ revoked (.inr (written other marked))
          · exact revoked_upsert _ revoked (.inl rfl)
      · have differ : current.id ≠ row.id := by
          intro own
          have known' := held.committed
          rw [own] at known'
          cases known'.symm.trans known
          exact sameFamily rfl
        simpa [State.enter, TrackOk, used, sameFamily, isPresented, left differ] using written
  next => cases updated

omit [TokenCodec] in
/-- A commit that does not end the request is the one of a replay. -/
theorem trackOk_commit (wf : s.store.Wf) (ok : TrackOk s.store r presented marks (s.phases r))
    (committed : s.commit r = some base) (running : base.phases r ≠ .idle) :
    TrackOk base.store r presented marks (base.phases r) := by
  unfold State.commit at committed
  split at committed
  next => cases committed; exact absurd (Function.update_self ..) running
  next => cases committed; exact absurd (Function.update_self ..) running
  next current now updated =>
    cases committed
    rw [updated] at ok
    obtain ⟨rfl, used, covered, written⟩ := ok
    simp only [List.not_mem_nil, or_false] at covered
    simp only [State.enter, Function.update_self, TrackOk, reduceCtorEq, false_implies, true_and,
      Option.mem_def, Option.some.injEq, forall_eq', used]
    refine ⟨covered, fun _ id member => ?_⟩
    obtain ⟨row, found, isRevoked⟩ := written id member
    refine ⟨row, ?_, isRevoked⟩
    rw [Store.lookup_commit wf, found, Option.some_or]
  next => cases committed; exact absurd (Function.update_self ..) running
  next => cases committed; exact absurd (Function.update_self ..) running
  next => cases committed

theorem logout_of_select {rawToken : Text} {now : Nat}
    (selected : s.select r rawToken (.logout none)
      (fun secret => State.logoutPhase secret now) = some base) :
    ∃ row, base.phases r = .logout row := by
  unfold State.select at selected
  split at selected
  · cases selected
    exact ⟨none, Function.update_self ..⟩
  next parts _ =>
    obtain ⟨⟨found, store'⟩, -, rfl⟩ := Option.map_eq_some_iff.mp selected
    simp only [State.enter, Function.update_self]
    unfold State.logoutPhase
    split
    · exact ⟨none, rfl⟩
    · split <;> exact ⟨_, rfl⟩

theorem trackOk_own {statement : Statement} (inv : Inv s)
    (ok : TrackOk s.store r presented marks (s.phases r))
    (taken : next s ⟨r, statement⟩ = some base) (running : base.phases r ≠ .idle) :
    TrackOk base.store r (Tracked.presents s ⟨r, statement⟩ presented)
      (marks ++ Tracked.marked s ⟨r, statement⟩) (base.phases r) := by
  have phaseOk := inv.phases r
  unfold next at taken
  dsimp only at taken
  split at taken
  next drawn userId familyId days client now idle =>
    split at taken
    · cases taken
      rw [idle] at ok
      simpa [State.enter, TrackOk, Tracked.presents, Tracked.marked, idle] using ok
    · cases taken
  next rawToken now idle =>
    rw [idle] at ok
    obtain ⟨-, rfl⟩ := ok
    have selected := trackOk_select idle taken
    simpa only [Tracked.presents, idle, List.nil_append] using selected
  next current now active accepted =>
    cases taken
    rw [accepted] at ok phaseOk
    obtain ⟨rfl, rfl⟩ := ok
    obtain ⟨-, held, live⟩ := phaseOk
    cases active with
    | true => simp [State.enter, TrackOk, Tracked.presents, Tracked.marked, accepted]
    | false =>
      simp [State.enter, TrackOk, Tracked.presents, Tracked.marked, accepted, held, live]
  next current now drawn days client clock active =>
    split at taken
    · cases taken
      rw [active] at ok
      simpa [State.enter, TrackOk, Tracked.presents, Tracked.marked, active] using ok
    · cases taken
  next current now reuse =>
    cases taken
    rw [reuse] at ok
    obtain ⟨rfl, used, rfl⟩ := ok
    rw [reuse] at phaseOk
    -- the presented row is in the snapshot, since it belongs to the family
    have snapshot : current ∈ s.store.committed := mem_of_lookup phaseOk.2.committed
    simpa [State.enter, TrackOk, Tracked.presents, Tracked.marked, reuse, used] using
      ⟨current, ⟨snapshot, rfl⟩, rfl⟩
  next current now todo id updating =>
    rw [updating] at ok phaseOk
    have updated := trackOk_updateRow phaseOk.1 ok updating taken
    simpa only [Tracked.presents, updating] using updated
  next rawToken now idle =>
    rw [idle] at ok
    obtain ⟨row, after⟩ := logout_of_select taken
    rw [after]
    simpa [TrackOk, Tracked.presents, Tracked.marked, idle] using ok
  next =>
    have same : Tracked.presents s ⟨r, .commit⟩ presented = presented := by
      cases h : s.phases r <;> simp [Tracked.presents, h]
    have nothing : Tracked.marked s ⟨r, .commit⟩ = [] := by
      cases h : s.phases r <;> simp [Tracked.marked, h]
    -- a commit presents and marks nothing
    rw [same, nothing, List.append_nil]
    exact trackOk_commit inv.wf ok taken running
  next =>
    cases taken
    exact absurd (Function.update_self ..) running
  next => cases taken

/-- The invariant of the tracked system. -/
structure TrackInv (s : Tracked) : Prop extends Inv s.base where
  tracks : ∀ r, TrackOk s.base.store r (s.presented r) (s.marks r) (s.base.phases r)

omit [TokenCodec] in
theorem trackInv_init : TrackInv .init := by
  refine ⟨inv_init, fun r => ?_⟩
  exact ⟨rfl, rfl⟩

theorem base_of_next {s t : Tracked} {event : Event} (taken : Tracked.next s event = some t) :
    Security.next s.base event = some t.base := by
  obtain ⟨base, ran, rfl⟩ := Option.map_eq_some_iff.mp taken
  rw [ran]
  dsimp only
  split <;> rfl

/-- Only what is known of the request that moves changes. -/
theorem tracked_of_next {s t : Tracked} {event : Event} (taken : Tracked.next s event = some t) :
    (t.base.phases event.request = .idle ∧
      t.presented = Function.update s.presented event.request none ∧
      t.marks = Function.update s.marks event.request []) ∨
    (t.base.phases event.request ≠ .idle ∧
      t.presented = Function.update s.presented event.request
        (Tracked.presents s.base event (s.presented event.request)) ∧
      t.marks = Function.update s.marks event.request
        (s.marks event.request ++ Tracked.marked s.base event)) := by
  obtain ⟨base, -, rfl⟩ := Option.map_eq_some_iff.mp taken
  dsimp only
  split
  next ended => exact .inl ⟨ended, rfl, rfl⟩
  next running => exact .inr ⟨running, rfl, rfl⟩

theorem TrackInv.step {s t : Tracked} {event : Event} (inv : TrackInv s)
    (taken : Tracked.next s event = some t) : TrackInv t := by
  have ran := base_of_next taken
  have change := next_cases ran
  have effect := inv.effect change
  refine ⟨inv.toInv.change change, fun other => ?_⟩
  by_cases same : other = event.request
  · subst same
    obtain ⟨ended, presented, marks⟩ | ⟨running, presented, marks⟩ := tracked_of_next taken
    · rw [presented, marks, ended, Function.update_self, Function.update_self]
      exact ⟨rfl, rfl⟩
    · rw [presented, marks, Function.update_self, Function.update_self]
      exact trackOk_own inv.toInv (inv.tracks _) ran running
  · have kept : t.presented other = s.presented other ∧ t.marks other = s.marks other := by
      obtain ⟨-, presented, marks⟩ | ⟨-, presented, marks⟩ := tracked_of_next taken <;>
        simp [presented, marks, same]
    rw [kept.1, kept.2, effect.phases other same]
    refine (inv.tracks other).keeps (effect.keeps other same) fun id revoked => ?_
    exact revoked.change (inv.tableChange change)

theorem trackInv_of_reachable {s : Tracked} (reached : Reachable (stepOf Tracked.next) .init s) :
    TrackInv s :=
  reached.invariant trackInv_init fun _ _ _ inv taken => inv.step taken

/-! ## Refusals that last -/

/-- A revoked row stays revoked. -/
theorem revoked_of_run {t : State} {events : List Event} {id : UUID}
    (run : Run (stepOf next) s events t) (inv : Inv s) (revoked : Revoked s.store.committed id) :
    Revoked t.store.committed id := by
  have both : Inv t ∧ Revoked t.store.committed id := by
    refine run.invariant (I := fun s => Inv s ∧ Revoked s.store.committed id) ?_ ⟨inv, revoked⟩
    intro s event t holds taken
    have change := next_cases taken
    exact ⟨holds.1.change change, holds.2.change (holds.1.tableChange change)⟩
  exact both.2

/-- No token that names the row is accepted. -/
def Refuses (s : State) (id : UUID) : Prop :=
  ∀ r rawToken parts now t, parseRefreshToken rawToken = .ok parts → parts.sessionId = id →
    s.phases r = .idle → next s ⟨r, .selectForRotation rawToken now⟩ = some t →
    t.phases r = .raised invalidSession ∨ ∃ current, t.phases r = .reuse current now

theorem refuses_of_revoked {id : UUID} (revoked : Revoked s.store.committed id) :
    Refuses s id := by
  intro r rawToken parts now t parsed named idle taken
  obtain ⟨row, found, isRevoked⟩ := revoked
  simp only [next, idle, State.select, parsed, named, State.selectForUpdate, found] at taken
  split at taken
  · cases taken
    simp only [State.enter, Function.update_self, State.rotationPhase]
    split
    · simp [RefreshSession.verdict, isRevoked]
    · exact .inl rfl
  · cases taken

end Steps

section Refusals

variable [TokenCodec] {s : Tracked} {r : RequestId} {error : PyError} {current : RefreshSession}

/-- The request has been refused; what it revoked on the way is revoked for good, and so the
tokens of these rows are refused for good. -/
def Survives (t : State) (marks : List UUID) : Prop :=
  ∀ id ∈ marks, ∀ later u, Run (stepOf next) t later u →
    Revoked u.store.committed id ∧ Refuses u id

/-- A refusal always sets `revoked_at` on the presented row.  This outlives the request
exactly when the row had been used or revoked before. -/
theorem refusal_survives_iff (reached : Reachable (stepOf Tracked.next) .init s)
    (refused : s.base.phases r = .raised error) (matching : s.presented r = some current)
    {t : State} (ended : next s.base ⟨r, .rollback⟩ = some t) :
    current.id ∈ s.marks r ∧
      (Survives t (s.marks r) ↔ current.usedAt ≠ none ∨ current.revokedAt ≠ none) := by
  have inv := trackInv_of_reachable reached
  have ok := inv.tracks r
  rw [refused] at ok
  obtain ⟨own, live, replayed⟩ := ok.2 current matching
  refine ⟨own, ?_⟩
  have invT : Inv t := inv.toInv.change (next_cases ended)
  have rolledBack : t.store.committed = s.base.store.committed := by
    simp only [next, refused, Option.some.injEq] at ended
    rw [← ended]
    rfl
  constructor
  · intro survives
    by_contra neither
    rw [not_or, not_not, not_not] at neither
    obtain ⟨-, held⟩ := live ⟨neither.1, neither.2⟩
    -- the rollback leaves the row as the request had read it
    obtain ⟨⟨row, found, isRevoked⟩, -⟩ := survives current.id own [] t .nil
    rw [rolledBack, held.committed] at found
    cases found
    exact isRevoked neither.2
  · intro before id marked later u run
    have dead : ¬ current.Live := fun isLive =>
      before.elim (absurd isLive.unused) (absurd isLive.unrevoked)
    have revoked := replayed dead id marked
    rw [← rolledBack] at revoked
    have lasting := revoked_of_run run invT revoked
    exact ⟨lasting, refuses_of_revoked lasting⟩

end Refusals

/-! ## Two refusals -/

theorem refusal_survives_replay :
    ∃ s t, @Reachable _ _ (stepOf (@Tracked.next sampleCodec)) .init s ∧
      s.base.phases 2 = .raised reuseDetected ∧ s.marks 2 = [1, 2] ∧
      @next sampleCodec s.base ⟨2, .rollback⟩ = some t ∧ @Survives sampleCodec t (s.marks 2) := by
  let := sampleCodec
  have executed : ((exec (@Tracked.next sampleCodec) .init replayEvents).any fun s =>
      s.base.phases 2 = .raised reuseDetected ∧ s.marks 2 = [1, 2] ∧
        (s.presented 2).any (·.usedAt.isSome) ∧
        (@next sampleCodec s.base ⟨2, .rollback⟩).isSome) = true := by
    rw [sampleCodec_eq, replayEvents, loginAndRefresh, firstToken_eq]
    decide
  obtain ⟨s, reached, checked⟩ := reachable_of_exec executed
  obtain ⟨refused, marks, presented, ends⟩ := of_decide_eq_true checked
  obtain ⟨current, presented, used⟩ := (Option.any_eq_true _ _).mp presented
  obtain ⟨t, ended⟩ := Option.isSome_iff_exists.mp ends
  have survives := refusal_survives_iff reached refused presented ended
  have before : current.usedAt ≠ none := by
    intro unused
    rw [unused] at used
    cases used
  exact ⟨s, t, reached, refused, marks, ended, survives.2.mpr (.inl before)⟩

/-- The user of the presented row has been deactivated. -/
def refusedEvents : List Event :=
  [⟨0, .issue ⟨1, List.replicate 43 'A'⟩ 5 7 30 ⟨none, none⟩ 100⟩, ⟨0, .commit⟩,
    ⟨1, .selectForRotation firstToken 200⟩, ⟨1, .readUser false⟩]

/-- The same token once the user is active again. -/
def refreshAfterRefusal : List Event :=
  [⟨2, .selectForRotation firstToken 300⟩, ⟨2, .readUser true⟩,
    ⟨2, .insertReplacement ⟨2, List.replicate 43 'B'⟩ 30 ⟨none, none⟩ 301⟩, ⟨2, .commit⟩]

theorem refusal_forgets_revocation :
    ∃ s t u current, @exec _ _ (@Tracked.next sampleCodec) .init refusedEvents = some s ∧
      s.base.phases 1 = .raised invalidSession ∧ s.presented 1 = some current ∧
      s.marks 1 = [current.id] ∧ @next sampleCodec s.base ⟨1, .rollback⟩ = some t ∧
      ¬ Revoked t.store.committed current.id ∧
      @exec _ _ (@next sampleCodec) t refreshAfterRefusal = some u ∧ ⟨7, 1, 2⟩ ∈ u.rotations := by
  rw [sampleCodec_eq, refusedEvents, refreshAfterRefusal, firstToken_eq]
  let : TokenCodec := ⟨sampleUuid, sampleHash⟩
  refine ⟨_, _, _, _, rfl, rfl, rfl, rfl, rfl, ?_, rfl, by decide⟩
  intro revoked
  obtain ⟨row, found, isRevoked⟩ := revoked
  cases found
  exact isRevoked rfl

end SupportPilot.Security
