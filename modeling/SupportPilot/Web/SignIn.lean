import SupportPilot.Web.Api

/-! # Which sign-in action the published state follows

A refresh publishes its outcome whenever its response arrives, also after a logout or a login
that was issued later (`publishes_late`).  The published state follows the latest action in the
runs where no older refresh, login or registration is under way when a logout settles, and no
older refresh when a login or registration publishes (`orderly`). -/

namespace SupportPilot.Web

open Lib

/-- Where a logout settles, no refresh, login or registration that was started before it is
under way; where a login or registration publishes, no refresh that was started before it. -/
def orderly (s : State) : Event → Bool
  | .react c =>
    match s.calls[c]? with
    | some call =>
      match call.role, call.phase with
      | .logout, .returned _ => (s.calls.take c).all fun other => !other.pending
      | .authenticate, .returned (.resolved _) =>
        (s.calls.take c).all fun other => !(other.role = .refresh && other.pending)
      | _, _ => true
    | none => true
  | _ => true

/-- The call may publish after the publication: after a logout only a refresh, login or
registration that was started after it, after a login or registration only a refresh that was. -/
structure Allows (p : Publication) (role : Role) (c : CallId) : Prop where
  logout : p.role = .logout → role.signsIn = true →
    p.publisher < c ∧ (p.quiet = true → p.started ≤ c)
  login : p.role = .authenticate → role = .refresh → p.publisher < c

/-- What orderly runs keep. -/
structure SignInInv (s : State) : Prop where
  seen : ∀ l auth, s.seen l = some auth → auth = s.currentAuth
  current : s.currentAuth = s.publications.head?.bind Publication.auth
  bounds : ∀ p ∈ s.publications, p.publisher < s.calls.length ∧ p.started ≤ s.calls.length
  signsIn : ∀ p ∈ s.publications, p.auth ≠ none → p.role.signsIn = true
  ordered : s.publications.Pairwise fun later p => Allows p later.role later.publisher
  pending : ∀ p ∈ s.publications, ∀ (c : CallId) (call : Call), s.calls[c]? = some call →
    call.pending = true → Allows p call.role c
  recorded : ∀ (c : CallId) (call : Call) (outcome : Outcome) (auth : Option AuthResponse),
    s.calls[c]? = some call → Publishes call.role outcome auth call.phase →
    ∃ p ∈ s.publications, p.publisher = c ∧ p.role = call.role ∧ p.auth = auth

/-- A step that publishes nothing. -/
structure Keeps (s t : State) : Prop where
  seen : ∀ l auth, t.seen l = some auth → s.seen l = some auth ∨ auth = s.currentAuth
  current : t.currentAuth = s.currentAuth
  publications : t.publications = s.publications
  grows : s.calls.length ≤ t.calls.length
  pending : ∀ (c : CallId) (call' : Call), t.calls[c]? = some call' → call'.pending = true →
    s.calls.length ≤ c ∨
      ∃ call, s.calls[c]? = some call ∧ call.pending = true ∧ call.role = call'.role
  recorded : ∀ (c : CallId) (call : Call) (outcome : Outcome) (auth : Option AuthResponse),
    t.calls[c]? = some call → Publishes call.role outcome auth call.phase →
    s.calls[c]? = some call

section Publishing

variable {role : Role} {outcome outcome' : Outcome} {auth auth' : Option AuthResponse}
  {phase : Phase}

theorem Publishes.det (publishes : Publishes role outcome auth phase)
    (again : Publishes role outcome' auth' phase) : auth' = auth := by
  cases publishes <;> cases again <;> rfl

theorem Publishes.stopped (publishes : Publishes role outcome auth phase) :
    phase.running = false := by
  cases publishes <;> rfl

theorem Publishes.signsIn (publishes : Publishes role outcome auth phase) (signedIn : auth ≠ none) :
    role.signsIn = true := by
  cases publishes with
  | refreshed | signedIn => rfl
  | refused | signedOut => exact absurd rfl signedIn

theorem not_publishes_of_running (running : phase.running = true) (outcome : Outcome)
    (auth : Option AuthResponse) : ¬ Publishes role outcome auth phase := by
  intro publishes
  rw [publishes.stopped] at running
  cases running

theorem not_publishes_of_settled (isRefresh : role = .refresh) :
    ¬ Publishes role outcome auth (.settled outcome') := by
  intro publishes
  cases publishes <;> cases isRefresh

theorem Silent.not_publishes (silent : Silent role phase) : ¬ Publishes role outcome auth phase := by
  intro publishes
  cases silent <;> cases publishes

end Publishing

section Steps

variable {s t u : State} {c : CallId} {call : Call}

theorem signInInv_init : SignInInv .init := by
  constructor <;> simp [State.init]

/-! ## Steps that publish nothing -/

theorem Keeps.refl (s : State) : Keeps s s :=
  ⟨fun _ _ got => .inl got, rfl, rfl, Nat.le_refl _,
    fun _ call found pending => .inr ⟨call, found, pending, rfl⟩, fun _ _ _ _ found _ => found⟩

theorem Keeps.trans (first : Keeps s t) (rest : Keeps t u) : Keeps s u := by
  refine ⟨?_, rest.current.trans first.current, rest.publications.trans first.publications,
    first.grows.trans rest.grows, ?_, ?_⟩
  · intro l auth got
    obtain before | current := rest.seen l auth got
    · exact first.seen l auth before
    · exact .inr (current.trans first.current)
  · intro c call'' found'' pending''
    obtain past | ⟨call', found', pending', role'⟩ := rest.pending c call'' found'' pending''
    · exact .inl (first.grows.trans past)
    · obtain past | ⟨call, found, pending, role⟩ := first.pending c call' found' pending'
      · exact .inl past
      · exact .inr ⟨call, found, pending, role.trans role'⟩
  · intro c call outcome auth found publishes
    exact first.recorded c call outcome auth (rest.recorded c call outcome auth found publishes)
      publishes

theorem keeps_append {new : Call}
    (silent : ∀ outcome auth, ¬ Publishes new.role outcome auth new.phase)
    (calls : t.calls = s.calls ++ [new]) (seen : t.seen = s.seen)
    (current : t.currentAuth = s.currentAuth)
    (publications : t.publications = s.publications) : Keeps s t := by
  refine ⟨fun l auth got => .inl (seen ▸ got), current, publications, ?_, ?_, ?_⟩
  · rw [calls, List.length_append]
    exact Nat.le_add_right ..
  · intro c call found pending
    rw [calls] at found
    obtain old | ⟨rfl, -⟩ := getElem?_of_concat found
    · exact .inr ⟨call, old, pending, rfl⟩
    · exact .inl (Nat.le_refl _)
  · intro c call outcome auth found publishes
    rw [calls] at found
    obtain old | ⟨-, rfl⟩ := getElem?_of_concat found
    · exact old
    · exact absurd publishes (silent outcome auth)

theorem keeps_goto (phase : Phase) (found : s.calls[c]? = some call)
    (still : ({ call with phase } : Call).pending = true → call.pending = true)
    (silent : ∀ outcome auth, ¬ Publishes call.role outcome auth phase) :
    Keeps s (s.goto c call phase) := by
  refine ⟨fun l auth got => .inl got, rfl, rfl, ?_, ?_, ?_⟩
  · simp [State.goto]
  · intro c' call' found' pending'
    obtain ⟨rfl, rfl⟩ | ⟨-, before⟩ := getElem?_of_set found'
    · exact .inr ⟨call, found, still pending', rfl⟩
    · exact .inr ⟨call', before, pending', rfl⟩
  · intro c' call' outcome auth found' publishes
    obtain ⟨rfl, rfl⟩ | ⟨-, before⟩ := getElem?_of_set found'
    · exact absurd publishes (silent outcome auth)
    · exact before

theorem keeps_refreshSession (s : State) : Keeps s s.refreshSession.1 := by
  unfold State.refreshSession
  split
  · exact .refl s
  · exact keeps_append (not_publishes_of_running rfl) rfl rfl rfl rfl

theorem SignInInv.keeps (inv : SignInInv s) (keeps : Keeps s t) : SignInInv t := by
  obtain ⟨seen, current, publications, grows, pending, recorded⟩ := keeps
  refine ⟨?_, ?_, ?_, ?_, ?_, ?_, ?_⟩
  · intro l auth got
    obtain before | isCurrent := seen l auth got
    · exact (inv.seen l auth before).trans current.symm
    · exact isCurrent.trans current.symm
  · rw [current, publications]
    exact inv.current
  · rw [publications]
    intro p member
    obtain ⟨publisher, started⟩ := inv.bounds p member
    exact ⟨publisher.trans_le grows, started.trans grows⟩
  · rw [publications]
    exact inv.signsIn
  · rw [publications]
    exact inv.ordered
  · rw [publications]
    intro p member c call' found' pending'
    obtain past | ⟨call, found, isPending, role⟩ := pending c call' found' pending'
    · -- a call that starts now comes after everything that has been published
      obtain ⟨publisher, started⟩ := inv.bounds p member
      exact ⟨fun _ _ => ⟨publisher.trans_le past, fun _ => started.trans past⟩,
        fun _ _ => publisher.trans_le past⟩
    · rw [← role]
      exact inv.pending p member c call found isPending
  · rw [publications]
    intro c call outcome auth found publishes
    exact inv.recorded c call outcome auth (recorded c call outcome auth found publishes) publishes

/-! ## A publication -/

theorem mem_take_of_lt {calls : List Call} {c' : CallId} {other : Call}
    (found : calls[c']? = some other) (older : c' < c) : other ∈ calls.take c := by
  have within : (calls.take c)[c']? = some other := by
    rw [List.getElem?_take_of_lt older, found]
  exact List.mem_of_getElem? within

/-- What `orderly` says of the publication that the step makes. -/
theorem allows_of_orderly {outcome : Outcome} {auth : Option AuthResponse} {phase : Phase}
    (order : orderly s (.react c) = true) (found : s.calls[c]? = some call)
    (returned : call.phase = .returned outcome) (publishes : Publishes call.role outcome auth phase)
    {c' : CallId} {other : Call} (found' : s.calls[c']? = some other) (differs : c' ≠ c)
    (pending : other.pending = true) :
    Allows ⟨c, call.role, auth, s.calls.length, s.calls.all (!·.pending)⟩ other.role c' := by
  simp only [orderly, found, returned] at order
  constructor
  -- no older sign-in is pending where a logout settles
  · intro isLogout signsIn
    dsimp only at isLogout
    simp only [isLogout, List.all_eq_true] at order
    refine ⟨?_, fun quiet => ?_⟩
    · by_contra notLater
      have older : c' < c := Nat.lt_of_le_of_ne (Nat.le_of_not_lt notLater) differs
      have settled := order other (mem_take_of_lt found' older)
      rw [pending] at settled
      cases settled
    · have settled := List.all_eq_true.mp quiet other (List.mem_of_getElem? found')
      rw [pending] at settled
      cases settled
  · intro isLogin isRefresh
    dsimp only at isLogin
    rw [isLogin] at publishes
    cases publishes with
    | signedIn =>
      simp only [isLogin, List.all_eq_true] at order
      by_contra notLater
      have older : c' < c := Nat.lt_of_le_of_ne (Nat.le_of_not_lt notLater) differs
      have settled := order other (mem_take_of_lt found' older)
      simp [isRefresh, pending] at settled

theorem SignInInv.publish (inv : SignInInv s) {outcome : Outcome} {auth : Option AuthResponse}
    {phase : Phase} (order : orderly s (.react c) = true) (found : s.calls[c]? = some call)
    (returned : call.phase = .returned outcome)
    (publishes : Publishes call.role outcome auth phase) :
    SignInInv ((s.publishAuth c call auth).goto c call phase) := by
  obtain ⟨bound, -⟩ := List.getElem?_eq_some_iff.mp found
  have stopped : ({ call with phase } : Call).pending = false := by
    simp [Call.pending, publishes.stopped]
  refine ⟨?_, rfl, ?_, ?_, ?_, ?_, ?_⟩
  · intro l value got
    obtain ⟨_, -, rfl⟩ := Option.map_eq_some_iff.mp got
    rfl
  · simp only [State.goto, State.publishAuth, List.length_set, List.forall_mem_cons]
    exact ⟨⟨bound, Nat.le_refl _⟩, inv.bounds⟩
  · simp only [State.goto, State.publishAuth, List.forall_mem_cons]
    exact ⟨publishes.signsIn, inv.signsIn⟩
  · refine List.pairwise_cons.mpr ⟨fun p member => ?_, inv.ordered⟩
    -- a refresh, login or registration was pending until now; a logout is always allowed
    by_cases signsIn : call.role.signsIn = true
    · have pending : call.pending = true := by
        simp [Call.pending, signsIn, returned, Phase.running]
      exact inv.pending p member c call found pending
    · refine ⟨fun _ does => absurd does signsIn, fun _ isRefresh => ?_⟩
      dsimp only at isRefresh
      rw [isRefresh] at signsIn
      exact absurd rfl signsIn
  · intro p member c' call' found' pending'
    obtain ⟨rfl, rfl⟩ | ⟨differs, before⟩ := getElem?_of_set found'
    · rw [stopped] at pending'
      cases pending'
    · obtain rfl | old := List.mem_cons.mp member
      · exact allows_of_orderly order found returned publishes before differs pending'
      · exact inv.pending p old c' call' before pending'
  · intro c' call' outcome' auth' found' publishes'
    obtain ⟨rfl, rfl⟩ | ⟨-, before⟩ := getElem?_of_set found'
    · exact ⟨_, List.mem_cons_self, rfl, rfl, (publishes.det publishes').symm⟩
    · obtain ⟨p, member, rest⟩ := inv.recorded c' call' outcome' auth' before publishes'
      exact ⟨p, List.mem_cons_of_mem _ member, rest⟩

theorem SignInInv.step {event : Event} (inv : SignInInv s)
    (taken : stepOf (guarded orderly next) s event t) : SignInInv t := by
  obtain ⟨order, taken⟩ := stepOf_guarded.1 taken
  -- a publication changes the session, and everything else keeps it
  cases next_cases taken with
  | listen delivered =>
    exact inv.keeps { Keeps.refl s with seen := delivered }
  | @request event path options accessToken retryAuth role other own =>
    exact inv.keeps (keeps_append (not_publishes_of_running rfl) rfl rfl rfl rfl)
  | refresh => exact inv.keeps (keeps_refreshSession s)
  | move found running silent =>
    apply inv.keeps
    apply keeps_goto _ found
    · intro pending
      simp only [Call.pending, Bool.and_eq_true] at pending ⊢
      exact ⟨pending.1, running⟩
    · exact fun _ _ => silent.not_publishes
  | @wait event c call accessToken retryAuth found fetching retries =>
    have after := keeps_goto (.refreshing s.refreshSession.2)
      (getElem?_refreshSession found) (by simp [Call.pending, fetching, Phase.running])
      (not_publishes_of_running rfl)
    exact inv.keeps ((keeps_refreshSession s).trans after)
  | @retry event c refresh call other auth found waiting known settled =>
    have keeps := keeps_goto (.fetching (some auth.token.accessToken) false) found
      (by simp [Call.pending, waiting, Phase.running]) (not_publishes_of_running rfl)
    exact inv.keeps ⟨keeps.seen, keeps.current, keeps.publications, keeps.grows, keeps.pending,
      keeps.recorded⟩
  | publish found returned publishes => exact inv.publish order found returned publishes
  | @clear event c call outcome found isRefresh published =>
    have keeps := keeps_goto (.settled outcome) found
      (by simp [Call.pending, Phase.running]) (fun _ _ => not_publishes_of_settled isRefresh)
    exact inv.keeps ⟨keeps.seen, keeps.current, keeps.publications, keeps.grows, keeps.pending,
      keeps.recorded⟩

theorem signInInv_of_run {events : List Event}
    (run : Run (stepOf (guarded orderly next)) .init events s) : SignInInv s :=
  run.invariant (fun _ _ _ inv taken => inv.step taken) signInInv_init

/-! ## What follows -/

/-- The published sign-in state follows the latest sign-in action.  Histories have the newest
publication first, so `later` is what was published after `p`. -/
structure FollowsLatest (s : State) : Prop where
  delivered : ∀ l auth, s.seen l = some auth → auth = s.currentAuth
  /-- After a logout has settled nobody is signed in, until a refresh, login or registration
  succeeds that was started after the logout; after it had settled, if none was under way then. -/
  after_logout : ∀ (c : CallId) (call : Call) (outcome : Outcome), s.calls[c]? = some call →
    call.role = .logout → call.phase = .settled outcome →
    ∃ later p earlier, s.publications = later ++ p :: earlier ∧ p.publisher = c ∧ p.auth = none ∧
      (s.currentAuth = none ∨ ∃ q ∈ later, q.auth ≠ none ∧ q.role.signsIn = true ∧
        c < q.publisher ∧ (p.quiet = true → p.started ≤ q.publisher))
  /-- What a login or registration has published is not replaced or cleared by a refresh that was
  started before it. -/
  after_login : ∀ (c : CallId) (call : Call) (auth : Option AuthResponse),
    s.calls[c]? = some call → call.role = .authenticate → call.phase = .settled (.resolved auth) →
    ∃ later p earlier, s.publications = later ++ p :: earlier ∧ p.publisher = c ∧ p.auth = auth ∧
      ∀ q ∈ later, q.role = .refresh → c < q.publisher

/-- In every order of calls, responses and callbacks that is orderly, the published state
follows the latest sign-in action. -/
theorem followsLatest_of_orderly {events : List Event}
    (run : Run (stepOf (guarded orderly next)) .init events s) : FollowsLatest s := by
  have inv := signInInv_of_run run
  have allowed : ∀ later p earlier, s.publications = later ++ p :: earlier →
      ∀ q ∈ later, Allows p q.role q.publisher := by
    intro later p earlier whole q member
    have ordered := inv.ordered
    rw [whole, List.pairwise_append] at ordered
    exact ordered.2.2 q member p List.mem_cons_self
  refine ⟨inv.seen, ?_, ?_⟩
  · intro c call outcome found isLogout settled
    obtain ⟨p, member, publisher, role, signedOut⟩ := inv.recorded c call outcome none found
      (by rw [isLogout, settled]; exact .signedOut)
    obtain ⟨later, earlier, whole⟩ := List.append_of_mem member
    refine ⟨later, p, earlier, whole, publisher, signedOut, ?_⟩
    have current := inv.current
    cases later with
    | nil =>
      rw [whole] at current
      exact .inl (current.trans signedOut)
    | cons q later =>
      rw [whole] at current
      by_cases signedIn : q.auth = none
      · exact .inl (current.trans signedIn)
      -- only the latest publication counts for the current state
      · have isLatest : q ∈ s.publications := by simp [whole]
        have signsIn := inv.signsIn q isLatest signedIn
        have allows := (allowed _ p earlier whole q List.mem_cons_self).logout
          (role.trans isLogout) signsIn
        exact .inr ⟨q, List.mem_cons_self, signedIn, signsIn, publisher ▸ allows.1, allows.2⟩
  · intro c call auth found isLogin settled
    obtain ⟨p, member, publisher, role, published⟩ := inv.recorded c call (.resolved auth) auth found
      (by rw [isLogin, settled]; exact .signedIn)
    obtain ⟨later, earlier, whole⟩ := List.append_of_mem member
    refine ⟨later, p, earlier, whole, publisher, published, fun q isLater isRefresh => ?_⟩
    rw [← publisher]
    exact (allowed later p earlier whole q isLater).login (role.trans isLogin) isRefresh

end Steps

/-! ## Three runs -/

def firstAuth : AuthResponse := ⟨⟨"first-token".toList⟩⟩

def secondAuth : AuthResponse := ⟨⟨"second-token".toList⟩⟩

/-- A login, a logout, and a refresh that is started after it. -/
def orderlyEvents : List Event :=
  [.subscribeAuth 0, .login [], .respond 0 (some 200), .json 0 (some (some firstAuth)), .react 0,
    .logout, .respond 1 (some 204), .react 1, .refresh, .respond 2 (some 200),
    .json 2 (some (some secondAuth)), .react 2, .react 2]

theorem followsLatest_orderlyEvents :
    ∃ s, exec (guarded orderly next) .init orderlyEvents = some s ∧ FollowsLatest s ∧
      s.currentAuth = some secondAuth := by
  obtain ⟨s, executed, current⟩ : ∃ s, exec (guarded orderly next) .init orderlyEvents = some s ∧
      s.currentAuth = some secondAuth := ⟨_, rfl, rfl⟩
  exact ⟨s, executed, followsLatest_of_orderly (Run.of_exec executed), current⟩

/-- A refresh is under way while a logout is issued and settles. -/
def lateSuccess : List Event :=
  [.refresh, .logout, .respond 1 (some 204), .react 1, .respond 0 (some 200),
    .json 0 (some (some firstAuth)), .react 0]

/-- A refresh is under way while a login is issued and succeeds; then the refresh fails. -/
def lateFailure : List Event :=
  [.refresh, .login [], .respond 1 (some 200), .json 1 (some (some firstAuth)), .react 1,
    .respond 0 (some 401), .errorJson 0 none, .react 0]

theorem publishes_late :
    (∃ s, exec next .init lateSuccess = some s ∧ s.currentAuth = some firstAuth ∧
      ¬ FollowsLatest s) ∧
    ∃ s, exec next .init lateFailure = some s ∧ s.currentAuth = none ∧ ¬ FollowsLatest s := by
  constructor
  · refine ⟨_, rfl, rfl, fun follows => ?_⟩
    obtain ⟨later, p, earlier, whole, -, -, signedOut | again⟩ :=
      follows.after_logout 1 _ _ rfl rfl rfl
    · cases signedOut
    · -- nothing was started after the logout
      obtain ⟨q, member, -, -, younger, -⟩ := again
      have published : q.publisher ∈ (later ++ p :: earlier).map Publication.publisher :=
        List.mem_map_of_mem (List.mem_append_left _ member)
      rw [← whole] at published
      change q.publisher ∈ [0, 1] at published
      have known : q.publisher = 0 ∨ q.publisher = 1 := by simpa using published
      obtain isRefresh | isLogout := known
      · rw [isRefresh] at younger
        exact absurd younger (Nat.not_lt_zero _)
      · rw [isLogout] at younger
        exact absurd younger (Nat.lt_irrefl _)
  · refine ⟨_, rfl, rfl, fun follows => ?_⟩
    obtain ⟨later, p, earlier, whole, publisher, -, kept⟩ :=
      follows.after_login 1 _ _ rfl rfl rfl
    -- the newest publication is the one of the refresh
    cases later with
    | nil =>
      have head := congrArg List.head? whole
      cases head
      cases publisher
    | cons q later =>
      have head := congrArg List.head? whole
      cases head
      exact absurd (kept _ List.mem_cons_self rfl) (Nat.not_lt_zero _)

end SupportPilot.Web
