import SupportPilot.Web.Api

/-! # Single-flight refreshes

`refreshPromise` is the one refresh that has not settled (`PromiseOk`), so every call that is
told to refresh waits for it.  A call sends at most two fetches, and the second carries the token
of a refresh that had settled by then (`Fetched`). -/

namespace SupportPilot.Web

open Lib

/-- A refresh from its `fetch` to its `finally` callback. -/
def Outstanding (s : State) (refresh : CallId) : Prop :=
  ∃ call, s.calls[refresh]? = some call ∧ call.path = refreshPath ∧
    ∀ outcome, call.phase ≠ .settled outcome

/-- The fetches of the call, the newest first. -/
def sentBy (c : CallId) (fetches : List Fetch) : List Fetch :=
  fetches.filter (·.call = c)

/-- At most two fetches to the path of the call, the second with the token of a successful
refresh. -/
inductive Fetched (calls : List Call) (c : CallId) (call : Call) : List Fetch → Prop
  | once (token : Option Text) :
      Fetched calls c call [⟨c, call.path, requestHeaders call.options token⟩]
  | twice (token : Option Text) (refresh : CallId) (other : Call) (auth : AuthResponse)
      (known : calls[refresh]? = some other) (isRefresh : other.path = refreshPath)
      (settled : other.phase = .settled (.resolved (some auth))) :
      Fetched calls c call
        [⟨c, call.path, requestHeaders call.options (some auth.token.accessToken)⟩,
          ⟨c, call.path, requestHeaders call.options token⟩]

/-- The call may still be told to refresh, or has been. -/
def Phase.firstTry : Phase → Bool
  | .fetching _ true | .refreshing _ => true
  | _ => false

structure CallOk (calls : List Call) (fetches : List Fetch) (c : CallId) (call : Call) : Prop where
  path : call.path = refreshPath ↔ call.role = .refresh
  fetched : Fetched calls c call (sentBy c fetches)
  first : call.phase.firstTry = true →
    ∃ token, sentBy c fetches = [⟨c, call.path, requestHeaders call.options token⟩]
  awaited : ∀ refresh, call.phase = .refreshing refresh →
    ∃ other, calls[refresh]? = some other ∧ other.role = .refresh

structure FetchInv (calls : List Call) (fetches : List Fetch) : Prop where
  each : ∀ c call, calls[c]? = some call → CallOk calls fetches c call
  known : ∀ fetch ∈ fetches, fetch.call < calls.length

/-- A refresh that has not settled, among the calls. -/
def Refreshing (calls : List Call) (refresh : CallId) : Prop :=
  ∃ call, calls[refresh]? = some call ∧ call.role = .refresh ∧
    ∀ outcome, call.phase ≠ .settled outcome

/-- The promise is the one refresh that has not settled. -/
structure FlightInv (s : State) : Prop where
  fetches : FetchInv s.calls s.fetches
  promise : ∀ refresh, s.refreshPromise = some refresh ↔ Refreshing s.calls refresh

/-- The calls stay what they are, and settled ones keep their outcome. -/
def Evolves (calls calls' : List Call) : Prop :=
  ∀ (c : CallId) (call : Call), calls[c]? = some call → ∃ phase,
    calls'[c]? = some { call with phase } ∧
    ∀ outcome, call.phase = .settled outcome → phase = call.phase

section Calls

variable {calls calls' : List Call} {fetches fetches' : List Fetch} {c : CallId} {call : Call}

theorem Evolves.refl (calls : List Call) : Evolves calls calls :=
  fun _ call found => ⟨call.phase, found, fun _ _ => rfl⟩

theorem evolves_set (phase : Phase) (found : calls[c]? = some call)
    (running : ∀ outcome, call.phase ≠ .settled outcome) :
    Evolves calls (calls.set c { call with phase }) := by
  intro c' call' found'
  by_cases same : c' = c
  · subst same
    cases found.symm.trans found'
    obtain ⟨bound, -⟩ := List.getElem?_eq_some_iff.mp found
    refine ⟨phase, by simp [bound], fun outcome settled => ?_⟩
    exact absurd settled (running outcome)
  · refine ⟨call'.phase, ?_, fun _ _ => rfl⟩
    rw [List.getElem?_set_ne (Ne.symm same), found']

theorem evolves_append (calls : List Call) (new : Call) : Evolves calls (calls ++ [new]) := by
  intro c' call' found'
  obtain ⟨bound, -⟩ := List.getElem?_eq_some_iff.mp found'
  refine ⟨call'.phase, ?_, fun _ _ => rfl⟩
  rw [List.getElem?_append_left bound, found']

theorem Fetched.evolves {sent : List Fetch} (phase : Phase) (evolves : Evolves calls calls')
    (fetched : Fetched calls c call sent) : Fetched calls' c { call with phase } sent := by
  cases fetched with
  | once token => exact .once token
  | twice token refresh other auth known isRefresh settled =>
    obtain ⟨later, known', kept⟩ := evolves refresh other known
    exact .twice token refresh { other with phase := later } auth known' isRefresh
      ((kept _ settled).trans settled)

/-- A call that does not move. -/
theorem CallOk.evolves (ok : CallOk calls fetches c call) (evolves : Evolves calls calls')
    (same : sentBy c fetches' = sentBy c fetches) : CallOk calls' fetches' c call := by
  refine ⟨ok.path, ?_, ?_, ?_⟩
  · rw [same]
    exact ok.fetched.evolves call.phase evolves
  · rw [same]
    exact ok.first
  · intro refresh waiting
    obtain ⟨other, known, isRefresh⟩ := ok.awaited refresh waiting
    obtain ⟨phase, known', -⟩ := evolves refresh other known
    exact ⟨_, known', isRefresh⟩

/-! ## Starting a call -/

theorem FetchInv.request (inv : FetchInv calls fetches) (new : Call) {token : Option Text}
    (isRefresh : new.path = refreshPath ↔ new.role = .refresh)
    (notWaiting : ∀ refresh, new.phase ≠ .refreshing refresh) :
    FetchInv (calls ++ [new])
      (⟨calls.length, new.path, requestHeaders new.options token⟩ :: fetches) := by
  -- every fetch is of a call before
  have unsent : sentBy calls.length fetches = [] := by
    refine List.filter_eq_nil_iff.mpr fun fetch member => ?_
    have bound := inv.known fetch member
    simp only [decide_eq_true_eq]
    exact Nat.ne_of_lt bound
  constructor
  · intro c call found
    obtain old | ⟨rfl, rfl⟩ := getElem?_of_concat found
    · obtain ⟨bound, -⟩ := List.getElem?_eq_some_iff.mp old
      refine (inv.each c call old).evolves (evolves_append calls new) ?_
      exact List.filter_cons_of_neg (by simpa using Nat.ne_of_gt bound)
    · -- nothing was sent for the new call before
      have sent : sentBy calls.length
          (⟨calls.length, call.path, requestHeaders call.options token⟩ :: fetches) =
          [⟨calls.length, call.path, requestHeaders call.options token⟩] := by
        unfold sentBy at unsent ⊢
        rw [List.filter_cons_of_pos (by simp), unsent]
      refine ⟨isRefresh, ?_, fun _ => ⟨token, sent⟩, ?_⟩
      · rw [sent]
        exact .once token
      · intro refresh waiting
        exact absurd waiting (notWaiting refresh)
  · intro fetch member
    rw [List.length_append, List.length_singleton]
    obtain rfl | old := List.mem_cons.mp member
    · exact Nat.lt_succ_self _
    · exact Nat.lt_succ_of_lt (inv.known fetch old)

theorem refreshing_append {new : Call} {refresh : CallId} :
    Refreshing (calls ++ [new]) refresh ↔ Refreshing calls refresh ∨
      (refresh = calls.length ∧ new.role = .refresh ∧ ∀ outcome, new.phase ≠ .settled outcome) := by
  constructor
  · intro ⟨call, found, isRefresh, unsettled⟩
    obtain old | ⟨rfl, rfl⟩ := getElem?_of_concat found
    · exact .inl ⟨call, old, isRefresh, unsettled⟩
    · exact .inr ⟨rfl, isRefresh, unsettled⟩
  · intro either
    obtain ⟨call, found, rest⟩ | ⟨rfl, rest⟩ := either
    · obtain ⟨bound, -⟩ := List.getElem?_eq_some_iff.mp found
      exact ⟨call, (List.getElem?_append_left bound).trans found, rest⟩
    · exact ⟨new, List.getElem?_concat_length, rest⟩

/-! ## Moving a call -/

theorem FetchInv.set (inv : FetchInv calls fetches) {phase : Phase} (found : calls[c]? = some call)
    (running : ∀ outcome, call.phase ≠ .settled outcome)
    (first : phase.firstTry = true → call.phase.firstTry = true)
    (awaited : ∀ refresh, phase = .refreshing refresh →
      ∃ other, calls[refresh]? = some other ∧ other.role = .refresh) :
    FetchInv (calls.set c { call with phase }) fetches := by
  have evolves := evolves_set phase found running
  constructor
  · intro c' call' found'
    obtain ⟨rfl, rfl⟩ | ⟨differs, before⟩ := getElem?_of_set found'
    · have ok := inv.each c' call found
      refine ⟨ok.path, ok.fetched.evolves phase evolves, fun again => ok.first (first again), ?_⟩
      intro refresh waiting
      obtain ⟨other, known, isRefresh⟩ := awaited refresh waiting
      obtain ⟨later, known', -⟩ := evolves refresh other known
      exact ⟨_, known', isRefresh⟩
    · exact (inv.each c' call' before).evolves evolves rfl
  · rw [List.length_set]
    exact inv.known

/-- The second fetch of a call. -/
theorem FetchInv.retry (inv : FetchInv calls fetches) {refresh : CallId} {other : Call}
    {auth : AuthResponse} (found : calls[c]? = some call)
    (waiting : call.phase = .refreshing refresh) (known : calls[refresh]? = some other)
    (settled : other.phase = .settled (.resolved (some auth))) :
    FetchInv (calls.set c { call with phase := .fetching (some auth.token.accessToken) false })
      (⟨c, call.path, requestHeaders call.options (some auth.token.accessToken)⟩ :: fetches) := by
  have running : ∀ outcome, call.phase ≠ .settled outcome := by simp [waiting]
  have evolves := evolves_set (.fetching (some auth.token.accessToken) false) found running
  constructor
  · intro c' call' found'
    obtain ⟨rfl, rfl⟩ | ⟨differs, before⟩ := getElem?_of_set found'
    · have ok := inv.each c' call found
      -- the call has sent one fetch, so this is its second
      obtain ⟨token, sent⟩ := ok.first (by rw [waiting]; rfl)
      obtain ⟨other', known', isRefresh⟩ := ok.awaited refresh waiting
      cases known.symm.trans known'
      have path := (inv.each refresh other known).path.mpr isRefresh
      have again : sentBy c' (⟨c', call.path,
          requestHeaders call.options (some auth.token.accessToken)⟩ :: fetches) =
          [⟨c', call.path, requestHeaders call.options (some auth.token.accessToken)⟩,
            ⟨c', call.path, requestHeaders call.options token⟩] := by
        unfold sentBy at sent ⊢
        rw [List.filter_cons_of_pos (by simp), sent]
      refine ⟨ok.path, ?_, by simp [Phase.firstTry], by simp⟩
      rw [again]
      have twice : Fetched calls c' call _ := .twice token refresh other auth known path settled
      exact twice.evolves _ evolves
    · refine (inv.each c' call' before).evolves evolves ?_
      exact List.filter_cons_of_neg (by simpa using Ne.symm differs)
  · intro fetch member
    rw [List.length_set]
    obtain rfl | old := List.mem_cons.mp member
    · exact (List.getElem?_eq_some_iff.mp found).1
    · exact inv.known fetch old

theorem refreshing_set {phase : Phase} {refresh : CallId} (found : calls[c]? = some call)
    (same : call.role = .refresh → ((∀ outcome, phase ≠ .settled outcome) ↔
      ∀ outcome, call.phase ≠ .settled outcome)) :
    Refreshing (calls.set c { call with phase }) refresh ↔ Refreshing calls refresh := by
  by_cases moved : refresh = c
  · subst moved
    obtain ⟨bound, -⟩ := List.getElem?_eq_some_iff.mp found
    constructor
    · intro ⟨call', found', isRefresh, unsettled⟩
      simp only [List.getElem?_set_self bound, Option.some.injEq] at found'
      subst found'
      exact ⟨call, found, isRefresh, (same isRefresh).mp unsettled⟩
    · intro ⟨call', found', isRefresh, unsettled⟩
      cases found.symm.trans found'
      exact ⟨_, List.getElem?_set_self bound, isRefresh, (same isRefresh).mpr unsettled⟩
  · unfold Refreshing
    rw [List.getElem?_set_ne (Ne.symm moved)]

end Calls

theorem Silent.firstTry {role : Role} {phase : Phase} (silent : Silent role phase) :
    phase.firstTry = false := by
  cases silent <;> rfl

theorem Silent.unsettled {role : Role} {phase : Phase} (silent : Silent role phase)
    (isRefresh : role = .refresh) (outcome : Outcome) : phase ≠ .settled outcome := by
  cases silent with
  | parsing | returned => simp
  | caller | refused => cases isRefresh

theorem Publishes.firstTry {role : Role} {outcome : Outcome} {auth : Option AuthResponse}
    {phase : Phase} (publishes : Publishes role outcome auth phase) : phase.firstTry = false := by
  cases publishes <;> rfl

theorem Publishes.unsettled {role : Role} {outcome : Outcome} {auth : Option AuthResponse}
    {phase : Phase} (publishes : Publishes role outcome auth phase) (isRefresh : role = .refresh)
    (outcome' : Outcome) : phase ≠ .settled outcome' := by
  cases publishes with
  | refreshed | refused => simp
  | signedIn | signedOut => cases isRefresh

section Steps

variable {s t : State} {c : CallId} {call : Call}

theorem flightInv_init : FlightInv .init := by
  refine ⟨⟨?_, ?_⟩, ?_⟩
  · intro c call found
    simp [State.init] at found
  · intro fetch member
    cases member
  · intro refresh
    simp [State.init, Refreshing]

/-- `refreshSession` returns the refresh that has not settled, and starts one only if there is
none. -/
theorem FlightInv.refreshSession (inv : FlightInv s) : FlightInv s.refreshSession.1 ∧
    s.refreshSession.1.refreshPromise = some s.refreshSession.2 := by
  unfold State.refreshSession
  split
  next refresh promised => exact ⟨inv, promised⟩
  next free =>
    refine ⟨⟨?_, ?_⟩, rfl⟩
    · exact inv.fetches.request ⟨refreshPath, State.post, .refresh, .fetching none false⟩
        (by simp) (by simp)
    · intro refresh
      have idle : ¬ Refreshing s.calls refresh := by
        rw [← inv.promise refresh, free]
        simp
      dsimp only [State.request]
      rw [refreshing_append]
      simp [idle, eq_comm]

theorem FlightInv.goto (inv : FlightInv s) {phase : Phase} (found : s.calls[c]? = some call)
    (running : ∀ outcome, call.phase ≠ .settled outcome)
    (refreshes : call.role = .refresh → ∀ outcome, phase ≠ .settled outcome)
    (first : phase.firstTry = true → call.phase.firstTry = true)
    (awaited : ∀ refresh, phase = .refreshing refresh → s.refreshPromise = some refresh) :
    FlightInv (s.goto c call phase) := by
  constructor
  · refine inv.fetches.set found running first fun refresh waiting => ?_
    obtain ⟨other, known, isRefresh, -⟩ := (inv.promise refresh).mp (awaited refresh waiting)
    exact ⟨other, known, isRefresh⟩
  · intro refresh
    refine (inv.promise refresh).trans (refreshing_set found fun isRefresh => ?_).symm
    exact ⟨fun _ => running, fun _ => refreshes isRefresh⟩

theorem FlightInv.change {event : Event} (inv : FlightInv s) (change : Change s event t) :
    FlightInv t := by
  cases change with
  | listen => exact ⟨inv.fetches, inv.promise⟩
  | @request event path options accessToken retryAuth role other own =>
    refine ⟨?_, fun refresh => ?_⟩
    · exact inv.fetches.request ⟨path, options, role, .fetching accessToken retryAuth⟩
        (by simp [other, own]) (by simp)
    · refine (inv.promise refresh).trans ?_
      dsimp only [State.request]
      rw [refreshing_append]
      simp [own]
  | refresh => exact inv.refreshSession.1
  | move found running silent =>
    apply inv.goto found
    · intro outcome settled
      rw [settled] at running
      cases running
    · exact silent.unsettled
    · simp [silent.firstTry]
    · intro refresh waiting
      have first := silent.firstTry
      rw [waiting] at first
      cases first
  | @wait event c call accessToken retryAuth found fetching retries =>
    obtain ⟨inv', promised⟩ := inv.refreshSession
    apply inv'.goto (getElem?_refreshSession found)
    · simp [fetching]
    · simp
    · -- only a first try asks for a refresh
      intro
      simp only [Web.retries, Bool.and_eq_true] at retries
      rw [fetching, retries.1.1.2]
      rfl
    · intro refresh waiting
      cases waiting
      exact promised
  | @retry event c refresh call other auth found waiting known settled =>
    refine ⟨inv.fetches.retry found waiting known settled, fun refresh => ?_⟩
    refine (inv.promise refresh).trans (refreshing_set found fun _ => ?_).symm
    simp [waiting]
  | @publish c call outcome auth phase found returned publishes =>
    have inv' : FlightInv (s.publishAuth c call auth) := ⟨inv.fetches, inv.promise⟩
    apply inv'.goto found
    · simp [returned]
    · exact publishes.unsettled
    · simp [publishes.firstTry]
    · intro refresh waiting
      have first := publishes.firstTry
      rw [waiting] at first
      cases first
  | @clear event c call outcome found isRefresh published =>
    have running : ∀ outcome, call.phase ≠ .settled outcome := by simp [published]
    refine ⟨inv.fetches.set found running (by simp [Phase.firstTry]) (by simp), fun refresh => ?_⟩
    -- the refresh that settles is the only one that had not
    have promised := (inv.promise c).mpr ⟨call, found, isRefresh, running⟩
    simp only [reduceCtorEq, false_iff]
    intro ⟨other, known, otherIs, unsettled⟩
    obtain ⟨-, rfl⟩ | ⟨differs, before⟩ := getElem?_of_set known
    · exact unsettled outcome rfl
    · have promised' := (inv.promise refresh).mpr ⟨other, before, otherIs, unsettled⟩
      rw [promised] at promised'
      exact differs (Option.some.inj promised').symm

theorem flightInv_of_reachable (reached : Reachable (stepOf next) .init s) : FlightInv s :=
  reached.invariant flightInv_init fun _ _ _ inv taken => inv.change (next_cases taken)

/-! ## What follows -/

/-- Refreshes are single-flight, and retries end. -/
structure SingleFlight (s : State) : Prop where
  /-- No two refreshes are outstanding. -/
  one : ∀ f g, Outstanding s f → Outstanding s g → f = g
  /-- A retryable call that gets a 401 waits for the outstanding refresh, and starts none. -/
  waits : ∀ (c : CallId) (call : Call) (accessToken : Option Text) (refresh : CallId) (t : State),
    s.calls[c]? = some call → call.phase = .fetching accessToken true →
    retries call accessToken true = true → Outstanding s refresh →
    next s (.respond c (some 401)) = some t →
    t.calls = s.calls.set c { call with phase := .refreshing refresh } ∧ t.fetches = s.fetches
  /-- A call sends at most two fetches, the second after a refresh and with its token. -/
  fetched : ∀ c call, s.calls[c]? = some call → Fetched s.calls c call (sentBy c s.fetches)
  /-- A 401 on a path of `/auth/`, or for a body that is a stream, starts no refresh and waits
  for none. -/
  never : ∀ (c : CallId) (call : Call) (t : State), s.calls[c]? = some call →
    (isAuthPath call.path = true ∨ call.options.body = some .stream) →
    next s (.respond c (some 401)) = some t →
    t.calls = s.calls.set c { call with phase := .parsing (some 401) } ∧
      t.refreshPromise = s.refreshPromise ∧ t.fetches = s.fetches

theorem FlightInv.promised (inv : FlightInv s) {refresh : CallId}
    (outstanding : Outstanding s refresh) : s.refreshPromise = some refresh := by
  obtain ⟨call, found, path, unsettled⟩ := outstanding
  have isRefresh := (inv.fetches.each refresh call found).path.mp path
  exact (inv.promise refresh).mpr ⟨call, found, isRefresh, unsettled⟩

/-- In every reachable state, whatever calls are made and in whatever order their responses
arrive, refreshes are single-flight. -/
theorem singleFlight_of_reachable (reached : Reachable (stepOf next) .init s) :
    SingleFlight s := by
  have inv := flightInv_of_reachable reached
  refine ⟨?_, ?_, ?_, ?_⟩
  · intro f g first second
    have promised := inv.promised first
    rw [inv.promised second] at promised
    exact (Option.some.inj promised).symm
  · intro c call accessToken refresh t found fetching asks outstanding taken
    have promised := inv.promised outstanding
    simp only [next, found, Option.bind_some, fetching, State.respond, asks, Bool.and_true,
      decide_true, if_true, Option.some.injEq, State.refreshSession, promised] at taken
    rw [← taken]
    exact ⟨rfl, rfl⟩
  · intro c call found
    exact (inv.fetches.each c call found).fetched
  · intro c call t found barred taken
    simp only [next, found, Option.bind_some] at taken
    split at taken
    next accessToken retryAuth fetching =>
      have refuses : retries call accessToken retryAuth = false := by
        obtain auth | stream := barred
        · simp [retries, auth]
        · simp [retries, stream, canReplayBody]
      simp only [State.respond, refuses, Bool.and_false, Bool.false_eq_true, if_false,
        Option.some.injEq] at taken
      rw [← taken]
      exact ⟨rfl, rfl, rfl⟩
    next => cases taken

end Steps

/-! ## Two calls that share a refresh -/

def expiredAuth : AuthResponse := ⟨⟨"expired-token".toList⟩⟩

def freshAuth : AuthResponse := ⟨⟨"fresh-token".toList⟩⟩

def get : RequestInit := ⟨"GET".toList, [], none⟩

/-- Two calls with the expired token get a 401 and are sent again with the token of one
refresh. -/
def sharedRefresh : List Event :=
  [.login [], .respond 0 (some 200), .json 0 (some (some expiredAuth)), .react 0,
    .request "/workspaces".toList get (some (some expiredAuth.token.accessToken)) true,
    .request "/workspaces/2/members".toList get (some (some expiredAuth.token.accessToken)) true,
    .respond 1 (some 401), .respond 2 (some 401), .respond 3 (some 200),
    .json 3 (some (some freshAuth)), .react 3, .react 3, .resume 1, .resume 2]

theorem singleFlight_sharedRefresh : ∃ s, exec next .init sharedRefresh = some s ∧
    SingleFlight s ∧ s.fetches.map Fetch.path = ["/workspaces/2/members".toList,
      "/workspaces".toList, refreshPath, "/workspaces/2/members".toList, "/workspaces".toList,
      "/auth/login".toList] := by
  obtain ⟨s, executed, paths⟩ : ∃ s, exec next .init sharedRefresh = some s ∧
      s.fetches.map Fetch.path = ["/workspaces/2/members".toList, "/workspaces".toList,
        refreshPath, "/workspaces/2/members".toList, "/workspaces".toList,
        "/auth/login".toList] := ⟨_, rfl, rfl⟩
  exact ⟨s, executed, singleFlight_of_reachable ⟨_, Run.of_exec executed⟩, paths⟩

end SupportPilot.Web
