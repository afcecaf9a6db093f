import SupportPilot.Domain
import SupportPilot.Lib.Processes
import SupportPilot.Lib.Transition

/-! # The web client's requests and its sign-in state

`api.ts` as a transition system.  The client is single-threaded: a step runs one call
from one `await` (or promise callback) to the next.  Any number of calls are under way;
responses arrive, bodies are parsed and callbacks run in any order.  A refresh is named by
its call, so `refreshPromise` is a call identifier.

`Change` is the inversion lemma of `next`: it lists everything one step can do. -/

namespace SupportPilot.Web

open Lib

abbrev CallId := Nat

abbrev ListenerId := Nat

structure Token where
  accessToken : Text
  deriving DecidableEq

structure AuthResponse where
  token : Token
  deriving DecidableEq

inductive Body where
  | text (content : Text) | formData | stream
  deriving DecidableEq

/-- `RequestInit`; the names of headers are in lower case. -/
structure RequestInit where
  method : Text
  headers : List (Text × Text)
  body : Option Body
  deriving DecidableEq

inductive ErrorDetail where
  | text (detail : Text) | list (messages : List Text)
  deriving DecidableEq

structure ApiErrorBody where
  message : Option Text
  detail : Option ErrorDetail
  deriving DecidableEq

inductive Failure where
  | apiError (message : Text) (status : Nat)
  /-- `fetch` rejects. -/
  | networkError
  /-- `response.json()` rejects. -/
  | syntaxError
  /-- A property of `undefined` is read. -/
  | typeError
  deriving DecidableEq

/-- How a call ends.  Only an `AuthResponse` is ever looked at, so `none` stands for
`undefined` and for any other value. -/
inductive Outcome where
  | resolved (value : Option AuthResponse)
  | rejected (error : Failure)
  deriving DecidableEq

/-- Who started a `request` and goes on after it. -/
inductive Role where
  /-- A method of `api` that returns the result. -/
  | caller
  | refresh | authenticate | logout
  deriving DecidableEq

inductive Phase where
  /-- `fetch` is awaited. -/
  | fetching (accessToken : Option Text) (retryAuth : Bool)
  /-- `refreshSession` is awaited. -/
  | refreshing (refresh : CallId)
  /-- `response.json()` is awaited, of a failed response with its status. -/
  | parsing (failed : Option Nat)
  /-- `request` has ended, and its caller has not run yet. -/
  | returned (outcome : Outcome)
  /-- A refresh whose `then` or `catch` callback has run, and `finally` has not. -/
  | published (outcome : Outcome)
  | settled (outcome : Outcome)
  deriving DecidableEq

structure Call where
  path : Text
  options : RequestInit
  role : Role
  phase : Phase
  deriving DecidableEq

/-- A `fetch`, with the headers it is sent with. -/
structure Fetch where
  call : CallId
  path : Text
  headers : List (Text × Text)
  deriving DecidableEq

/-! ## The parts of a request -/

def refreshPath : Text := "/auth/refresh".toList

def errorMessage (body : ApiErrorBody) : Text :=
  match body.message, body.detail with
  | some (c :: message), _ => c :: message
  | _, some (.text detail) => detail
  | _, some (.list (message :: _)) => message
  | _, _ => "The request could not be completed.".toList

def canReplayBody (body : Option Body) : Bool :=
  body ≠ some .stream

/-- `Headers.set`. -/
def setHeader (headers : List (Text × Text)) (name value : Text) : List (Text × Text) :=
  headers.filter (fun header => header.1 ≠ name) ++ [(name, value)]

/-- A string is truthy unless it is empty. -/
def truthy : Option Text → Bool
  | some (_ :: _) => true
  | _ => false

def contentType (options : RequestInit) : List (Text × Text) :=
  match options.body with
  | some (.text _) =>
    if options.headers.any (·.1 = "content-type".toList) then options.headers
    else setHeader options.headers "content-type".toList "application/json".toList
  | _ => options.headers

def requestHeaders (options : RequestInit) (accessToken : Option Text) : List (Text × Text) :=
  match accessToken with
  | some (c :: token) =>
    setHeader (contentType options) "authorization".toList ("Bearer ".toList ++ c :: token)
  | _ => contentType options

/-- The path starts with `/auth/`. -/
def isAuthPath (path : Text) : Bool :=
  "/auth/".toList.isPrefixOf path

/-- A 401 response on this call asks for a refresh. -/
def retries (call : Call) (accessToken : Option Text) (retryAuth : Bool) : Bool :=
  truthy accessToken && retryAuth && !isAuthPath call.path && canReplayBody call.options.body

/-! ## The state -/

/-- One call of `publishAuth`: by which call, how many calls had been started, and whether
every refresh, login and registration had published or failed. -/
structure Publication where
  publisher : CallId
  role : Role
  auth : Option AuthResponse
  started : Nat
  quiet : Bool
  deriving DecidableEq

/-- `seen` is the value a listener got last, `fetches` and `publications` are histories with
the newest entry first. -/
structure State where
  currentAuth : Option AuthResponse
  refreshPromise : Option CallId
  seen : ListenerId → Option (Option AuthResponse)
  calls : List Call
  fetches : List Fetch
  publications : List Publication

/-- The call has still to return, or its caller to go on. -/
def Phase.running : Phase → Bool
  | .published _ | .settled _ => false
  | _ => true

/-- A refresh, a login or a registration. -/
def Role.signsIn : Role → Bool
  | .refresh | .authenticate => true
  | .caller | .logout => false

/-- A refresh, login or registration that has still to publish its result. -/
def Call.pending (call : Call) : Bool :=
  call.role.signsIn && call.phase.running

namespace State

def init : State := ⟨none, none, fun _ => none, [], [], []⟩

/-- The call goes to its next phase. -/
def goto (s : State) (c : CallId) (call : Call) (phase : Phase) : State :=
  { s with calls := s.calls.set c { call with phase } }

/-- `request` up to the response. -/
def request (s : State) (path : Text) (options : RequestInit) (accessToken : Option Text)
    (retryAuth : Bool) (role : Role) : State :=
  { s with
    calls := s.calls ++ [⟨path, options, role, .fetching accessToken retryAuth⟩]
    fetches := ⟨s.calls.length, path, requestHeaders options accessToken⟩ :: s.fetches }

def publishAuth (s : State) (c : CallId) (call : Call) (auth : Option AuthResponse) : State :=
  { s with
    currentAuth := auth
    seen := fun l => (s.seen l).map fun _ => auth
    publications :=
      ⟨c, call.role, auth, s.calls.length, s.calls.all (!·.pending)⟩ :: s.publications }

def post : RequestInit := ⟨"POST".toList, [], none⟩

/-- `refreshSession`, with the refresh it returns. -/
def refreshSession (s : State) : State × CallId :=
  match s.refreshPromise with
  | some refresh => (s, refresh)
  | none =>
    ({ s.request refreshPath post none false .refresh with refreshPromise := some s.calls.length },
      s.calls.length)

def authenticate (s : State) (path body : Text) : State :=
  s.request path ⟨"POST".toList, [], some (.text body)⟩ none false .authenticate

def logout (s : State) : State :=
  s.request "/auth/logout".toList post none false .logout

/-- `request` after the response, or after `fetch` has rejected (`none`). -/
def respond (s : State) (c : CallId) (call : Call) (accessToken : Option Text) (retryAuth : Bool) :
    Option Nat → State
  | none => s.goto c call (.returned (.rejected .networkError))
  | some status =>
    if status = 401 && retries call accessToken retryAuth then
      let (s', refresh) := s.refreshSession
      s'.goto c call (.refreshing refresh)
    else if ¬ (200 ≤ status ∧ status ≤ 299) then s.goto c call (.parsing (some status))
    else if status = 204 then s.goto c call (.returned (.resolved none))
    else s.goto c call (.parsing none)

/-- `request` after the refresh it awaits. -/
def resume (s : State) (c : CallId) (call : Call) : Outcome → State
  | .resolved (some auth) =>
    { s.goto c call (.fetching (some auth.token.accessToken) false) with
      fetches := ⟨c, call.path, requestHeaders call.options (some auth.token.accessToken)⟩ ::
        s.fetches }
  | .resolved none => s.goto c call (.returned (.rejected .typeError))
  | .rejected error => s.goto c call (.returned (.rejected error))

/-- The callers of `request` after it. -/
def react (s : State) (c : CallId) (call : Call) : Option State :=
  match call.role, call.phase with
  | .caller, .returned outcome => some (s.goto c call (.settled outcome))
  | .refresh, .returned (.resolved auth) =>
    some ((s.publishAuth c call auth).goto c call (.published (.resolved auth)))
  | .refresh, .returned (.rejected error) =>
    some ((s.publishAuth c call none).goto c call (.published (.rejected error)))
  | .refresh, .published outcome =>
    some { s.goto c call (.settled outcome) with refreshPromise := none }
  | .authenticate, .returned (.resolved auth) =>
    some ((s.publishAuth c call auth).goto c call (.settled (.resolved auth)))
  | .authenticate, .returned (.rejected error) => some (s.goto c call (.settled (.rejected error)))
  | .logout, .returned outcome => some ((s.publishAuth c call none).goto c call (.settled outcome))
  | _, _ => none

end State

inductive Event where
  | subscribeAuth (listener : ListenerId)
  | unsubscribe (listener : ListenerId)
  /-- A method of `api` that is about neither sessions nor refreshes; an omitted access token is
  `none`. -/
  | request (path : Text) (options : RequestInit) (accessToken : Option (Option Text))
      (retryAuth : Bool)
  | login (body : Text)
  | register (body : Text)
  | refresh
  | logout
  /-- The response of the call arrives, with its status, or `fetch` rejects. -/
  | respond (c : CallId) (status : Option Nat)
  /-- The body of a successful response is there, or cannot be parsed. -/
  | json (c : CallId) (value : Option (Option AuthResponse))
  | errorJson (c : CallId) (body : Option ApiErrorBody)
  /-- The refresh that the call awaits has settled. -/
  | resume (c : CallId)
  /-- The next callback of the caller runs. -/
  | react (c : CallId)
  deriving DecidableEq

def next (s : State) : Event → Option State
  | .subscribeAuth l => some { s with seen := Function.update s.seen l (some s.currentAuth) }
  | .unsubscribe l => some { s with seen := Function.update s.seen l none }
  | .request path options accessToken retryAuth =>
    -- `request` is private to the module, and only `refreshSession` asks for this path
    if path = refreshPath then none
    else
      let token := accessToken.getD (s.currentAuth.map (·.token.accessToken))
      some (s.request path options token retryAuth .caller)
  | .login body => some (s.authenticate "/auth/login".toList body)
  | .register body => some (s.authenticate "/auth/register".toList body)
  | .refresh => some s.refreshSession.1
  | .logout => some s.logout
  | .respond c status =>
    s.calls[c]?.bind fun call =>
      match call.phase with
      | .fetching accessToken retryAuth => some (s.respond c call accessToken retryAuth status)
      | _ => none
  | .json c value =>
    s.calls[c]?.bind fun call =>
      match call.phase, value with
      | .parsing none, some value =>
        -- a successful refresh, login or registration answers with an `AuthResponse`
        if call.pending && value.isNone then none
        else some (s.goto c call (.returned (.resolved value)))
      | .parsing none, none => some (s.goto c call (.returned (.rejected .syntaxError)))
      | _, _ => none
  | .errorJson c body =>
    s.calls[c]?.bind fun call =>
      match call.phase with
      | .parsing (some status) =>
        let message := errorMessage (body.getD ⟨none, none⟩)
        some (s.goto c call (.returned (.rejected (.apiError message status))))
      | _ => none
  | .resume c =>
    s.calls[c]?.bind fun call =>
      match call.phase with
      | .refreshing refresh =>
        match s.calls[refresh]?.map Call.phase with
        | some (.settled outcome) => some (s.resume c call outcome)
        | _ => none
      | _ => none
  | .react c => s.calls[c]?.bind (s.react c)

/-! ## What one step can do -/

/-- The caller publishes `auth` at the end of its request and goes to the phase. -/
inductive Publishes : Role → Outcome → Option AuthResponse → Phase → Prop
  | refreshed {auth} : Publishes .refresh (.resolved auth) auth (.published (.resolved auth))
  | refused {error} : Publishes .refresh (.rejected error) none (.published (.rejected error))
  | signedIn {auth} : Publishes .authenticate (.resolved auth) auth (.settled (.resolved auth))
  | signedOut {outcome} : Publishes .logout outcome none (.settled outcome)

/-- The phases that a call enters with nothing sent and nothing published. -/
inductive Silent : Role → Phase → Prop
  | parsing {role failed} : Silent role (.parsing failed)
  | returned {role outcome} : Silent role (.returned outcome)
  | caller {outcome} : Silent .caller (.settled outcome)
  | refused {error} : Silent .authenticate (.settled (.rejected error))

inductive Change (s : State) : Event → State → Prop
  | listen {event : Event} {seen : ListenerId → Option (Option AuthResponse)}
      (delivered : ∀ l auth, seen l = some auth → s.seen l = some auth ∨ auth = s.currentAuth) :
      Change s event { s with seen }
  | request {event : Event} {path : Text} {options : RequestInit} {accessToken : Option Text}
      {retryAuth : Bool} {role : Role} (other : path ≠ refreshPath) (own : role ≠ .refresh) :
      Change s event (s.request path options accessToken retryAuth role)
  | refresh {event : Event} : Change s event s.refreshSession.1
  | move {event : Event} {c : CallId} {call : Call} {phase : Phase} (found : s.calls[c]? = some call)
      (running : call.phase.running = true) (silent : Silent call.role phase) :
      Change s event (s.goto c call phase)
  | wait {event : Event} {c : CallId} {call : Call} {accessToken : Option Text} {retryAuth : Bool}
      (found : s.calls[c]? = some call) (fetching : call.phase = .fetching accessToken retryAuth)
      (retries : retries call accessToken retryAuth = true) :
      Change s event (s.refreshSession.1.goto c call (.refreshing s.refreshSession.2))
  | retry {event : Event} {c refresh : CallId} {call other : Call} {auth : AuthResponse}
      (found : s.calls[c]? = some call) (waiting : call.phase = .refreshing refresh)
      (known : s.calls[refresh]? = some other)
      (settled : other.phase = .settled (.resolved (some auth))) :
      Change s event (s.resume c call (.resolved (some auth)))
  | publish {c : CallId} {call : Call} {outcome : Outcome} {auth : Option AuthResponse}
      {phase : Phase} (found : s.calls[c]? = some call) (returned : call.phase = .returned outcome)
      (publishes : Publishes call.role outcome auth phase) :
      Change s (.react c) ((s.publishAuth c call auth).goto c call phase)
  | clear {event : Event} {c : CallId} {call : Call} {outcome : Outcome}
      (found : s.calls[c]? = some call) (refresh : call.role = .refresh)
      (published : call.phase = .published outcome) :
      Change s event { s.goto c call (.settled outcome) with refreshPromise := none }

section Inversion

variable {s t : State} {c : CallId} {call : Call}

/-- A refresh that starts leaves the other calls as they are. -/
theorem getElem?_refreshSession (found : s.calls[c]? = some call) :
    s.refreshSession.1.calls[c]? = some call := by
  unfold State.refreshSession
  split
  · exact found
  · obtain ⟨bound, -⟩ := List.getElem?_eq_some_iff.mp found
    exact (List.getElem?_append_left bound).trans found

theorem respond_cases {event : Event} {accessToken : Option Text} {retryAuth : Bool}
    (found : s.calls[c]? = some call) (fetching : call.phase = .fetching accessToken retryAuth)
    (status : Option Nat) : Change s event (s.respond c call accessToken retryAuth status) := by
  have running : call.phase.running = true := by rw [fetching]; rfl
  cases status with
  | none => exact .move found running .returned
  | some status =>
    simp only [State.respond]
    split
    next asks =>
      rw [Bool.and_eq_true] at asks
      exact .wait found fetching asks.2
    next =>
      split
      · exact .move found running .parsing
      · split
        · exact .move found running .returned
        · exact .move found running .parsing

theorem resume_cases {event : Event} {refresh : CallId} {outcome : Outcome}
    (found : s.calls[c]? = some call) (waiting : call.phase = .refreshing refresh)
    (settled : s.calls[refresh]?.map Call.phase = some (.settled outcome)) :
    Change s event (s.resume c call outcome) := by
  have running : call.phase.running = true := by rw [waiting]; rfl
  obtain ⟨other, known, settled⟩ := Option.map_eq_some_iff.mp settled
  cases outcome with
  | rejected error => exact .move found running .returned
  | resolved value =>
    cases value with
    | none => exact .move found running .returned
    | some auth => exact .retry found waiting known settled

theorem react_cases (found : s.calls[c]? = some call) (reacts : s.react c call = some t) :
    Change s (.react c) t := by
  have running : ∀ outcome, call.phase = .returned outcome → call.phase.running = true := by
    intro outcome returned
    rw [returned]
    rfl
  unfold State.react at reacts
  -- one branch for each caller of a request that has returned
  split at reacts
  next outcome isCaller returned =>
    cases reacts
    exact .move found (running _ returned) (isCaller ▸ .caller)
  next auth isRefresh returned =>
    cases reacts
    exact .publish found returned (isRefresh ▸ .refreshed)
  next error isRefresh returned =>
    cases reacts
    exact .publish found returned (isRefresh ▸ .refused)
  next outcome isRefresh published =>
    cases reacts
    exact .clear found isRefresh published
  next auth isLogin returned =>
    cases reacts
    exact .publish found returned (isLogin ▸ .signedIn)
  next error isLogin returned =>
    cases reacts
    exact .move found (running _ returned) (isLogin ▸ .refused)
  next outcome isLogout returned =>
    cases reacts
    exact .publish found returned (isLogout ▸ .signedOut)
  next => cases reacts

theorem next_cases {event : Event} (taken : next s event = some t) : Change s event t := by
  cases event with
  | subscribeAuth l =>
    cases taken
    refine .listen fun l' auth got => ?_
    rw [Function.update_apply] at got
    split at got
    · cases got
      exact .inr rfl
    · exact .inl got
  | unsubscribe l =>
    cases taken
    refine .listen fun l' auth got => ?_
    rw [Function.update_apply] at got
    split at got
    · cases got
    · exact .inl got
  | request path options accessToken retryAuth =>
    simp only [next] at taken
    split at taken
    · cases taken
    next other =>
      cases taken
      exact .request other (by simp)
  | login body =>
    cases taken
    exact .request (by decide) (by simp)
  | register body =>
    cases taken
    exact .request (by decide) (by simp)
  | refresh =>
    cases taken
    exact .refresh
  | logout =>
    cases taken
    exact .request (by decide) (by simp)
  | respond c status =>
    obtain ⟨call, found, taken⟩ := Option.bind_eq_some_iff.mp taken
    split at taken
    next accessToken retryAuth fetching =>
      cases taken
      exact respond_cases found fetching status
    next => cases taken
  | json c value =>
    obtain ⟨call, found, taken⟩ := Option.bind_eq_some_iff.mp taken
    split at taken
    next parsing _ =>
      split at taken
      · cases taken
      · cases taken
        exact .move found (by rw [parsing]; rfl) .returned
    next parsing _ =>
      cases taken
      exact .move found (by rw [parsing]; rfl) .returned
    next => cases taken
  | errorJson c body =>
    obtain ⟨call, found, taken⟩ := Option.bind_eq_some_iff.mp taken
    split at taken
    next status parsing =>
      cases taken
      exact .move found (by rw [parsing]; rfl) .returned
    next => cases taken
  | resume c =>
    obtain ⟨call, found, taken⟩ := Option.bind_eq_some_iff.mp taken
    split at taken
    next refresh waiting =>
      split at taken
      next outcome settled =>
        cases taken
        exact resume_cases found waiting settled
      next => cases taken
    next => cases taken
  | react c =>
    obtain ⟨call, found, taken⟩ := Option.bind_eq_some_iff.mp taken
    exact react_cases found taken

end Inversion

end SupportPilot.Web
