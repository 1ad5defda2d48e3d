import MyPerson.Lib.Run
import MyPerson.MaxSession.Store

/-!
# `MaxSession.Supervisor` — one MAX account as a state machine

`app/max/session.py`: the loop `_supervise` cut at its awaits, the commands of the REST layer, and
what the messenger and background tasks do in between. An action is one stretch of code between two
awaits, with the outcome of the await it follows; `step cfg s a = none` means that `a` cannot happen
in `s`. Database calls succeed. The commands (`start`, `stop`, a login, an import, a logout) are one
at a time.

PyMax itself is not modelled: `connect()` comes back with a profile or raises anything, a connection
closes at any time, the client uses its store at any time, frames of a connection that was opened may
still be handled after it is gone.

## Contents
- the exceptions, the UI states, the loop's local variables (`Supervisor`) and the session (`State`);
- the pieces of `_supervise` under their own names, then `step`;
- `State.Initial`: a session object as `MaxPool` makes it.
-/

namespace MyPerson.MaxSession

open Lib

/-- `time.monotonic()` in milliseconds. -/
abbrev Time := Nat

def seconds (n : Nat) : Time := n * 1000

def backoffStart : Time := seconds 5
def backoffMax : Time := seconds 600
def stableReset : Time := seconds 600

/-! ## Data -/

inductive UiState
  | stopped | connecting | awaitingQr | awaitingCode | awaitingPassword
  | authorized | reconnecting | unauthorized | banned | error
deriving DecidableEq, Repr

/-- What the `except` clauses of `_supervise` tell apart, in their order. -/
inductive ExcClass
  /-- `MaxQrExpired`. -/
  | qrExpired
  /-- `MaxAuthError` and its other subclasses. -/
  | maxAuth
  /-- PyMax's `PasswordAttemptsExceededError`. -/
  | passwordAttempts
  | identityMismatch
  | api (error message : Option String)
  /-- `_NETWORK_ERRORS`. -/
  | network
  | other
deriving DecidableEq, Repr

structure Raised where
  cls  : ExcClass
  /-- `str(exc)`. -/
  text : String
  /-- `type(exc).__name__`. -/
  name : String
deriving DecidableEq, Repr

/-- `str(exc) or type(exc).__name__`. -/
def Raised.describe (e : Raised) : String := if e.text = "" then e.name else e.text

def clientDidNotStart : Raised := ⟨.network, "client did not start", "ConnectionError"⟩
def connectionClosed : Raised := ⟨.network, "connection closed", "ConnectionError"⟩
def identityMismatch (text : String) : Raised := ⟨.identityMismatch, text, "IdentityMismatch"⟩

inductive LoginMethod
  | qr | sms
deriving DecidableEq, Repr

inductive LoginStep
  | awaitingQr | awaitingCode | awaitingPassword
deriving DecidableEq, Repr

def LoginStep.ui : LoginStep → UiState
  | .awaitingQr => .awaitingQr
  | .awaitingCode => .awaitingCode
  | .awaitingPassword => .awaitingPassword

/-- `LoginController`. -/
structure Login where
  method : LoginMethod
  step   : Option LoginStep
deriving DecidableEq, Repr

/-- The account's row of `accounts`. -/
structure Account where
  externalUserId : Option Nat
  platformUserId : Option Nat
deriving DecidableEq, Repr

structure Config where
  accountId    : Nat
  aliasName    : String
  platform     : String
  proxyUrl     : Bool
  requireProxy : Bool
  newMode      : Bool
  /-- Another account of the platform has this `external_user_id`. -/
  taken        : Nat → Bool

/-- `_proxy_ok`. -/
def Config.proxyOk (cfg : Config) : Bool := cfg.proxyUrl || !cfg.requireProxy

/-- What follows `client.close()` in the `finally` block. -/
inductive AfterClose
  | done
  | failed (e : Raised)
deriving DecidableEq, Repr

/-- Where the supervisor task waits. -/
inductive Point
  /-- Created, not yet run. -/
  | spawned
  /-- At the head of the loop, before the client factory. -/
  | building
  /-- In `client.connect()`. -/
  | connecting
  /-- Connected, before `store.promote`. -/
  | promoting (userId : Option Nat)
  /-- In `_on_authorized`, before the identity check. -/
  | authorizing (userId : Option Nat)
  /-- In `_on_authorized`, running the hooks. -/
  | hooks
  /-- In `client.wait_closed()`. -/
  | listening
  /-- In `client.close()`. -/
  | closing (next : AfterClose)
  | sleeping (wakeAt : Time)
deriving DecidableEq, Repr

/-- A client is connected or connecting, or being closed. -/
def Point.hasClient : Point → Bool
  | .spawned => false
  | .building => false
  | .sleeping _ => false
  | _ => true

/-- The local variables of `_supervise`. -/
structure Supervisor where
  transport     : Transport
  /-- The store object of the client (of the client to be built, before the first one). -/
  store         : Store
  /-- `isinstance(store, SeededStore)` for the loop's own variable. -/
  seeded        : Bool
  /-- `auth_flow is not None`. -/
  interactive   : Bool
  oneShot       : Bool
  backoff       : Time
  wasAuthorized : Bool
  began         : Time
  point         : Point
  /-- Spawned as a one-shot login (for statements only). -/
  fromLogin     : Bool
  /-- A connection was authorized by MAX before (for statements only). -/
  connectedOnce : Bool
  /-- How long its failed attempts lasted, the newest first (for statements only). -/
  lasted        : List Time
deriving DecidableEq, Repr

/-- What came of the frames of the connections, which are numbered from 1. -/
inductive Event
  /-- `on_frame` let a frame of the connection pass. -/
  | accept (conn : Nat)
  /-- A live message of the connection moved the chat's cursor. -/
  | advance (conn : Nat) (chat : Int)
deriving DecidableEq, Repr

structure State where
  now        : Time
  ui         : UiState
  lastError  : Option String
  qrExpired  : Bool
  login      : Option Login
  /-- `profile.contact.id`. -/
  userId     : Option Nat
  caughtUp   : List Int
  identityOk : Bool
  task       : Option Supervisor
  /-- The account's active row of `account_sessions`. -/
  stored     : Option Raw
  account    : Option Account
  /-- Calls of `client.connect()` so far. -/
  conns      : Nat
  /-- The newest event first. -/
  log        : List Event

/-- `running`. -/
def State.running (s : State) : Bool := s.task.isSome

/-! ## The pieces of `_supervise` -/

/-- `_set_state`. -/
def State.setState (s : State) (ui : UiState) (error : Option String) : State :=
  { s with
    ui := ui
    lastError := if error.isSome || ui = .authorized then error else s.lastError }

/-- The supervisor goes on at a point of its own. -/
def State.goto (s : State) (t : Supervisor) (p : Point) : State :=
  { s with task := some { t with point := p } }

/-- The head of the loop. -/
def State.beginAttempt (s : State) (t : Supervisor) : State :=
  (s.setState (if t.wasAuthorized then .reconnecting else .connecting) none).goto
    { t with began := s.now } .building

def proxyRequired : String := "proxy required: MAX_PROXY_URL is empty and MAX_REQUIRE_PROXY=true"

/-- The first lines of `_supervise`. -/
def State.run (cfg : Config) (s : State) (t : Supervisor) : State :=
  if cfg.proxyOk then s.beginAttempt t
  else { s.setState .error (some proxyRequired) with task := none }

/-- The client is built, the flags of the connection are reset, `connect()` is called. -/
def State.connect (s : State) (t : Supervisor) : State :=
  { s with
    caughtUp := []
    identityOk := false
    conns := s.conns + 1
    task := some { t with
      store := if t.seeded then t.store else .pg t.transport
      point := .connecting } }

/-- The `except` clauses: the state they set, then `client.close()`. -/
def State.handle (s : State) (t : Supervisor) (e : Raised) : State :=
  match e.cls with
  | .qrExpired =>
      ({ s with qrExpired := true }.setState .error (some e.text)).goto t (.closing .done)
  | .maxAuth => (s.setState .error (some e.describe)).goto t (.closing .done)
  | .passwordAttempts => (s.setState .error (some e.describe)).goto t (.closing .done)
  | .identityMismatch =>
      (s.setState .error (some s!"identity mismatch: {e.text}")).goto t (.closing .done)
  | .api error message =>
      if isUnauthorized error message then
        ({ s with stored := if t.seeded then s.stored else deactivateSession s.stored }.setState
          .unauthorized (some ("session revoked: " ++ error.getD "None"))).goto t (.closing .done)
      else if isBanned error message then
        (s.setState .banned (some e.text)).goto t (.closing .done)
      else s.goto t (.closing (.failed e))
  | .network => s.goto t (.closing (.failed e))
  | .other => s.goto t (.closing (.failed e))

/-- From here on it is a normal running session; `_on_authorized` is next. -/
def State.goLive (s : State) (t : Supervisor) (userId : Option Nat) : State :=
  s.goto { t with
    wasAuthorized := true
    oneShot := false
    interactive := false
    connectedOnce := true } (.authorizing userId)

/-- `connect()` came back. -/
def State.connected (s : State) (t : Supervisor) (isConnected : Bool) (userId : Option Nat) : State :=
  if !isConnected then s.handle t clientDidNotStart
  else if t.seeded then s.goto t (.promoting userId)
  else s.goLive t userId

/-- `store.promote(PgSessionStore(...))`: the session in memory is saved, the client's store writes
    through from now on. -/
def State.promote (s : State) (t : Supervisor) (session : Option SessionInfo) (userId : Option Nat) :
    State :=
  { s with stored := promoteStored session t.transport s.stored }.goLive
    { t with store := .seeded session (some t.transport), seeded := false } userId

/-- `ensure_account_user`: the account's row afterwards, or the text of the mismatch. -/
def ensureAccountUser (cfg : Config) (account : Option Account) (userId : Nat) :
    Except String Account :=
  match account with
  | none => .error s!"account {cfg.accountId} not found"
  | some row =>
      match row.externalUserId with
      | some known =>
          if known ≠ userId then
            .error s!"session of {cfg.platform} user {userId} under account '{cfg.aliasName}' (user {known})"
          else .ok row
      | none =>
          if cfg.taken userId then
            .error s!"{cfg.platform} user {userId} already belongs to another account; not usable as '{cfg.aliasName}'"
          else .ok { row with externalUserId := some userId }

/-- The identity check of `_on_authorized`: the account's row afterwards, or the mismatch. -/
def identityCheck (cfg : Config) (account : Option Account) (userId : Option Nat) :
    Except String (Option Account) :=
  if cfg.newMode then
    match userId with
    | none => .error "MAX profile has no user id"
    | some u =>
        match ensureAccountUser cfg account u with
        | .error text => .error text
        | .ok row => .ok (some { row with platformUserId := some u })
  else
    match userId with
    | none => .ok account
    | some u =>
        -- a database error (another account has this id) is logged and forgotten
        if cfg.taken u then .ok account
        else .ok (account.map fun _ => ⟨some u, some u⟩)

/-- `_on_authorized` up to the hooks. -/
def State.identify (cfg : Config) (s : State) (t : Supervisor) (userId : Option Nat) : State :=
  match identityCheck cfg s.account userId with
  | .error text => { s with userId := userId }.handle t (identityMismatch text)
  | .ok account =>
      { s with
        userId := userId
        account := account
        identityOk := cfg.newMode || s.identityOk }.goto t .hooks

/-- The end of `_on_authorized`. -/
def State.authorized (s : State) (t : Supervisor) : State :=
  ({ s with login := none, qrExpired := false }.setState .authorized none).goto t .listening

/-- `isinstance(error, _NETWORK_ERRORS)`. -/
def Raised.isNetwork (e : Raised) : Bool := e.cls = .network

/-- The backoff after the stable-time check. -/
def Supervisor.delay (t : Supervisor) (now : Time) : Time :=
  if stableReset ≤ now - t.began then backoffStart else t.backoff

/-- What follows the `finally` block. -/
def State.afterClose (s : State) (t : Supervisor) : AfterClose → State
  | .done => { s with task := none }
  | .failed e =>
      if t.oneShot then { s.setState .error (some e.describe) with task := none }
      else
        (s.setState (if e.isNetwork && t.wasAuthorized then .reconnecting else .error)
          (some e.describe)).goto
          { t with
            backoff := min (t.delay s.now * 2) backoffMax
            lasted := (s.now - t.began) :: t.lasted }
          (.sleeping (s.now + t.delay s.now))

/-! ## Commands -/

/-- `_spawn`. -/
def State.spawn (s : State) (transport : Transport) (store : Store) (interactive oneShot : Bool) :
    State :=
  { s with
    task := some
      { transport, store, interactive, oneShot
        seeded := store.isSeeded
        backoff := backoffStart
        wasAuthorized := false
        began := 0
        point := .spawned
        fromLogin := oneShot
        connectedOnce := false
        lasted := [] } }

/-- `stop`. -/
def State.stop (s : State) : State :=
  if s.ui = .unauthorized ∨ s.ui = .banned then { s with task := none }
  else { s.setState .stopped none with task := none }

/-- `start`. -/
def State.start (s : State) : State :=
  if s.running then s
  else
    match loadStoredTransport s.stored with
    | none => s.setState .stopped none
    | some t => s.spawn t (.pg t) false false

/-- `_ensure_can_login`: no conflict. -/
def State.canLogin (s : State) (method : LoginMethod) : Bool :=
  s.ui ≠ .authorized &&
    match s.login, s.running with
    | some login, true => login.method = method
    | _, _ => (loadStoredTransport s.stored).isNone

def LoginMethod.transport : LoginMethod → Transport
  | .qr => .web
  | .sms => .tcp

/-- `start_qr_login` and `start_sms_login`, up to the wait for the login's first step. -/
def State.startLogin (s : State) (method : LoginMethod) : State :=
  if !s.canLogin method then s
  else if s.login.isSome && s.running then s
  else
    { s.stop with
      login := some ⟨method, none⟩
      qrExpired := method ≠ LoginMethod.qr && s.stop.qrExpired }.spawn
      method.transport (.pg method.transport) true true

/-- `import_session` up to its wait: the old supervisor is stopped, the login is spawned. -/
def State.importLogin (s : State) (t : Transport) (info : SessionInfo) : State :=
  { s.stop with login := none }.spawn t (.seeded (some info) none) false true

/-- `logout`; what MAX says to it does not matter. -/
def State.logout (s : State) : State :=
  { s.stop with stored := deactivateSession s.stop.stored, userId := none }.setState .stopped none

/-! ## Steps -/

inductive Act
  | tick (d : Time)
  -- the supervisor task
  | run
  | connect
  | connected (isConnected : Bool) (userId : Option Nat)
  | promote
  | identify
  | hooksDone
  /-- `wait_closed()` comes back. -/
  | closed
  /-- The factory, `connect()` or `wait_closed()` raises. -/
  | raises (e : Raised)
  | clientClosed
  | wake
  -- the messenger and background tasks
  | loginStep (step : LoginStep)
  | storeCall (call : StoreCall)
  | frame (conn : Nat)
  | liveMessage (conn : Nat) (chat : Int)
  | markCaughtUp (chat : Int)
  -- commands
  | start
  | startLogin (method : LoginMethod)
  | importSession (raw : Raw)
  | stop
  | logout

/-- A frame hook runs: `on_frame` up to the chat lock. -/
def State.frame (cfg : Config) (s : State) (conn : Nat) : State :=
  if cfg.newMode && !s.identityOk then s else { s with log := .accept conn :: s.log }

/-- `store_message` of an accepted frame, as far as the cursor goes. -/
def State.liveMessage (s : State) (conn : Nat) (chat : Int) : State :=
  if s.caughtUp.contains chat then { s with log := .advance conn chat :: s.log } else s

/-- One action of the supervisor task. -/
def superviseStep (cfg : Config) (s : State) (t : Supervisor) : Act → Option State
  | .run => if t.point = .spawned then some (s.run cfg t) else none
  | .connect => if t.point = .building then some (s.connect t) else none
  | .connected isConnected userId =>
      if t.point = .connecting then some (s.connected t isConnected userId) else none
  | .promote =>
      match t.point, t.store with
      | .promoting userId, .seeded session _ => some (s.promote t session userId)
      | _, _ => none
  | .identify =>
      match t.point with
      | .authorizing userId => some (s.identify cfg t userId)
      | _ => none
  | .hooksDone => if t.point = .hooks then some (s.authorized t) else none
  | .closed => if t.point = .listening then some (s.handle t connectionClosed) else none
  | .raises e =>
      if t.point = .building ∨ t.point = .connecting ∨ t.point = .listening then some (s.handle t e)
      else none
  | .clientClosed =>
      match t.point with
      | .closing next => some (s.afterClose t next)
      | _ => none
  | .wake =>
      match t.point with
      | .sleeping wakeAt => if wakeAt ≤ s.now then some (s.beginAttempt t) else none
      | _ => none
  | .loginStep step =>
      if t.point = .connecting ∧ t.interactive then
        s.login.map fun login => { s with login := some { login with step := some step }, ui := step.ui }
      else none
  | .storeCall call =>
      if t.point.hasClient then
        some { s with
          stored := (t.store.call call s.stored).2
          task := some { t with store := (t.store.call call s.stored).1 } }
      else none
  | _ => none

def step (cfg : Config) (s : State) (a : Act) : Option State :=
  match a with
  | .tick d => some { s with now := s.now + d }
  | .frame conn => if 1 ≤ conn ∧ conn ≤ s.conns then some (s.frame cfg conn) else none
  | .liveMessage conn chat =>
      if .accept conn ∈ s.log then some (s.liveMessage conn chat) else none
  | .markCaughtUp chat => some { s with caughtUp := chat :: s.caughtUp }
  | .start => some s.start
  | .startLogin method => some (s.startLogin method)
  | .importSession raw =>
      match parseSessionJson raw none with
      | .ok (t, info) => some (s.importLogin t info)
      | .error _ => some s
  | .stop => some s.stop
  | .logout => some s.logout
  | a => s.task.bind fun t => superviseStep cfg s t a

/-- What each action of the supervisor finds and leaves: the inversion of `superviseStep`. -/
inductive Supervised (cfg : Config) (s : State) (t : Supervisor) : Act → State → Prop
  | run : t.point = .spawned → Supervised cfg s t .run (s.run cfg t)
  | connect : t.point = .building → Supervised cfg s t .connect (s.connect t)
  | connected (isConnected : Bool) (userId : Option Nat) : t.point = .connecting →
      Supervised cfg s t (.connected isConnected userId) (s.connected t isConnected userId)
  | promote (userId : Option Nat) (session : Option SessionInfo) (target : Option Transport) :
      t.point = .promoting userId → t.store = .seeded session target →
      Supervised cfg s t .promote (s.promote t session userId)
  | identify (userId : Option Nat) : t.point = .authorizing userId →
      Supervised cfg s t .identify (s.identify cfg t userId)
  | hooksDone : t.point = .hooks → Supervised cfg s t .hooksDone (s.authorized t)
  | closed : t.point = .listening → Supervised cfg s t .closed (s.handle t connectionClosed)
  | raises (e : Raised) : t.point = .building ∨ t.point = .connecting ∨ t.point = .listening →
      Supervised cfg s t (.raises e) (s.handle t e)
  | clientClosed (next : AfterClose) : t.point = .closing next →
      Supervised cfg s t .clientClosed (s.afterClose t next)
  | wake (wakeAt : Time) : t.point = .sleeping wakeAt → wakeAt ≤ s.now →
      Supervised cfg s t .wake (s.beginAttempt t)
  | loginStep (step : LoginStep) (login : Login) : t.point = .connecting → t.interactive = true →
      s.login = some login → Supervised cfg s t (.loginStep step)
        { s with login := some { login with step := some step }, ui := step.ui }
  | storeCall (call : StoreCall) : t.point.hasClient = true →
      Supervised cfg s t (.storeCall call)
        { s with
          stored := (t.store.call call s.stored).2
          task := some { t with store := (t.store.call call s.stored).1 } }

theorem superviseStep_cases {cfg : Config} {s s' : State} {t : Supervisor} {a : Act}
    (h : superviseStep cfg s t a = some s') : Supervised cfg s t a s' := by
  cases a <;> simp only [superviseStep, reduceCtorEq] at h
  case run => obtain ⟨hp, ⟨⟩⟩ := Option.ite_none_right_eq_some.mp h; exact .run hp
  case connect => obtain ⟨hp, ⟨⟩⟩ := Option.ite_none_right_eq_some.mp h; exact .connect hp
  case connected => obtain ⟨hp, ⟨⟩⟩ := Option.ite_none_right_eq_some.mp h; exact .connected _ _ hp
  case promote =>
    split at h
    · rename_i userId session target hp hs
      cases h
      exact .promote userId session target hp hs
    · cases h
  case identify =>
    split at h
    · rename_i userId hp
      cases h
      exact .identify userId hp
    · cases h
  case hooksDone => obtain ⟨hp, ⟨⟩⟩ := Option.ite_none_right_eq_some.mp h; exact .hooksDone hp
  case closed => obtain ⟨hp, ⟨⟩⟩ := Option.ite_none_right_eq_some.mp h; exact .closed hp
  case raises e => obtain ⟨hp, ⟨⟩⟩ := Option.ite_none_right_eq_some.mp h; exact .raises e hp
  case clientClosed =>
    split at h
    · rename_i next hp
      cases h
      exact .clientClosed next hp
    · cases h
  case wake =>
    split at h
    · rename_i wakeAt hp
      obtain ⟨hle, ⟨⟩⟩ := Option.ite_none_right_eq_some.mp h
      exact .wake wakeAt hp hle
    · cases h
  case loginStep step =>
    obtain ⟨hp, h⟩ := Option.ite_none_right_eq_some.mp h
    obtain ⟨login, hlogin, rfl⟩ := Option.map_eq_some_iff.mp h
    exact .loginStep step login hp.1 hp.2 hlogin
  case storeCall call =>
    obtain ⟨hp, ⟨⟩⟩ := Option.ite_none_right_eq_some.mp h
    exact .storeCall call hp

/-- What an action finds and leaves: the inversion of `step`. -/
inductive Stepped (cfg : Config) (s : State) : Act → State → Prop
  | supervised {a : Act} {s' : State} (t : Supervisor) : s.task = some t → Supervised cfg s t a s' →
      Stepped cfg s a s'
  | tick (d : Time) : Stepped cfg s (.tick d) { s with now := s.now + d }
  | frame (conn : Nat) : 1 ≤ conn → conn ≤ s.conns → Stepped cfg s (.frame conn) (s.frame cfg conn)
  | liveMessage (conn : Nat) (chat : Int) : .accept conn ∈ s.log →
      Stepped cfg s (.liveMessage conn chat) (s.liveMessage conn chat)
  | markCaughtUp (chat : Int) :
      Stepped cfg s (.markCaughtUp chat) { s with caughtUp := chat :: s.caughtUp }
  | start : Stepped cfg s .start s.start
  | startLogin (method : LoginMethod) : Stepped cfg s (.startLogin method) (s.startLogin method)
  | importSession (raw : Raw) (t : Transport) (info : SessionInfo) :
      parseSessionJson raw none = .ok (t, info) →
      Stepped cfg s (.importSession raw) (s.importLogin t info)
  | badSession (raw : Raw) (e : SessionFormatError) : parseSessionJson raw none = .error e →
      Stepped cfg s (.importSession raw) s
  | stop : Stepped cfg s .stop s.stop
  | logout : Stepped cfg s .logout s.logout

theorem step_cases {cfg : Config} {s s' : State} {a : Act} (h : step cfg s a = some s') :
    Stepped cfg s a s' := by
  have hsupervised : (s.task.bind fun t => superviseStep cfg s t a) = some s' → Stepped cfg s a s' := by
    intro hbind
    obtain ⟨t, ht, hstep⟩ := Option.bind_eq_some_iff.mp hbind
    exact .supervised t ht (superviseStep_cases hstep)
  cases a with
  | tick d => cases h; exact .tick d
  | frame conn => obtain ⟨hn, ⟨⟩⟩ := Option.ite_none_right_eq_some.mp h; exact .frame conn hn.1 hn.2
  | liveMessage conn chat =>
      obtain ⟨hlog, ⟨⟩⟩ := Option.ite_none_right_eq_some.mp h
      exact .liveMessage conn chat hlog
  | markCaughtUp chat => cases h; exact .markCaughtUp chat
  | start => cases h; exact .start
  | startLogin method => cases h; exact .startLogin method
  | importSession raw =>
      simp only [step] at h
      split at h
      · rename_i t info hparse
        cases h
        exact .importSession raw t info hparse
      · rename_i e hparse
        cases h
        exact .badSession raw e hparse
  | stop => cases h; exact .stop
  | logout => cases h; exact .logout
  | run => exact hsupervised h
  | connect => exact hsupervised h
  | connected isConnected userId => exact hsupervised h
  | promote => exact hsupervised h
  | identify => exact hsupervised h
  | hooksDone => exact hsupervised h
  | closed => exact hsupervised h
  | raises e => exact hsupervised h
  | clientClosed => exact hsupervised h
  | wake => exact hsupervised h
  | loginStep step => exact hsupervised h
  | storeCall call => exact hsupervised h

/-- The commands that may spawn a supervisor. -/
def Act.spawns : Act → Bool
  | .start => true
  | .startLogin _ => true
  | .importSession _ => true
  | _ => false

def Act.isCommand : Act → Bool
  | .stop => true
  | .logout => true
  | a => a.spawns

/-- A new `MaxSession`; the account may have a stored session and a user id already. -/
structure State.Initial (s : State) : Prop where
  task : s.task = none
  conns : s.conns = 0
  log : s.log = []

end MyPerson.MaxSession
