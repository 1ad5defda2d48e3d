import MyPerson.Lib.WaitFor
import MyPerson.MaxSession.Supervisor

/-!
# `MaxLogin.Controller` — a login between MAX and the REST layer

`LoginController` of `app/max/auth.py`, and `submit_code`, `_submit_password` and `_login_result` of
`app/max/session.py`. PyMax asks for a code or a password inside `connect()` and waits; REST calls answer. An action is
one stretch of code between two awaits: of PyMax's flow, of the timer, of a REST call, of `stop()`. What PyMax asks and
when it gives up is up to it; it asks for one thing at a time.

## Contents
- `LoginController` and its methods;
- `RestCall`, `Answer`, `loginResult`;
- `State`, `Action`, `step`; the state at the start, `started`.
-/

namespace MyPerson.MaxLogin

open Lib
open MaxSession (Time seconds LoginStep UiState)

def codeTimeout : Time := seconds 600
def passwordTimeout : Time := seconds 600
def passwordMaxAttempts : Nat := 3
/-- `REST_WAIT_S`. -/
def restWait : Time := seconds 30

/-! ## The controller -/

/-- A code or a password, and the REST call it came with (for statements only). -/
structure Submitted where
  call : Nat
  text : String
deriving DecidableEq, Repr

structure LoginController where
  step             : Option LoginStep := none
  passwordHint     : Option String := none
  /-- Passwords handed to PyMax so far. -/
  passwordAttempts : Nat := 0
  lastError        : Option String := none
  passwordDeadline : Option Time := none
  code             : Option (WaitFor Submitted) := none
  password         : Option (WaitFor Submitted) := none
deriving DecidableEq, Repr

/-- What `wait_password` raises before it waits. -/
inductive PasswordError
  /-- `MaxAuthTimeout`. -/
  | timeout
  /-- `MaxPasswordAttemptsExceeded`. -/
  | attemptsExceeded
deriving DecidableEq, Repr

namespace LoginController

def passwordPending (c : LoginController) : Bool := c.password.any fun w => !w.future.done

def passwordAttemptsLeft (c : LoginController) : Nat := passwordMaxAttempts - c.passwordAttempts

/-- `wait_code`, up to its await. -/
def waitCode (c : LoginController) (now : Time) : LoginController :=
  { c with code := some (.start (now + codeTimeout)), step := some .awaitingCode }

/-- The deadline of this login, and the error that asking again tells of. -/
def askedAgain (c : LoginController) (now : Time) : LoginController :=
  match c.passwordDeadline with
  | none => { c with passwordDeadline := some (now + passwordTimeout) }
  | some _ => if 0 < c.passwordAttempts then { c with lastError := some "invalid password" } else c

/-- `wait_password`, up to its await; or what it raises before. -/
def waitPassword (c : LoginController) (now : Time) (hint : Option String) : LoginController × Option PasswordError :=
  if passwordMaxAttempts ≤ c.passwordAttempts then
    ({ c with lastError := some "password attempts exceeded" }, some .attemptsExceeded)
  else
    let c := c.askedAgain now
    let deadline := c.passwordDeadline.getD now
    if deadline ≤ now then (c, some .timeout)
    else ({ c with
      passwordHint := hint
      password := some (.start deadline)
      step := some .awaitingPassword }, none)

/-- `submit_code`. -/
def submitCode (c : LoginController) (code : Submitted) : LoginController × Bool :=
  match c.code with
  | some w => if w.future.done then (c, false) else ({ c with code := some (w.setResult code) }, true)
  | none => (c, false)

/-- `submit_password`. -/
def submitPassword (c : LoginController) (password : Submitted) : LoginController × Bool :=
  match c.password with
  | some w => if w.future.done then (c, false) else ({ c with password := some (w.setResult password) }, true)
  | none => (c, false)

/-- PyMax waits for a code or a password. -/
def waiting (c : LoginController) : Bool := c.code.isSome || c.password.isSome

/-- `cancel`, and the cancellation of the task that waits. -/
def cancel (c : LoginController) : LoginController :=
  { c with
    code := c.code.map fun w => w.cancelFuture.cancelTask
    password := c.password.map fun w => w.cancelFuture.cancelTask }

end LoginController

/-! ## REST calls -/

/-- A `POST /auth/code` in its `wait_until`. -/
inductive Awaits
  /-- The code was submitted; the password comes after it. -/
  | code (password : Option String)
  /-- The password was submitted, when `before` passwords had been handed over. -/
  | password (before : Nat)
deriving DecidableEq, Repr

structure RestCall where
  call   : Nat
  awaits : Awaits
  since  : Time
deriving DecidableEq, Repr

/-- What a `POST /auth/code` answers. -/
inductive Answer
  /-- `MaxLoginConflict`. -/
  | conflict (ui : UiState)
  | codeRequired
  | passwordRequired (attemptsLeft : Nat)
  | authorized
  | twoFactor (hint : Option String)
  /-- 400 with `attempts_left`. -/
  | wrong (error : String) (attemptsLeft : Nat)
  /-- 400, the login ended. -/
  | ended (error : String) (detail : Option String) (ui : UiState)
deriving DecidableEq, Repr

/-! ## The session -/

structure State where
  now       : Time
  login     : LoginController
  /-- `self.login is not None`: until MAX authorized the session. -/
  current   : Bool
  running   : Bool
  ui        : UiState
  lastError : Option String
  calls     : List RestCall
  /-- The number of the next call. -/
  nextCall  : Nat
  /-- For statements only: passwords that `submit_password` took, in order, -/
  accepted  : List Submitted
  /-- those that PyMax got, in order, -/
  handed    : List Submitted
  /-- and those whose wait ended otherwise. -/
  lost      : List Submitted
  /-- When PyMax was made to wait for a password, the last one first. -/
  prompts   : List Time
deriving DecidableEq, Repr

/-- `_login_result`. -/
def loginResult (s : State) (wrong : String) : Answer :=
  if s.ui = .authorized then .authorized
  else if s.ui = .awaitingPassword ∧ s.running = true then
    if s.login.passwordAttempts = 0 then .twoFactor s.login.passwordHint
    else .wrong (s.login.lastError.getD wrong) s.login.passwordAttemptsLeft
  else .ended (if wrong = "invalid code" then wrong else s.lastError.getD wrong) s.lastError s.ui

/-- `_on_login_step`. -/
def onLoginStep (s : State) : State :=
  match s.login.step with
  | some step => if s.current then { s with ui := step.ui } else s
  | none => s

/-- What the call waits for. -/
def Awaits.holds (s : State) : Awaits → Bool
  | .code _ => s.ui = .authorized || s.ui = .awaitingPassword || !s.running
  | .password before =>
      s.ui = .authorized || !s.running ||
        (s.ui = .awaitingPassword && before < s.login.passwordAttempts && s.login.passwordPending)

/-! ## Actions -/

inductive Action
  | tick (d : Time)
  /-- `on_qr`: PyMax polls for the QR code. -/
  | qr
  /-- PyMax asks for the code, or for a password, whenever it does not wait already. -/
  | askCode
  | askPassword (hint : Option String)
  /-- The timer of the wait fires. -/
  | expire
  /-- The task that waits goes on. -/
  | resume
  /-- `connect()` came back, and `_on_authorized` is done. -/
  | authorize
  /-- `connect()` raised; the supervisor ends. -/
  | fail (error : String)
  /-- `stop()` up to its await, and behind it. -/
  | stop
  | stopped
  /-- A `POST /auth/code`. -/
  | post (code password : Option String)
  /-- A call goes on, because of what it waited for or because its time is over. -/
  | wake (call : Nat)
  | giveUp (call : Nat)
deriving DecidableEq, Repr

/-- What a step says to the REST client. -/
abbrev Told := Option (Nat × Answer)

/-- The call waits from now on, if it has to. -/
def await (s : State) (call : Nat) (awaits : Awaits) : State :=
  { s with calls := s.calls ++ [⟨call, awaits, s.now⟩] }

def submitCode (s : State) (call : Nat) (code : String) (password : Option String) : State :=
  await { s with login := (s.login.submitCode ⟨call, code⟩).1 } call (.code password)

/-- `_submit_password`, up to its await. -/
def submitPassword (s : State) (call : Nat) (password : String) : State :=
  let taken := s.login.submitPassword ⟨call, password⟩
  let accepted := if taken.2 then s.accepted ++ [⟨call, password⟩] else s.accepted
  await { s with login := taken.1, accepted := accepted } call (.password s.login.passwordAttempts)

/-- `x or None`. -/
def nonEmpty (text : Option String) : Option String := text.filter fun x => x != ""

/-- `submit_code`, up to its await or its answer. -/
def post (s : State) (code password : Option String) : State × Told :=
  let call := s.nextCall
  let s := { s with nextCall := call + 1 }
  if s.current = false ∨ s.running = false then (s, some (call, .conflict s.ui))
  else match s.login.step with
    | some .awaitingCode =>
        match nonEmpty code with
        | none => (s, some (call, .codeRequired))
        | some code => (submitCode s call code (nonEmpty password), none)
    | some .awaitingPassword =>
        match nonEmpty password with
        | none => (s, some (call, .passwordRequired s.login.passwordAttemptsLeft))
        | some password => (submitPassword s call password, none)
    | _ => (s, some (call, .conflict s.ui))

/-- The call behind its `wait_until`. -/
def goOn (s : State) (r : RestCall) : State × Told :=
  let s := { s with calls := s.calls.filter fun x => x.call != r.call }
  match r.awaits with
  | .code (some password) =>
      if s.ui = .awaitingPassword then (submitPassword s r.call password, none)
      else (s, some (r.call, loginResult s "invalid code"))
  | .code none => (s, some (r.call, loginResult s "invalid code"))
  | .password _ => (s, some (r.call, loginResult s "invalid password"))

/-- `wait_password` behind its await. -/
def resumePassword (s : State) (w : WaitFor Submitted) : Option State :=
  let login := { s.login with password := none }
  match w.resume with
  | none => none
  | some (.value value) =>
      some { s with
        login := { login with passwordAttempts := login.passwordAttempts + 1 }
        handed := s.handed ++ [value] }
  | some _ => some { s with login := login, lost := s.lost ++ w.carried.toList }

/-- `wait_code` behind its await. -/
def resumeCode (s : State) (w : WaitFor Submitted) : Option State :=
  w.resume.map fun _ => { s with login := { s.login with code := none } }

def resume (s : State) : Option State :=
  match s.login.password, s.login.code with
  | some w, _ => resumePassword s w
  | none, some w => resumeCode s w
  | none, none => none

def expire (s : State) : Option State :=
  match s.login.password, s.login.code with
  | some w, _ =>
      if w.deadline ≤ s.now ∧ w.expired = false then
        some { s with login := { s.login with password := some w.expire } } else none
  | none, some w =>
      if w.deadline ≤ s.now ∧ w.expired = false then
        some { s with login := { s.login with code := some w.expire } } else none
  | none, none => none

/-- PyMax asks for a password. -/
def askPassword (s : State) (hint : Option String) : State :=
  match s.login.waitPassword s.now hint with
  | (login, some _) => { s with login := login }
  | (login, none) => onLoginStep { s with login := login, prompts := s.now :: s.prompts }

/-- One stretch of code; `none` when it cannot come now. -/
def stepTold (s : State) : Action → Option (State × Told)
  | .tick d => some ({ s with now := s.now + d }, none)
  | .qr =>
      if s.login.waiting then none
      else some (onLoginStep { s with login := { s.login with step := some .awaitingQr } }, none)
  | .askCode =>
      if s.login.waiting then none
      else some (onLoginStep { s with login := s.login.waitCode s.now }, none)
  | .askPassword hint => if s.login.waiting then none else some (askPassword s hint, none)
  | .expire => (expire s).map fun s => (s, none)
  | .resume => (resume s).map fun s => (s, none)
  | .authorize =>
      if s.login.waiting = true ∨ s.running = false then none
      else some ({ s with ui := .authorized, current := false, lastError := none }, none)
  | .fail error =>
      if s.login.waiting = true ∨ s.running = false then none
      else some ({ s with ui := .error, running := false, lastError := some error }, none)
  | .stop => some ({ s with login := s.login.cancel, running := false }, none)
  | .stopped => if s.login.waiting = true ∨ s.running = true then none else some ({ s with ui := .stopped }, none)
  | .post code password => some (post s code password)
  | .wake call => (s.calls.find? fun r => r.call = call ∧ r.awaits.holds s = true).map (goOn s)
  | .giveUp call => (s.calls.find? fun r => r.call = call ∧ r.since + restWait ≤ s.now).map (goOn s)

def step (s : State) (a : Action) : Option State := (stepTold s a).map Prod.fst

/-- What the action answers to a REST call. -/
def told (s : State) (a : Action) : Told := (stepTold s a).bind Prod.snd

/-- The login has been started. -/
def started (now : Time) : State where
  now       := now
  login     := {}
  current   := true
  running   := true
  ui        := .connecting
  lastError := none
  calls     := []
  nextCall  := 0
  accepted  := []
  handed    := []
  lost      := []
  prompts   := []

end MyPerson.MaxLogin
