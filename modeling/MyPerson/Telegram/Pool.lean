import MyPerson.Lib.Run
import MyPerson.Lib.Rows
import MyPerson.Lib.Table

/-!
# `Telegram.Pool` — one Telethon session per account

`app/telegram/pool.py`, with `POST /auth/code` of `app/api/auth.py`. An operation is one call, run to its
end; what Telethon answers comes with it. Database calls succeed, but for the one that `start_all` is
prepared for. Only Telegram accounts are in the table.

## Contents
- accounts; `ensureAccountUser` and `_require_same_user`;
- sessions, the pool;
- the operations; `step`.
-/

namespace MyPerson.Telegram

open Lib

/-! ## Accounts -/

structure Account where
  id             : Nat
  accountAlias   : String
  isEnabled      : Bool
  externalUserId : Option Nat
  tgUserId       : Option Nat
deriving DecidableEq, Repr

/-- `ensure_account_user`: the accounts once the user is confirmed; `none` is its `IdentityMismatch`. -/
def ensureAccountUser (accounts : List Account) (accountId user : Nat) : Option (List Account) :=
  match byKey Account.id accounts accountId with
  | none => none
  | some account =>
      match account.externalUserId with
      | some known => if known = user then some accounts else none
      | none =>
          -- the unique key of platform and user
          if some user ∈ accounts.map Account.externalUserId then none
          else some (updateWhere accounts (fun a => a.id == accountId) fun a => { a with externalUserId := some user })

/-- `_require_same_user`: the login is another user than the account, or another account. -/
def refuses (accounts : List Account) (name : String) (user : Nat) : Bool :=
  let known := (byKey Account.accountAlias accounts name).bind fun a => a.externalUserId.or a.tgUserId
  known.any (· != user) ||
    accounts.any fun a => a.accountAlias != name && (a.externalUserId == some user || a.tgUserId == some user)

/-- `_save_session_to_db`: empty ids are filled. -/
def saveUser (accounts : List Account) (name : String) (user : Nat) : List Account :=
  updateWhere accounts (fun a => a.accountAlias == name) fun a =>
    { a with
      externalUserId := a.externalUserId.or (some user)
      tgUserId := a.tgUserId.or (some user) }

/-! ## Sessions -/

structure Client where
  connected : Bool
  /-- The user, when the client is authorized; ids of users are not 0. -/
  user      : Option Nat
  /-- The account of each registration of the event handlers. -/
  handlers  : List (Option Nat)
deriving DecidableEq, Repr

structure Session where
  accountId  : Option Nat
  meId       : Option Nat
  identityOk : Option Bool
  client     : Option Client
deriving DecidableEq, Repr

structure State where
  /-- `STORAGE_MODE=new`. -/
  newMode  : Bool
  accounts : List Account
  /-- `_pool`, and its keys in the order of the entries. -/
  pool     : Table String Session
  names    : List String

def start (newMode : Bool) (accounts : List Account) : State := ⟨newMode, accounts, fun _ => none, []⟩

/-- What comes of `TelegramSession.start`. -/
inductive Start
  | failed
  /-- `TG_API_ID` is not set. -/
  | notConfigured
  | connected (user : Option Nat)
deriving DecidableEq, Repr

/-- What comes of `TelegramSession.sign_in`. -/
inductive SignIn
  | failed | twoFactor
  | authorized (user : Nat)
deriving DecidableEq, Repr

/-- The session of `_load_session`, started; or the stub that stands for it. -/
def started (account : Account) : Start → Session
  | .failed => ⟨none, none, none, none⟩
  | .notConfigured => ⟨some account.id, none, none, none⟩
  | .connected user => ⟨some account.id, user, none, some ⟨true, user, []⟩⟩

/-! ## The operations -/

namespace State

/-- `_pool[name] = session`. -/
def put (s : State) (name : String) (session : Session) : State :=
  { s with
    pool := Function.update s.pool name (some session)
    names := if name ∈ s.names then s.names else s.names ++ [name] }

/-- `_start_one`. -/
def startOne (s : State) (account : Account) (answer : Start) : State :=
  s.put account.accountAlias (started account answer)

def isRunning (s : State) (name : String) : Bool := ((s.pool name).bind Session.client).any Client.connected

def enabledAccount (s : State) (name : String) : Option Account :=
  s.accounts.find? fun a => a.accountAlias == name && a.isEnabled

/-- `get`: the session is started if it is not running. -/
def get (s : State) (name : String) (answer : Start) : State :=
  if s.isRunning name then s
  else match s.enabledAccount name with
    | none => s
    | some account => s.startOne account answer

/-- `stop` and `stop_alias`. -/
def stop (s : State) (name : String) : State :=
  { s with pool := Function.update s.pool name none, names := s.names.filter fun n => n != name }

/-- `confirm_identity`: whether the session may be used; the answer is kept. -/
def confirmIdentity (s : State) (name : String) (session : Session) (user : Nat) : Bool × Session × State :=
  if s.newMode = false then (true, session, s)
  else match session.identityOk with
    | some ok => (ok, session, s)
    | none =>
        let me := session.meId.getD user
        match session.accountId.bind fun accountId => ensureAccountUser s.accounts accountId me with
        | some accounts =>
            let session := { session with meId := some me, identityOk := some true }
            (true, session, { s with accounts := accounts }.put name session)
        | none =>
            let session := { session with meId := some me, identityOk := some false }
            (false, session, s.put name session)

/-- `register_handlers`. -/
def register (s : State) (name : String) (session : Session) (client : Client) : State :=
  let account := if s.newMode then session.accountId else none
  let client := { client with handlers := client.handlers ++ [account] }
  s.put name { session with client := some client }

/-- `attach_handlers` of an authorized client. -/
def attachHandlers (s : State) (name : String) (session : Session) (client : Client) (user : Nat) : State :=
  match s.confirmIdentity name session user with
  | (true, session, s) => s.register name session client
  | (false, _, s) => s

/-- `_maybe_register_handlers`, and the body of the loop of `attach_all_handlers`. Asked for its authorization,
    a client without a connection raises, and so does any other when the call fails. -/
def maybeRegisterHandlers (s : State) (name : String) (fails : Bool) : State :=
  match s.pool name with
  | none => s
  | some session =>
      match session.client with
      | none => s
      | some client =>
          match client.user with
          | none => s
          | some user =>
              if client.connected = false ∨ fails = true then s else s.attachHandlers name session client user

/-- `reload_account` and `restart`. -/
def restart (s : State) (name : String) (answer : Start) (fails : Bool) : State :=
  let s := (s.stop name).get name answer
  s.maybeRegisterHandlers name fails

/-- The accounts that `start_all` starts. -/
def enabledNames (s : State) : List String := (s.accounts.filter Account.isEnabled).map Account.accountAlias

/-- `start_all`: what comes of each account, in the order in which they get ready. -/
def startAll (s : State) (finished : List (String × Start)) : State :=
  finished.foldl (fun s done =>
    match s.enabledAccount done.1 with
    | none => s
    | some account => s.startOne account done.2) s

/-- `attach_all_handlers`. -/
def attachAll (s : State) (fails : String → Bool) : State :=
  s.names.foldl (fun s name => s.maybeRegisterHandlers name (fails name)) s

/-- `sign_in` of a session, and what `auth_code` does then. -/
def login (s : State) (name : String) (answer : SignIn) : State :=
  match s.pool name, answer with
  | some session, .authorized user =>
      match session.client with
      | none => s
      | some client =>
          if client.connected = false then s
          else if refuses s.accounts name user then s.stop name
          else
            let session := { session with client := some { client with user := some user } }
            { s with accounts := saveUser s.accounts name user }.put name session
  | _, _ => s

/-- A request that needs the client: `require_authorized_client`. -/
def requireAuthorizedClient (s : State) (name : String) : State :=
  match s.pool name with
  | none => s
  | some session =>
      match session.client.bind fun c => if c.connected then c.user else none with
      | none => s
      | some user => (s.confirmIdentity name session user).2.2

/-- The connection of a client is lost. -/
def disconnect (s : State) (name : String) : State :=
  match s.pool name with
  | none => s
  | some session => s.put name { session with client := session.client.map fun c => { c with connected := false } }

/-- The row of `PATCH /accounts`. -/
def setEnabled (s : State) (accountId : Nat) (enabled : Bool) : State :=
  { s with accounts := updateWhere s.accounts (fun a => a.id == accountId) fun a => { a with isEnabled := enabled } }

end State

inductive Op
  /-- `none`: the accounts cannot be read. -/
  | startAll (finished : Option (List (String × Start)))
  | attachAll (fails : String → Bool)
  /-- The two, as the service calls them when it starts. -/
  | startUp (finished : Option (List (String × Start))) (fails : String → Bool)
  | get (name : String) (answer : Start)
  | stopAlias (name : String)
  | stopAll
  | reloadAccount (name : String) (answer : Start) (fails : Bool)
  | restart (name : String) (answer : Start) (fails : Bool)
  | authCode (name : String) (answer : Start) (signIn : SignIn)
  | requireClient (name : String) (answer : Start)
  | disconnect (name : String)
  | setEnabled (accountId : Nat) (enabled : Bool)

/-- `start_all`; every enabled account gets ready once, in some way. -/
def startStep (s : State) : Option (List (String × Start)) → Option State
  | none => some s
  | some finished => if (finished.map Prod.fst).isPerm s.enabledNames then some (s.startAll finished) else none

/-- One operation. -/
def step (s : State) : Op → Option State
  | .startAll finished => startStep s finished
  | .attachAll fails => some (s.attachAll fails)
  | .startUp finished fails => (startStep s finished).map fun s => s.attachAll fails
  | .get name answer => some (s.get name answer)
  | .stopAlias name => some (s.stop name)
  | .stopAll => some { s with pool := fun _ => none, names := [] }
  | .reloadAccount name answer fails => some (s.restart name answer fails)
  | .restart name answer fails => some (s.restart name answer fails)
  | .authCode name answer signIn => some ((s.get name answer).login name signIn)
  | .requireClient name answer => some ((s.get name answer).requireAuthorizedClient name)
  | .disconnect name => some (s.disconnect name)
  | .setEnabled accountId enabled => some (s.setEnabled accountId enabled)

end MyPerson.Telegram
