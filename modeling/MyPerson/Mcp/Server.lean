import MyPerson.Authz.Chain
import MyPerson.Mcp.Invoke
import MyPerson.Phone.Mask

/-!
# `Mcp.Server` — a tool call, from the key to the audit

`mcp_asgi`, `_caller_for` and `call_tool` of `app/mcp/server.py`, and what the handlers of `app/mcp/tools.py` do: who
calls is decided by the key, the arguments are coerced and validated, the call is authorized, the REST route is run in
the process, and the call hands a row to the audit, which drops one that the database refuses. What the routes answer,
what files hold, what the validator says and what the database takes are parameters.

## Contents
- `Execution`, `AuditRow`, `Env`, `Outcome`; `writeAuditLog`;
- `Handler.run`; `authorizeChat`; `callTool`;
- `callerOf`: who calls;
- `run_executed`, `callTool_cases`: what a call may do.
-/

namespace MyPerson.Mcp

open Lib Authz
open WriteLimits (Platform)

/-! ## Values as Python treats them -/

def Value.truthy : Value → Bool
  | .scalar .null => false
  | .scalar (.bool b) => b
  | .scalar (.int n) => n ≠ 0
  | .scalar (.float (.finite q _)) => q ≠ 0
  | .scalar (.float _) => true
  | .scalar (.str s) => s ≠ ""
  | .list items => !items.isEmpty
  | .tuple items => !items.isEmpty
  | .dict entries => !entries.isEmpty

/-- The integer that the value equals. -/
def Value.asInt : Value → Option Int
  | .scalar (.int n) => some n
  | .scalar (.bool b) => some b.toInt
  | .scalar (.float (.finite q _)) => if q.den = 1 then some q.num else none
  | _ => none

/-- `isinstance(value, int)`. -/
def Value.int? : Value → Option Int
  | .scalar (.int n) => some n
  | .scalar (.bool b) => some b.toInt
  | _ => none

/-- `args.get(key)`, where `None` is nothing. -/
def given (key : String) (args : Args) : Option Value :=
  (Dict.get key args).filter fun
    | .scalar .null => false
    | _ => true

/-- `next(iter(value or []), None)`; `none` when the value has no items. -/
def firstItem (value : Option Value) : Option (Option Value) :=
  match value.filter Value.truthy with
  | none => some none
  | some (.list (item :: _)) | some (.tuple (item :: _)) => some (some item)
  | some (.scalar (.str s)) => some (s.toList.head?.map fun c => .scalar (.str (String.singleton c)))
  | some (.dict ((key, _) :: _)) => some (some (.scalar (.str key)))
  | some _ => none

/-! ## Calls -/

/-- What goes with a call. -/
inductive Sent
  | nothing
  | query (fields : Args)
  | body (fields : Args)
  | form (fields : Args)

/-- A route that is run, with what it reads of the request. -/
structure Execution where
  platform     : Platform
  method       : String
  path         : List (List Char)
  route        : Route Convertor Tool
  accountId    : Option Nat
  sessionAlias : Option String
  owner        : Bool
  sent         : Sent

structure Answer where
  status : Nat
  body   : Value

/-! ## The audit -/

inductive AuditStatus
  | ok | error | denied
deriving DecidableEq, Repr

/-- The name in the audit: a route, or what was asked for. -/
inductive AuditName
  | route (tool : Tool)
  | unknown (name : String)
deriving DecidableEq, Repr

structure AuditRow where
  accountId    : Option Nat
  rowAlias     : Option String
  tool         : AuditName
  isWrite      : Bool
  status       : AuditStatus
  chatId       : Option Int := none
  targetUserId : Option Value := none
  paramsDigest : Option String := none
  error        : Option String := none

/-! ## The rest of the world -/

structure Env where
  /-- `MAX_SCHEDULED_ENABLED`. -/
  scheduled  : Bool
  texts      : Texts
  validator  : Validator
  /-- What the validator says of arguments it refuses. -/
  complaint  : McpTool → Args → String
  acc        : Access
  /-- The fields of a multipart call, with the files read. -/
  form       : McpTool → Caller → Args → Except Failure Args
  newUpload  : Caller → Except Failure Value
  /-- The link to what a message has. -/
  mediaLink  : Caller → Args → Value → Except Failure Value
  answer     : Execution → Answer
  /-- `json.dumps`, and `str`. -/
  dumps      : Value → String
  str        : Value → String
  /-- `_digest`; nothing when it raises. -/
  digest     : Args → Option String
  /-- The body of `Decision.response`. -/
  refusal    : AuthContext → Tool → Decision → String
  /-- The database answers what `authorize` asks it. -/
  lookups    : Bool
  /-- The database does not refuse the row. -/
  takes      : AuditRow → Bool

variable (env : Env)

/-- `_text`. -/
def bodyText : Value → String
  | .scalar (.str s) => s
  | body => env.dumps body

/-- What `_rest` says of an answer that is not a success. -/
def restError (a : Answer) : String :=
  let plain := "HTTP " ++ toString a.status ++ ": " ++ bodyText env a.body
  if a.status = 403 ∨ a.status = 429 then
    match a.body with
    | .dict entries =>
        match (Dict.get "message" entries).filter Value.truthy with
        | some message => "HTTP " ++ toString a.status ++ ": " ++ env.str message ++ ". Details: " ++ bodyText env a.body
        | none => plain
    | _ => plain
  else plain

/-- The answer of `invoke.call` without a route. -/
def noRoute (platform : Platform) (method : String) (path : List (List Char)) : Answer :=
  match platform with
  | .max => ⟨501, .dict [("error", .scalar (.str (method ++ " /" ++ String.ofList (joinPath path) ++
      " is not supported for platform max")))]⟩
  | .telegram => ⟨404, .dict [("detail", .scalar (.str "Not Found"))]⟩

/-- What is executed, and what comes of it. -/
abbrev Ran := Option Execution × Except Failure Value

/-- `_rest`. -/
def restCall (caller : Caller) (method : String) (path : List (List Char)) (sent : Sent) : Ran :=
  match find caller.platform method (fullPath caller.platform path) with
  | none => (none, .error (.tool (restError env (noRoute caller.platform method path))))
  | some route =>
      let e : Execution := ⟨caller.platform, method, path, route, caller.accountId, caller.callerAlias, caller.owner, sent⟩
      let a := env.answer e
      (some e, if 200 ≤ a.status ∧ a.status < 300 then .ok a.body else .error (.tool (restError env a)))

/-- The fields made of the arguments. -/
def Fields.eval (args : Args) : Fields → Except Failure Args
  | .clean drop => .ok (args.filter fun e => (match e.2 with | .scalar .null => false | _ => true) && !drop.contains e.1)
  | .pick fields => fields.mapM fun f =>
      match Dict.get f.1 args, f.2 with
      | some v, _ => .ok (f.1, v)
      | none, .get default => .ok (f.1, default)
      | none, .item => .error (.crash "KeyError" ("'" ++ f.1 ++ "'"))

def Payload.eval (args : Args) : Payload → Except Failure Sent
  | .nothing => .ok .nothing
  | .query fields => (fields.eval args).map .query
  | .body fields => (fields.eval args).map .body

/-- A call of a tool, with what goes with it. -/
def runCall (caller : Caller) (args : Args) (call : Rest) (sent : Except Failure Sent) : Ran :=
  match formatPath env.texts args call.path with
  | .error e => (none, .error e)
  | .ok path =>
      match sent with
      | .error e => (none, .error e)
      | .ok sent => restCall env caller call.method path sent

/-- `{"person_id": person["id"], "accounts": person.get("accounts", [])}`. -/
def accountsOf : Value → Except Failure Value
  | .dict person =>
      match Dict.get "id" person with
      | some id => .ok (.dict [("person_id", id), ("accounts", (Dict.get "accounts" person).getD (.list []))])
      | none => .error (.crash "KeyError" "'id'")
  | _ => .error (.crash "TypeError" "")

/-- `tool.call`. -/
def McpTool.run (tool : McpTool) (caller : Caller) (args : Args) : Ran :=
  match tool.handler with
  | .rest call => runCall env caller args call (call.payload.eval args)
  | .files call => runCall env caller args call ((env.form tool caller args).map .form)
  | .media call =>
      let (e, result) := runCall env caller args call (.ok .nothing)
      (e, result.bind (env.mediaLink caller args))
  | .personAccounts call =>
      let (e, result) := runCall env caller args call (.ok .nothing)
      (e, result.bind accountsOf)
  | .createUpload => (none, env.newUpload caller)

/-! ## What a call leaves -/

/-- The rows handed to the audit, the route that ran, and the text; there is none when `safe_ints` raises. -/
structure Outcome where
  audits   : List AuditRow
  executed : Option Execution
  text     : Option String
  isError  : Bool := false

/-- `_write_audit_log`: a row that the database refuses is dropped. -/
def writeAuditLog (log : List AuditRow) (row : AuditRow) : List AuditRow :=
  if env.takes row then log ++ [row] else log

/-- What the call adds to the log. -/
def Outcome.logged (out : Outcome) : List AuditRow := out.audits.foldl (writeAuditLog env) []

def contextOf (caller : Caller) : AuthContext := ⟨caller.accountId, caller.callerAlias, caller.platform, caller.owner⟩

/-- `audit`: the row, without what a call adds to it. -/
def auditRow (caller : Caller) (name : AuditName) (isWrite : Bool) (status : AuditStatus) : AuditRow where
  accountId := caller.accountId
  rowAlias  := if caller.owner then some "owner" else caller.callerAlias
  tool      := name
  isWrite   := isWrite
  status    := status

/-- `_scrub`. -/
def scrub (tool : McpTool) (text : String) : String :=
  if tool.route = .contactByPhone then String.ofList (Phone.maskPhonesInText text.toList) else text

/-- `text[:500]`. -/
def cut (text : String) : String := String.ofList (text.toList.take 500)

/-! ## The call -/

/-- The account restricts the chats it writes to. -/
def listsChats (acc : Access) (accountId : Option Nat) : Bool :=
  (accountId.bind acc.guards).any fun guards => guards.writeChatIds.isSome

/-- `authorize` with the chat as the agent gave it: one that equals no integer is in no list. -/
def authorizeChat (caller : Caller) (tool : McpTool) (chat : Option Value) : Decision :=
  let plain := authorize env.acc (contextOf caller) tool.route none tool.isWrite
  match chat with
  | none => plain
  | some v =>
      match v.asInt with
      | some n => authorize env.acc (contextOf caller) tool.route (some n) tool.isWrite
      | none =>
          if plain.status ≠ 403 ∧ tool.isWrite ∧ listsChats env.acc caller.accountId then
            refuse 403 ("chat " ++ env.str v ++ " is not in write_chat_ids")
          else plain

/-- `args.get("chat_id", args.get("to_chat_id"))`. -/
def chatOf (args : Args) : Option Value :=
  if (Dict.get "chat_id" args).isSome then given "chat_id" args else given "to_chat_id" args

/-- `target_user_id`; `none` when `user_ids` has no items to take one of. -/
def targetOf (args : Args) : Option (Option Value) :=
  match given "user_id" args with
  | some user => some (some user)
  | none => firstItem (Dict.get "user_ids" args)

/-- The arguments are valid, and the call may be authorized. -/
def runTool (caller : Caller) (tool : McpTool) (args : Args) (target : Option Value) (digest : Option String) :
    Outcome :=
  let chat := chatOf args
  let row (status : AuditStatus) : AuditRow :=
    { auditRow caller (.route tool.route) tool.isWrite status with
      chatId       := chat.bind Value.int?
      targetUserId := target
      paramsDigest := digest }
  let decision := authorizeChat env caller tool chat
  if decision.allowed = false then
    { audits   := [{ row .denied with error := some ("HTTP " ++ toString decision.status) }]
      executed := none
      text     := some
        ("HTTP " ++ toString decision.status ++ ": " ++ env.refusal (contextOf caller) tool.route decision) }
  else
    match tool.run env caller args with
    | (e, .error (.tool text)) =>
        { audits   := [{ row .error with error := some (cut (scrub tool text)) }]
          executed := e
          text     := some (scrub tool text) }
    | (e, .error (.crash kind text)) =>
        { audits   := [{ row .error with error := some (cut (scrub tool (kind ++ ": " ++ text))) }]
          executed := e
          text     := some (scrub tool ("Error: " ++ text)) }
    | (e, .ok result) =>
        let found := match result with
          | .dict entries => if tool.route = .contactByPhone then given "user_id" entries else target
          | _ => target
        { audits   := [{ row .ok with targetUserId := found }]
          executed := e
          text     := (safeInts result).toOption.map env.dumps }

/-- `authorize` comes to a decision; a read of an account and an owner's call need no lookup. -/
def decides (caller : Caller) (tool : McpTool) : Bool := !tool.isWrite || caller.accountId.isNone || env.lookups

/-- `_digest` of a write, nothing of a read; `none` when it raises. -/
def digestOf (tool : McpTool) (args : Args) : Option (Option String) :=
  if tool.isWrite then (env.digest args).map some else some none

/-- `call_tool`; `none` is an exception that leaves it before it handed a row to the audit. -/
def callTool (caller : Caller) (name : String) (arguments : Args) : Option Outcome :=
  match (visible env.scheduled caller).find? fun t => t.name = name with
  | none =>
      let known := byName name
      some
        { audits   := [{ auditRow caller ((known.map fun t => .route t.route).getD (.unknown name))
            ((known.map McpTool.isWrite).getD false) .denied with error := some "tool not available for this key" }]
          executed := none
          text     := some ("Error: tool '" ++ name ++ "' is not available for this key") }
  | some tool =>
      let invalid (text : String) : Outcome :=
        { audits   := [{ auditRow caller (.route tool.route) tool.isWrite .error with
            error := some (cut (scrub tool text)) }]
          executed := none
          text     := some (scrub tool text)
          isError  := true }
      match coerceIds arguments tool.schema with
      | .error (.tool text) => some (invalid text)
      | .error (.crash _ _) => none
      | .ok args =>
          if env.validator.accepts tool args = false then
            some (invalid ("Input validation error: " ++ env.complaint tool args))
          else if decides env caller tool = false then none
          else (targetOf args).bind fun target =>
            (digestOf env tool args).map fun digest => runTool env caller tool args target digest

/-! ## Who calls -/

/-- The key of `Authorization: Bearer`. -/
def bearerKey (auth : Option String) : Option String :=
  let text := (auth.getD "").toList
  if (text.take 7).map Char.toLower = "bearer ".toList then some (String.ofList (strip (text.drop 7))) else none

/-- `_caller_for`. -/
def callerFor (db : Db) (acc : Access) (info : KeyInfo) : Option Caller :=
  if info.scope = .owner then some ⟨true, none, some "owner", .telegram, .ro⟩
  else ((info.accountId.bind (byKey Account.id db.accounts)).filter Account.isEnabled).bind fun row =>
    (acc.accountMode row.id).map fun mode => ⟨false, info.accountId, some row.accountAlias, row.platform, mode⟩

/-- `mcp_asgi`: the caller of a request; nothing is the answer 401. -/
def callerOf (hash : String → String) (db : Db) (acc : Access) (auth : Option String) : Option Caller :=
  (lookup hash db (bearerKey auth)).bind (callerFor db acc)

/-! ## What a call may do -/

variable {env} {caller : Caller} {tool : McpTool} {args arguments : Args} {e : Execution} {name : String}

/-- The execution of a call of a tool: at the path that its template becomes, as the caller. -/
structure Runs (env : Env) (caller : Caller) (args : Args) (call : Rest) (e : Execution) : Prop where
  format   : formatPath env.texts args call.path = .ok e.path
  found    : find caller.platform call.method (fullPath caller.platform e.path) = some e.route
  method   : e.method = call.method
  platform : e.platform = caller.platform
  account  : e.accountId = caller.accountId ∧ e.sessionAlias = caller.callerAlias ∧ e.owner = caller.owner

theorem restCall_executed {method : String} {path : List (List Char)} {sent : Sent}
    (h : (restCall env caller method path sent).1 = some e) :
    find caller.platform method (fullPath caller.platform path) = some e.route ∧
      e = ⟨caller.platform, method, path, e.route, caller.accountId, caller.callerAlias, caller.owner, sent⟩ := by
  unfold restCall at h
  split at h
  · cases h
  · rename_i route hfind
    cases h
    exact ⟨hfind, rfl⟩

theorem runCall_executed {call : Rest} {sent : Except Failure Sent}
    (h : (runCall env caller args call sent).1 = some e) : Runs env caller args call e := by
  unfold runCall at h
  split at h
  · cases h
  · rename_i path hpath
    split at h
    · cases h
    · obtain ⟨hfind, heq⟩ := restCall_executed h
      rw [heq] at hfind ⊢
      exact ⟨hpath, hfind, rfl, rfl, rfl, rfl, rfl⟩

theorem run_executed (h : (tool.run env caller args).1 = some e) :
    ∃ call, tool.handler.call = some call ∧ Runs env caller args call e := by
  unfold McpTool.run at h
  cases hhandler : tool.handler with
  | createUpload =>
      rw [hhandler] at h
      cases h
  | _ call =>
      rw [hhandler] at h
      exact ⟨call, rfl, runCall_executed h⟩

/-- A call that got as far as the tool: it is visible, its arguments are valid and it is authorized. -/
structure Allowed (env : Env) (caller : Caller) (name : String) (arguments : Args) (tool : McpTool) (args : Args) :
    Prop where
  visible   : tool ∈ visible env.scheduled caller
  name      : tool.name = name
  coerced   : coerceIds arguments tool.schema = .ok args
  valid     : env.validator.accepts tool args = true
  decision  : (authorizeChat env caller tool (chatOf args)).allowed = true

/-- What a call leaves: a denied or refused one a row and nothing else; an allowed one what the tool did, and a row
    that says how it ended. -/
inductive Left (env : Env) (caller : Caller) (name : String) (arguments : Args) (out : Outcome) : Prop
  | stopped (row : AuditRow) (haudits : out.audits = [row]) (hstatus : row.status ≠ .ok)
      (hexecuted : out.executed = none) (haccount : row.accountId = caller.accountId)
  | ran (tool : McpTool) (args : Args) (row : AuditRow) (hallowed : Allowed env caller name arguments tool args)
      (haudits : out.audits = [row]) (hname : row.tool = .route tool.route) (hwrite : row.isWrite = tool.isWrite)
      (haccount : row.accountId = caller.accountId) (hchat : row.chatId = (chatOf args).bind Value.int?)
      (hexecuted : out.executed = (tool.run env caller args).1)
      (hstatus : row.status = .ok ∧ (∃ v, (tool.run env caller args).2 = .ok v) ∨
        row.status = .error ∧ ∃ f, (tool.run env caller args).2 = .error f)

theorem runTool_left {target : Option Value} {digest : Option String} (hvisible : tool ∈ visible env.scheduled caller) (hname : tool.name = name)
    (hcoerced : coerceIds arguments tool.schema = .ok args) (hvalid : env.validator.accepts tool args = true) :
    Left env caller name arguments (runTool env caller tool args target digest) := by
  unfold runTool
  by_cases hdecision : (authorizeChat env caller tool (chatOf args)).allowed = false
  · simp only [if_pos hdecision]
    exact .stopped _ rfl (by simp [auditRow]) rfl rfl
  · simp only [if_neg hdecision]
    have hallowed : Allowed env caller name arguments tool args :=
      ⟨hvisible, hname, hcoerced, hvalid, Bool.eq_true_of_not_eq_false hdecision⟩
    cases hrun : tool.run env caller args with
    | mk executed result =>
        cases result with
        | error f =>
            cases f with
            | tool text =>
                exact .ran tool args _ hallowed rfl rfl rfl rfl rfl (by rw [hrun]) (.inr ⟨rfl, _, by rw [hrun]⟩)
            | crash kind text =>
                exact .ran tool args _ hallowed rfl rfl rfl rfl rfl (by rw [hrun]) (.inr ⟨rfl, _, by rw [hrun]⟩)
        | ok v => exact .ran tool args _ hallowed rfl rfl rfl rfl rfl (by rw [hrun]) (.inl ⟨rfl, _, by rw [hrun]⟩)

/-- **What a call may do.** -/
theorem callTool_cases {out : Outcome} (h : callTool env caller name arguments = some out) :
    Left env caller name arguments out := by
  unfold callTool at h
  split at h
  · obtain rfl := Option.some.inj h
    exact .stopped _ rfl (by simp [auditRow]) rfl rfl
  · rename_i tool hfind
    have hvisible := List.mem_of_find?_eq_some hfind
    have hname : tool.name = name := by simpa using List.find?_some hfind
    split at h
    · obtain rfl := Option.some.inj h
      exact .stopped _ rfl (by simp [auditRow]) rfl rfl
    · cases h
    · rename_i args hcoerced
      split at h
      · obtain rfl := Option.some.inj h
        exact .stopped _ rfl (by simp [auditRow]) rfl rfl
      · rename_i hvalid
        split at h
        · cases h
        · obtain ⟨target, -, hdigest⟩ := Option.bind_eq_some_iff.mp h
          obtain ⟨digest, -, rfl⟩ := Option.map_eq_some_iff.mp hdigest
          exact runTool_left hvisible hname hcoerced (by simpa using hvalid)

end MyPerson.Mcp
