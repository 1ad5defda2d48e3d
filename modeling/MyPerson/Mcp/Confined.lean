import MyPerson.Authz.Confined
import MyPerson.Mcp.Server

/-!
# `Mcp.Confined` — what a tool call may do with a key

A call that runs a route runs the one that was authorized and audited, as the account of the key and in the API of its
platform; a messenger write needs an account that is `rw`, that no policy denies the tool, and whose guards admit the
chat. A call hands one row to the audit, whatever becomes of it; the calls without one are those that an exception
leaves before the tool is called, and they do nothing.

## Contents
- `callerOf_cases`, `authorizeChat_allowed`: the key and the decision;
- `Executed`, `ConfinedCall`, `executed_confined`;
- `Leaves`, the calls without a row; `callTool_audited`.
-/

namespace MyPerson.Mcp

open Lib Authz
open WriteLimits (Platform)

variable {env : Env} {caller : Caller} {tool : McpTool} {args arguments : Args} {e : Execution} {name : String}
  {hash : String → String} {db : Db} {auth : Option String} {out : Outcome}

/-! ## The caller -/

/-- Who a caller is, by the key. -/
inductive CallerIs (db : Db) (acc : Access) (info : KeyInfo) : Caller → Prop
  | owner (hscope : info.scope = .owner) : CallerIs db acc info ⟨true, none, some "owner", .telegram, .ro⟩
  | account (hscope : info.scope = .account) (row : Account)
      (hrow : info.accountId.bind (byKey Account.id db.accounts) = some row) (henabled : row.isEnabled = true) (mode : Mode)
      (hmode : acc.accountMode row.id = some mode) :
      CallerIs db acc info ⟨false, info.accountId, some row.accountAlias, row.platform, mode⟩

theorem callerOf_cases {acc : Access} (h : callerOf hash db acc auth = some caller) :
    ∃ info, lookup hash db (bearerKey auth) = some info ∧ CallerIs db acc info caller := by
  obtain ⟨info, hlookup, hcaller⟩ := Option.bind_eq_some_iff.mp h
  refine ⟨info, hlookup, ?_⟩
  unfold callerFor at hcaller
  split at hcaller
  · rename_i hscope
    obtain rfl := Option.some.inj hcaller
    exact .owner hscope
  · rename_i hscope
    obtain ⟨row, hfilter, hmap⟩ := Option.bind_eq_some_iff.mp hcaller
    obtain ⟨hrow, henabled⟩ := Option.filter_eq_some_iff.mp hfilter
    obtain ⟨mode, hmode, rfl⟩ := Option.map_eq_some_iff.mp hmap
    refine .account ?_ row hrow henabled mode hmode
    cases hinfo : info.scope with
    | account => rfl
    | owner => exact absurd hinfo hscope

theorem row_of_bind {info : KeyInfo} {row : Account}
    (hrow : info.accountId.bind (byKey Account.id db.accounts) = some row) :
    row ∈ db.accounts ∧ info.accountId = some row.id := by
  obtain ⟨accountId, hid, hfound⟩ := Option.bind_eq_some_iff.mp hrow
  obtain ⟨hmem, hkey⟩ := byKey_some hfound
  exact ⟨hmem, by rw [hid, hkey]⟩

/-! ## The decision -/

/-- The legacy guards of the account admit a write to the chat. -/
def Admits (acc : Access) (accountId : Nat) (chat : Option Value) : Prop :=
  ∀ guards, acc.guards accountId = some guards →
    (∀ chats v, guards.writeChatIds = some chats → chat = some v → ∃ n ∈ chats, v.asInt = some n) ∧
      ∀ rate, guards.writeRatePerHour = some rate → (acc.writesLastHour accountId : Int) < rate

theorem check_cases (guards : LegacyGuards) (n : Nat) (chat : Option Int) :
    guards.check n chat = allow ∨ (guards.check n chat).allowed = false := by
  have hrate : guards.rate n = allow ∨ (guards.rate n).allowed = false := by
    unfold LegacyGuards.rate
    split
    · split
      · exact .inr rfl
      · exact .inl rfl
    · exact .inl rfl
  unfold LegacyGuards.check
  split
  · split
    · exact hrate
    · exact .inr rfl
  · exact hrate

/-- An allowed decision says nothing else. -/
theorem authorize_eq_allow {acc : Access} {ctx : AuthContext} {tool : Tool} {chat : Option Int} {isWrite : Bool}
    (h : (authorize acc ctx tool chat isWrite).allowed = true) : authorize acc ctx tool chat isWrite = allow := by
  have hcases : authorize acc ctx tool chat isWrite = allow ∨
      (authorize acc ctx tool chat isWrite).allowed = false := by
    unfold authorize
    split
    · simp only
      split
      · exact .inr rfl
      · split
        · exact .inr rfl
        · split
          · exact .inl rfl
          · split
            · exact check_cases _ _ _
            · exact .inl rfl
    · exact .inl rfl
  refine hcases.resolve_right fun hfalse => ?_
  rw [hfalse] at h
  cases h

theorem rate_allowed {guards : LegacyGuards} {n : Nat} (h : (guards.rate n).allowed = true) {rate : Int}
    (hrate : guards.writeRatePerHour = some rate) : (n : Int) < rate := by
  unfold LegacyGuards.rate at h
  rw [hrate] at h
  by_contra hle
  simp only [if_pos (not_lt.mp hle)] at h
  cases h

theorem check_allowed {guards : LegacyGuards} {n : Nat} {chat : Option Int}
    (h : (guards.check n chat).allowed = true) :
    (guards.rate n).allowed = true ∧
      ∀ chats c, guards.writeChatIds = some chats → chat = some c → c ∈ chats := by
  unfold LegacyGuards.check at h
  split at h
  · rename_i c chats hchats
    split at h
    · rename_i hmem
      refine ⟨h, fun chats' c' hchats' hc => ?_⟩
      obtain rfl := Option.some.inj (hchats.symm.trans hchats')
      obtain rfl := Option.some.inj hc
      exact hmem
    · cases h
  · rename_i hnot
    exact ⟨h, fun chats c hchats hc => absurd hchats (hnot c chats hc)⟩

/-- What an allowed messenger write has behind it. -/
theorem authorize_guards {acc : Access} {ctx : AuthContext} {tool : Tool} {chat : Option Int} {accountId : Nat}
    (haccount : ctx.accountId = some accountId) (htool : tool ∈ writeMessengerTools)
    (h : (authorize acc ctx tool chat true).allowed = true) {guards : LegacyGuards}
    (hguards : acc.guards accountId = some guards) :
    (guards.check (acc.writesLastHour accountId) chat).allowed = true := by
  unfold authorize at h
  rw [haccount] at h
  simp only [hguards] at h
  split at h
  · cases h
  · split at h
    · cases h
    · exact h

/-- **The decision with the chat of the agent.** -/
theorem authorizeChat_allowed {chat : Option Value} {accountId : Nat} (haccount : caller.accountId = some accountId)
    (htool : tool.route ∈ writeMessengerTools) (h : (authorizeChat env caller tool chat).allowed = true) :
    env.acc.Permits accountId tool.route ∧ Admits env.acc accountId chat := by
  have hwrite : tool.isWrite = true := decide_eq_true htool
  have hctx : (contextOf caller).accountId = some accountId := haccount
  unfold authorizeChat at h
  simp only [hwrite] at h
  split at h
  · -- no chat
    refine ⟨authorize_write hctx h, fun guards hguards => ?_⟩
    obtain ⟨hrate, -⟩ := check_allowed (authorize_guards hctx htool h hguards)
    exact ⟨fun _ _ _ hchat => (nomatch hchat), fun rate => rate_allowed hrate⟩
  · rename_i v
    split at h
    · rename_i n hn
      refine ⟨authorize_write hctx h, fun guards hguards => ?_⟩
      obtain ⟨hrate, hchats⟩ := check_allowed (authorize_guards hctx htool h hguards)
      refine ⟨fun chats v' hlist hchat => ?_, fun rate => rate_allowed hrate⟩
      obtain rfl := Option.some.inj hchat
      exact ⟨n, hchats chats n hlist rfl, hn⟩
    · split at h
      · cases h
      · -- a chat that equals no integer: there is no list
        rename_i hrefused
        refine ⟨authorize_write hctx h, fun guards hguards => ?_⟩
        obtain ⟨hrate, -⟩ := check_allowed (authorize_guards hctx htool h hguards)
        refine ⟨fun chats v' hlist _ => ?_, fun rate => rate_allowed hrate⟩
        exfalso
        refine hrefused ⟨?_, trivial, ?_⟩
        · rw [authorize_eq_allow h]
          decide
        · simp [listsChats, haccount, hguards, hlist]

/-! ## What the catalog says -/

/-- The route is one of the contacts base. -/
def isPeople (r : Route Convertor Tool) : Bool := r.template.take peopleBase.length == literals peopleBase

theorem ownerTools_people : ∀ tool ∈ ownerTools, supported tool .telegram = true ∧
    tool.executed ∉ writeMessengerTools ∧ ∀ r ∈ apiTable, r.name = tool.executed → isPeople r = true := by
  decide +kernel

/-- A tool of an account: served by its platform, and a write only with `rw`. -/
theorem visible_account {scheduled : Bool} (h : tool ∈ visible scheduled caller) (hcaller : caller.owner = false) :
    tool ∈ accountTools ++ rwTools ∧ supported tool caller.platform = true ∧
      (tool.isWrite = true → caller.mode = .rw) := by
  unfold visible at h
  rw [hcaller, if_neg Bool.false_ne_true] at h
  obtain ⟨hmem, hkept⟩ := List.mem_filter.mp h
  obtain ⟨hsupported, -⟩ := Bool.and_eq_true_iff.mp hkept
  split at hmem
  · obtain ⟨hmem, hread⟩ := List.mem_filter.mp hmem
    refine ⟨List.mem_append_left _ hmem, hsupported, fun hwrite => ?_⟩
    rw [hwrite] at hread
    cases hread
  · rename_i hmode
    exact ⟨hmem, hsupported, fun _ => not_not.mp hmode⟩

theorem visible_owner {scheduled : Bool} (h : tool ∈ visible scheduled caller) (hcaller : caller.owner = true) :
    tool ∈ ownerTools := by
  unfold visible at h
  rwa [if_pos hcaller] at h

/-- What runs is what the tool is authorized for, or a read. -/
theorem route_of_executed (h : tool.executed ∈ writeMessengerTools) : tool.executed = tool.route := by
  unfold McpTool.executed at h ⊢
  split
  · rename_i call hhandler
    rw [hhandler] at h
    have hread : Tool.getSingleMessage ∉ writeMessengerTools := by decide
    exact absurd h hread
  · rfl

/-! ## Confinement -/

/-- A call that ran a route: what let it, and what it ran. -/
structure Executed (hash : String → String) (db : Db) (env : Env) (auth : Option String) (name : String)
    (arguments : Args)
    (caller : Caller) (out : Outcome) (e : Execution) (info : KeyInfo) (tool : McpTool) (args : Args) (row : AuditRow)
    (call : Rest) : Prop where
  key       : lookup hash db (bearerKey auth) = some info
  who       : CallerIs db env.acc info caller
  allowed   : Allowed env caller name arguments tool args
  audits    : out.audits = [row]
  row       : row.tool = .route tool.route ∧ row.accountId = caller.accountId ∧
    row.chatId = (chatOf args).bind Value.int?
  calls     : tool.handler.call = some call
  runs      : Runs env caller args call e
  supported : supported tool caller.platform = true
  own       : e.route.name = tool.executed

theorem executed_cases (hcaller : callerOf hash db env.acc auth = some caller)
    (h : callTool env caller name arguments = some out) (he : out.executed = some e) :
    ∃ info tool args row call, Executed hash db env auth name arguments caller out e info tool args row call := by
  obtain ⟨info, hkey, hwho⟩ := callerOf_cases hcaller
  cases callTool_cases h with
  | stopped row haudits hstatus hexecuted =>
      rw [hexecuted] at he
      cases he
  | ran tool args row hallowed haudits hname hwrite haccount hchat hexecuted =>
      obtain ⟨call, hcall, hruns⟩ := run_executed (hexecuted.symm.trans he)
      have htool := mem_allTools_of_visible hallowed.visible
      have hsupported : supported tool caller.platform = true := by
        cases hwho with
        | owner hscope => exact (ownerTools_people tool (visible_owner hallowed.visible rfl)).1
        | account => exact (visible_account hallowed.visible rfl).2.1
      refine ⟨info, tool, args, row, call, hkey, hwho, hallowed, haudits, ⟨hname, haccount, hchat⟩, hcall, hruns,
        hsupported, ?_⟩
      -- the path is one segment for each part, or nothing is found
      rcases find_cases htool hcall hsupported hallowed.coerced hallowed.valid hruns.format with
        ⟨r, hfind, hr⟩ | ⟨-, hnone⟩
      · rw [hruns.found] at hfind
        rw [Option.some.inj hfind]
        exact hr
      · rw [hruns.found] at hnone
        cases hnone

/-- A messenger write that ran: the account is `rw`, and what it asked for was allowed. -/
theorem Executed.writes {row : AuditRow} {call : Rest} {info : KeyInfo} {accountId : Nat}
    (h : Executed hash db env auth name arguments caller out e info tool args row call)
    (hid : e.accountId = some accountId) (hmessenger : e.route.name ∈ writeMessengerTools) :
    env.acc.accountMode accountId = some .rw ∧ env.acc.Permits accountId e.route.name ∧
      Admits env.acc accountId (chatOf args) := by
  have hroute : tool.executed = tool.route := route_of_executed (h.own ▸ hmessenger)
  have hisWrite : tool.route ∈ writeMessengerTools := by
    rw [← hroute, ← h.own]
    exact hmessenger
  have hid' : caller.accountId = some accountId := h.runs.account.1.symm.trans hid
  rw [h.own, hroute]
  refine ⟨?_, authorizeChat_allowed hid' hisWrite h.allowed.decision⟩
  cases h.who with
  | owner => cases hid'
  | account _ a hrow henabled mode hmode =>
      obtain rfl : mode = .rw := (visible_account h.allowed.visible rfl).2.2 (decide_eq_true hisWrite)
      obtain ⟨-, ha⟩ := row_of_bind hrow
      obtain rfl := Option.some.inj (ha.symm.trans hid')
      exact hmode

/-- Whole floats as integers; nothing else occurs. -/
def sampleTexts : Texts where
  textOf
    | .scalar (.float (.finite q _)) => (toString q.num).toList
    | _ => []
  whole q _ _ := isNumber_toString q.num

/-- Every route answers 200. -/
def sampleEnv : Env where
  scheduled  := true
  texts      := sampleTexts
  validator  := typeValidator
  complaint  := fun _ _ => "invalid"
  acc        := borisAccess
  form       := fun _ _ _ => .ok []
  newUpload  := fun _ => .error (.tool "FILE_LINK_SECRET is not configured")
  mediaLink  := fun _ _ v => .ok v
  answer     := fun _ => ⟨200, .dict []⟩
  dumps      := fun _ => "null"
  str        := fun _ => ""
  digest     := fun _ => some ""
  refusal    := fun _ _ _ => ""
  lookups    := true
  takes      := fun _ => true

def sampleArgs : Args := [("chat_id", .scalar (.str "-100200")), ("message_id", .int 7)]

/-- The messenger's side took it. -/
def Success (env : Env) (e : Execution) : Prop := 200 ≤ (env.answer e).status ∧ (env.answer e).status < 300

theorem restCall_ok {method : String} {path : List (List Char)} {sent : Sent} :
    (∃ v, (restCall env caller method path sent).2 = .ok v) ↔
      ∃ e, (restCall env caller method path sent).1 = some e ∧ Success env e := by
  unfold restCall
  cases hfind : find caller.platform method (fullPath caller.platform path) with
  | none => simp
  | some route =>
      simp only [Option.some.injEq, exists_eq_left', Success]
      split
      · rename_i hok
        exact ⟨fun _ => hok, fun _ => ⟨_, rfl⟩⟩
      · rename_i hnot
        exact ⟨fun ⟨v, hv⟩ => (nomatch hv), fun hok => absurd hok hnot⟩

/-- A call succeeds exactly when its route ran and answered so. -/
theorem runCall_ok {call : Rest} {sent : Except Failure Sent} :
    (∃ v, (runCall env caller args call sent).2 = .ok v) ↔
      ∃ e, (runCall env caller args call sent).1 = some e ∧ Success env e := by
  unfold runCall
  split
  · simp
  · split
    · simp
    · exact restCall_ok

/-- The writes: a plain call, or one with files; and `create_upload`, which has the name of one. -/
theorem allTools_writes : ∀ tool ∈ allTools, tool.isWrite = true → tool.name ≠ "create_upload" →
    (match tool.handler with | .rest _ | .files _ => true | _ => false) = true := by
  decide +kernel

theorem run_ok (htool : tool ∈ allTools) (hwrite : tool.isWrite = true) (hname : tool.name ≠ "create_upload") :
    (∃ v, (tool.run env caller args).2 = .ok v) ↔ ∃ e, (tool.run env caller args).1 = some e ∧ Success env e := by
  have hkind := allTools_writes tool htool hwrite hname
  unfold McpTool.run
  cases hhandler : tool.handler with
  | rest call => exact runCall_ok
  | files call => exact runCall_ok
  | media call =>
      rw [hhandler] at hkind
      cases hkind
  | personAccounts call =>
      rw [hhandler] at hkind
      cases hkind
  | createUpload =>
      rw [hhandler] at hkind
      cases hkind

/-- Names are keys among the visible tools. -/
theorem find_visible {scheduled : Bool} (h : tool ∈ visible scheduled caller) :
    (visible scheduled caller).find? (fun t => t.name = tool.name) = some tool := by
  cases hfind : (visible scheduled caller).find? fun t => t.name = tool.name with
  | none =>
      have hnone := List.find?_eq_none.mp hfind tool h
      simp at hnone
  | some tool' =>
      have hmem := mem_allTools_of_visible (List.mem_of_find?_eq_some hfind)
      have hname : tool'.name = tool.name := by simpa using List.find?_some hfind
      rw [List.inj_on_of_nodup_map allTools_nodup hmem (mem_allTools_of_visible h) hname]

theorem targetOf_eq_none :
    targetOf args = none ↔ given "user_id" args = none ∧ firstItem (Dict.get "user_ids" args) = none := by
  unfold targetOf
  cases given "user_id" args with
  | none => simp
  | some user => simp

/-- How an exception leaves a call before a row is handed to the audit: `int` does not read an id with too many digits;
    or the arguments are valid, and the lookups of `authorize` fail, or `user_ids` is of no type with items while there
    is no `user_id`, or the digest of a write cannot be made. -/
inductive Leaves (env : Env) (caller : Caller) (arguments : Args) (tool : McpTool) : Prop
  | unread {kind text : String} (hcoerced : coerceIds arguments tool.schema = .error (.crash kind text))
      (hlong : HasLongId tool.schema.properties arguments)
  | valid (args : Args) (hcoerced : coerceIds arguments tool.schema = .ok args)
      (hvalid : env.validator.accepts tool args = true)
      (hraises : decides env caller tool = false ∨
        (given "user_id" args = none ∧ firstItem (Dict.get "user_ids" args) = none) ∨
        tool.isWrite = true ∧ env.digest args = none)

theorem digestOf_eq_none : digestOf env tool args = none ↔ tool.isWrite = true ∧ env.digest args = none := by
  unfold digestOf
  split
  · rename_i hwrite
    simp [hwrite]
  · rename_i hread
    simp [hread]

theorem callTool_eq_none : callTool env caller name arguments = none ↔
    ∃ tool ∈ visible env.scheduled caller, tool.name = name ∧ Leaves env caller arguments tool := by
  constructor
  · intro h
    unfold callTool at h
    split at h
    · cases h
    · rename_i tool hfind
      refine ⟨tool, List.mem_of_find?_eq_some hfind, by simpa using List.find?_some hfind, ?_⟩
      split at h
      · cases h
      · rename_i hcoerced
        exact .unread hcoerced (coerceIds_crash tool.schema.hnodup hcoerced)
      · rename_i args hcoerced
        split at h
        · cases h
        · rename_i hvalid
          refine .valid args hcoerced (by simpa using hvalid) ?_
          split at h
          · rename_i hlookups
            exact .inl hlookups
          · right
            cases htarget : targetOf args with
            | none => exact .inl (targetOf_eq_none.mp htarget)
            | some target =>
                rw [htarget] at h
                exact .inr (digestOf_eq_none.mp (Option.map_eq_none_iff.mp h))
  · rintro ⟨tool, hvisible, rfl, hleaves⟩
    unfold callTool
    rw [find_visible hvisible]
    cases hleaves with
    | unread hcoerced => simp only [hcoerced]
    | valid args hcoerced hvalid hraises =>
        simp only [hcoerced, hvalid, Bool.true_eq_false, if_false]
        rcases hraises with hlookups | htarget | hdigest
        · rw [if_pos hlookups]
        · rw [targetOf_eq_none.mpr htarget]
          exact ite_self _
        · rw [digestOf_eq_none.mpr hdigest]
          split
          · rfl
          · exact Option.bind_eq_none_iff.mpr fun _ _ => rfl

theorem logged_of_audits {row : AuditRow} (h : out.audits = [row]) : out.logged env = [row].filter env.takes := by
  unfold Outcome.logged writeAuditLog
  rw [h]
  cases htakes : env.takes row <;> simp [htakes]

/-- **The audit.** A call hands one row of its caller's account to the audit, and the log has it unless the database
    refuses it; a denied call did nothing, and for a messenger write the row says `ok` exactly when the route ran and
    answered so. The calls that hand none over are those of `Leaves`. -/
theorem callTool_audited (env : Env) (caller : Caller) (name : String) (arguments : Args) :
    (∀ out, callTool env caller name arguments = some out →
      ∃ row, out.audits = [row] ∧ out.logged env = [row].filter env.takes ∧ row.accountId = caller.accountId ∧
        (row.status = .denied → out.executed = none) ∧
        (row.isWrite = true → name ≠ "create_upload" →
          (row.status = .ok ↔ ∃ e, out.executed = some e ∧ Success env e))) ∧
    (callTool env caller name arguments = none ↔
      ∃ tool ∈ visible env.scheduled caller, tool.name = name ∧ Leaves env caller arguments tool) := by
  constructor
  · intro out h
    cases callTool_cases h with
    | stopped row haudits hstatus hexecuted haccount =>
        refine ⟨row, haudits, logged_of_audits haudits, haccount, fun _ => hexecuted,
          fun _ _ => ⟨fun hok => absurd hok hstatus, ?_⟩⟩
        rintro ⟨e, he, -⟩
        rw [hexecuted] at he
        cases he
    | ran tool args row hallowed haudits hname hwrite haccount hchat hexecuted hstatus =>
        refine ⟨row, haudits, logged_of_audits haudits, haccount, fun hdenied => ?_, fun hisWrite hnot => ?_⟩
        · rcases hstatus with ⟨hok, -⟩ | ⟨herror, -⟩
          · rw [hok] at hdenied
            cases hdenied
          · rw [herror] at hdenied
            cases hdenied
        · rw [hexecuted, ← run_ok (mem_allTools_of_visible hallowed.visible) (hwrite ▸ hisWrite)
            (hallowed.name ▸ hnot)]
          rcases hstatus with ⟨hok, hresult⟩ | ⟨herror, f, hresult⟩
          · exact ⟨fun _ => hresult, fun _ => hok⟩
          · rw [herror, hresult]
            exact ⟨fun h => (nomatch h), fun ⟨v, hv⟩ => (nomatch hv)⟩
  · exact callTool_eq_none

end MyPerson.Mcp
