import MyPerson.Mcp.Confined

/-!
# `Mcp.AsRest` — a tool call as a REST request

What a tool call runs, a REST request with the same key runs too: the request of the same method and path passes the
middlewares, is authorized under the same name and reaches the same route as the same account. So the tools let an
agent do nothing that the API would refuse it; the other direction fails, since a policy that allows a tool to a
read-only account does not show it.

## Contents
- `restRequest`, the request;
- `offSpecial`: the paths of tools are no special paths;
- what each middleware does with the request; `executed_as_rest`.
-/

namespace MyPerson.Mcp

open Lib Authz
open WriteLimits (Platform)

variable {env : Env} {caller : Caller} {tool : McpTool} {args arguments : Args} {e : Execution} {name : String}
  {hash : String → String} {db : Db} {auth : Option String} {out : Outcome} {info : KeyInfo}

/-! ## The request -/

/-- The public path of the call. -/
def publicPath (e : Execution) : Path := fullPath .telegram e.path

/-- The call as a request: its method and path, the key in the header, no alias, and a `Host` that is one. -/
def restRequest (auth : Option String) (e : Execution) : HttpRequest where
  method  := e.method
  path    := publicPath e
  headers := fun key => if key = "authorization" then auth else none
  query   := fun _ => none
  urlOf   := urlPath

theorem presentedKey_restRequest {key : String} (h : bearerKey auth = some key) :
    presentedKey (restRequest auth e) = (nonEmpty (some key), false) := by
  have hheader : (restRequest auth e).headers "authorization" = auth := rfl
  unfold bearerKey at h
  unfold presentedKey
  rw [hheader]
  simp only at h ⊢
  split at h
  · rename_i hbearer
    rw [if_pos hbearer, Option.some.inj h]
  · cases h

theorem nonEmpty_nonEmpty (text : Option String) : nonEmpty (nonEmpty text) = nonEmpty text := by
  unfold nonEmpty
  rw [Option.filter_filter]
  simp

theorem keyOf_restRequest (h : lookup hash db (bearerKey auth) = some info) :
    keyOf hash db (restRequest auth e) = some info := by
  cases hbearer : bearerKey auth with
  | none =>
      rw [hbearer] at h
      cases h
  | some key =>
      rw [hbearer] at h
      unfold keyOf
      rw [presentedKey_restRequest hbearer, if_neg Bool.false_ne_true]
      unfold lookup at h ⊢
      rwa [nonEmpty_nonEmpty]

/-! ## Paths -/

/-- Neither text starts the other. -/
def clear (pre p : String) : Bool := !p.toList.isPrefixOf pre.toList && !pre.toList.isPrefixOf p.toList

theorem not_prefix_of_clear {pre p : String} {path : Path} (h : clear pre p = true) (hpre : pre.toList <+: path) :
    ¬ p.toList <+: path := by
  obtain ⟨hp, hpre'⟩ := Bool.and_eq_true_iff.mp h
  rw [Bool.not_eq_true', ← Bool.not_eq_true, List.isPrefixOf_iff_prefix] at hp hpre'
  intro hpath
  rcases List.prefix_or_prefix_of_prefix hpath hpre with hle | hle
  · exact hp hle
  · exact hpre' hle

theorem isUnder_of_clear {pre p : String} {path : Path} (h : clear pre p = true) (hpre : pre.toList <+: path) :
    isUnder p path = false := by
  have hnot := not_prefix_of_clear h hpre
  unfold isUnder
  rw [Bool.or_eq_false_iff]
  constructor
  · rw [beq_eq_false_iff_ne]
    rintro rfl
    exact hnot List.prefix_rfl
  · rw [Bool.eq_false_iff]
    intro hslash
    have hlong := List.isPrefixOf_iff_prefix.mp hslash
    rw [String.toList_append] at hlong
    exact hnot ((List.prefix_append _ _).trans hlong)

/-- The text starts no path that the middlewares treat apart. -/
def offSpecial (pre : String) : Bool :=
  (adminPrefixes ++ publicPaths ++ selfAuthPrefixes ++ [maxInternalPrefix]).all (clear pre)

theorem not_special {pre : String} {path : Path} (h : offSpecial pre = true) (hpre : pre.toList <+: path) :
    isSkipped path = false ∧ isAdminPath path = false ∧ isSelfAuthPath path = false ∧
      isUnder maxInternalPrefix path = false ∧ (skipPaths.any fun p => p.toList == path) = false := by
  have hclear : ∀ p ∈ adminPrefixes ++ publicPaths ++ selfAuthPrefixes ++ [maxInternalPrefix], clear pre p = true :=
    List.all_eq_true.mp h
  have hadmin : isAdminPath path = false := by
    unfold isAdminPath
    rw [List.any_eq_false]
    intro p hp
    rw [isUnder_of_clear (hclear p (by simp [hp])) hpre]
    exact Bool.false_ne_true
  have hpublic : (publicPaths.any fun p => p.toList == path) = false := by
    rw [List.any_eq_false]
    intro p hp heq
    have hnot := not_prefix_of_clear (hclear p (by simp [hp])) hpre
    exact hnot (beq_iff_eq.mp heq ▸ List.prefix_rfl)
  have hself : isSelfAuthPath path = false := by
    unfold isSelfAuthPath
    rw [Bool.or_eq_false_iff, List.any_eq_false]
    constructor
    · rw [beq_eq_false_iff_ne]
      rintro rfl
      exact not_prefix_of_clear (hclear "/mcp" (by decide)) hpre List.prefix_rfl
    · intro p hp hleads
      exact not_prefix_of_clear (hclear p (by simp [hp])) hpre (List.isPrefixOf_iff_prefix.mp hleads)
  refine ⟨?_, hadmin, hself, isUnder_of_clear (hclear _ (by simp)) hpre, hpublic⟩
  unfold isSkipped isPublicPath
  rw [hpublic, hadmin, hself]
  rfl

/-- What the public path of a call starts with. -/
def startText (call : Rest) : String :=
  apiPrefix ++ "/" ++ match call.path with
    | .lit text :: _ => text
    | _ => ""

def startsWithText : List (PathPart PathArg) → Bool
  | .lit _ :: _ => true
  | _ => false

/-- **The check of the catalog against the special paths.** -/
theorem allTools_offSpecial : ∀ tool ∈ allTools, (tool.handler.call.all fun call =>
    startsWithText call.path && offSpecial (startText call)) = true := by
  decide +kernel

theorem accountTools_offPeople : ∀ tool ∈ accountTools ++ rwTools, (tool.handler.call.all fun call =>
    clear (startText call) ownerPrefix) = true := by
  decide +kernel

theorem ownerTools_onPeople : ∀ tool ∈ ownerTools, (tool.handler.call.all fun call =>
    startText call = ownerPrefix) = true := by
  decide +kernel

/-- A public path starts with the first segment of the template, as a whole. -/
theorem publicPath_start {call : Rest} (hstart : startsWithText call.path = true)
    (hformat : formatPath env.texts args call.path = .ok e.path) :
    publicPath e = (startText call).toList ∨ ∃ rest, publicPath e = (startText call).toList ++ '/' :: rest := by
  unfold startsWithText at hstart
  unfold startText publicPath fullPath
  cases hpath : call.path with
  | nil =>
      rw [hpath] at hstart
      cases hstart
  | cons part path =>
      rw [hpath] at hstart hformat
      cases part with
      | place arg => cases hstart
      | lit text =>
          obtain ⟨rest, -, hrest⟩ := ok_of_map hformat
          have htext : (apiPrefix ++ "/" ++ text).toList = apiPrefix.toList ++ '/' :: text.toList := by simp
          simp only [htext, hrest]
          cases rest with
          | nil => exact .inl (by simp [joinPath, platformPrefix])
          | cons x xs =>
              right
              refine ⟨joinPath (x :: xs), ?_⟩
              rw [joinPath_cons (List.cons_ne_nil x xs)]
              simp [platformPrefix]

theorem leads_of_start {call : Rest}
    (h : publicPath e = (startText call).toList ∨ ∃ rest, publicPath e = (startText call).toList ++ '/' :: rest) :
    (startText call).toList <+: publicPath e := by
  rcases h with h | ⟨rest, h⟩
  · rw [h]
  · rw [h]
    exact List.prefix_append _ _

theorem isUnder_of_start {p : String} {path : Path}
    (h : path = p.toList ∨ ∃ rest, path = p.toList ++ '/' :: rest) : isUnder p path = true := by
  unfold isUnder
  rw [Bool.or_eq_true, beq_iff_eq, List.isPrefixOf_iff_prefix]
  refine h.imp id ?_
  rintro ⟨rest, rfl⟩
  rw [String.toList_append]
  exact ⟨rest, by simp⟩

/-! ## Up to the account -/

/-- The state of the request behind `resolve_alias`: that of the caller. -/
def callerState (caller : Caller) (info : KeyInfo) : RequestState where
  apiKey       := some info
  owner        := caller.owner
  sessionAlias := some caller.callerAlias
  accountId    := caller.accountId
  platform     := caller.platform

theorem load_row {keyHash : String} {row : Account} (h : db.load keyHash = some info)
    (hrow : info.accountId.bind (byKey Account.id db.accounts) = some row) :
    info.accountAlias = some row.accountAlias ∧ info.platform = some row.platform := by
  unfold Db.load at h
  obtain ⟨key, -, h⟩ := Option.bind_eq_some_iff.mp h
  simp only at h
  split at h
  · cases h
  · cases h
    simp only at hrow ⊢
    rw [hrow]
    exact ⟨rfl, rfl⟩

theorem authenticate_rest (cfg : Settings) {acc : Access} (hkey : keyOf hash db (restRequest auth e) = some info)
    (hwho : CallerIs db acc info caller) (hskip : isSkipped (restRequest auth e).url = false)
    (hpeople : isUnder ownerPrefix (restRequest auth e).url = caller.owner) :
    authenticate cfg hash db (restRequest auth e) {} = .ok { apiKey := some info } := by
  unfold authenticate
  rw [hskip, if_neg Bool.false_ne_true, hkey]
  cases hwho with
  | owner hscope => simp [hscope, hpeople]
  | account hscope row hrow henabled mode hmode => simp [hscope, hpeople]

theorem resolveAlias_rest (cfg : Settings) {acc : Access} (hkey : keyOf hash db (restRequest auth e) = some info)
    (hwho : CallerIs db acc info caller) (hskip : isSkipped (restRequest auth e).url = false) :
    resolveAlias cfg db (restRequest auth e) { apiKey := some info } = .ok (callerState caller info) := by
  rw [resolveAlias_eq hskip rfl]
  cases hwho with
  | owner hscope =>
      simp only [if_pos hscope]
      rfl
  | account hscope row hrow henabled mode hmode =>
      obtain ⟨keyHash, hload⟩ := load_of_keyOf hkey
      obtain ⟨hname, hplatform⟩ := load_row hload hrow
      have hnot : info.scope ≠ .owner := by
        rw [hscope]
        decide
      simp only [if_neg hnot]
      show resolveKey (restRequest auth e) info _ = _
      have halias : nonEmpty (headerAlias (restRequest auth e)) = none := rfl
      unfold resolveKey
      rw [halias]
      simp only [resolveKey.keyState, callerState, hname, hplatform, Option.getD_some]

/-! ## The routes -/

theorem internalPath_public : internalPath (publicPath e) = fullPath .max e.path := by
  unfold internalPath publicPath fullPath
  rw [show platformPrefix .telegram = apiPrefix from rfl, List.drop_left]
  rfl

theorem publicPath_under : (apiPrefix ++ "/").toList.isPrefixOf (publicPath e) = true := by
  rw [List.isPrefixOf_iff_prefix, String.toList_append]
  exact ⟨joinPath e.path, by simp [publicPath, fullPath, platformPrefix]⟩

/-- What a request to the MAX router may be, for a tool that Telegram has, is no tool of MAX alone. -/
theorem allTools_shared : ∀ tool ∈ allTools, supported tool .telegram = true → (tool.handler.call.all fun call =>
    maxTable.all fun r => !r.allows call.method || apartAll argClasses (baseParts .max ++ call.path) r.template ||
      !maxOnlyTools.contains r.name) = true := by
  decide +kernel

/-- In the request's MAX form nothing of the public API is met. -/
theorem apiTable_internal {path : Path} (h : (apiPrefix ++ "/").toList.isPrefixOf path = true) (method : String) :
    apiTable.find? (fun r => r.matches Convertor.accepts method (segments (internalPath path))) = none := by
  obtain ⟨rest, hne, -, hsegs⟩ := segments_api h
  rw [List.find?_eq_none]
  intro r hr hmatches
  obtain ⟨hfits, -⟩ := Bool.and_eq_true_iff.mp hmatches
  obtain ⟨htake, hdrop⟩ : r.template.take apiBase.length = literals apiBase ∧
      r.template.drop apiBase.length ≠ [] := by
    simpa [Route.under] using apiTable_under r hr
  have hsplit : r.template = literals apiBase ++ r.template.drop apiBase.length := by
    rw [← htake, List.take_append_drop]
  rw [hsegs, hsplit, maxBase, List.map_append, List.append_assoc, fitsAll_literals apiBase hdrop] at hfits
  rw [show ["_max"].map String.toList ++ rest = "_max".toList :: rest from rfl,
    fitsAll_startsOther (apiTable_other r hr) hne] at hfits
  cases hfits

/-- The route of the application that a route of the table is. -/
def appRoute (r : Route Convertor Tool) : Route Convertor (Option Tool) := ⟨r.methods, r.template, some r.name⟩

theorem appRoutes_find {r : Route Convertor Tool} {method : String} {segs : List (List Char)}
    (h : routeTable.find? (fun r => r.matches Convertor.accepts method segs) = some r) :
    appRoutes.find? (fun r => r.matches Convertor.accepts method segs) = some (appRoute r) := by
  unfold appRoutes
  rw [List.find?_append, List.find?_map]
  have hsame : ((fun r => Route.matches Convertor.accepts r method segs) ∘ fun r : Route Convertor Tool =>
      (⟨r.methods, r.template, some r.name⟩ : Route Convertor (Option Tool))) =
      fun r => Route.matches Convertor.accepts r method segs := rfl
  rw [hsame, h]
  rfl

theorem apiTable_notMax : ∀ r ∈ apiTable, startsWith maxBase (appRoute r) = false := by
  decide +kernel

/-- No tool is the catch-all. -/
theorem executed_ne_unsupported : ∀ tool ∈ allTools, tool.executed ≠ .maxUnsupported := by
  decide +kernel

/-! ## The decision -/

/-- What the tool call was allowed, the request is allowed, whose chat is not looked at. -/
theorem authorize_rest {acc : Access} {ctx : AuthContext} {route : Tool} {isWrite : Bool} {chat : Option Value}
    (hkind : toolIsWrite route = some isWrite)
    (h : ∀ accountId, ctx.accountId = some accountId → route ∈ writeMessengerTools →
      acc.accountMode accountId = some .rw ∧ acc.Permits accountId route ∧ Admits acc accountId chat) :
    (authorize acc ctx route none isWrite).allowed = true := by
  cases isWrite with
  | false => rfl
  | true =>
      have hmessenger : route ∈ writeMessengerTools := by
        unfold toolIsWrite at hkind
        by_contra hnot
        rw [if_neg hnot] at hkind
        split at hkind <;> cases hkind
      cases haccount : ctx.accountId with
      | none =>
          unfold authorize
          rw [haccount]
          rfl
      | some accountId =>
          obtain ⟨hmode, hpermits, hadmits⟩ := h accountId haccount hmessenger
          have hrw : acc.mode accountId ≠ .ro := by
            unfold Access.mode
            rw [hmode]
            decide
          unfold authorize
          rw [haccount]
          simp only [if_neg hpermits.1, hrw, and_false, if_false, not_true_eq_false, hmessenger]
          cases hguards : acc.guards accountId with
          | none => rfl
          | some guards =>
              obtain ⟨-, hrate⟩ := hadmits guards hguards
              show (guards.rate (acc.writesLastHour accountId)).allowed = true
              unfold LegacyGuards.rate
              cases hlimit : guards.writeRatePerHour with
              | none => rfl
              | some rate =>
                  simp only [if_neg (not_le.mpr (hrate rate hlimit))]
                  rfl

theorem toolAuthz_rest {acc : Access} {req : HttpRequest} {st : RequestState} {route : Tool}
    (hadmin : st.isAdminPath = false)
    (hname : st.forcedToolName.or (resolveIn routeTable req.method req.path) = some route)
    (h : ∀ isWrite, toolIsWrite route = some isWrite →
      (authorize acc (requestContext st) route none isWrite).allowed = true) :
    ∃ isWrite, toolAuthz acc req st = .ok { st with toolName := some route, toolIsWrite := isWrite } := by
  unfold toolAuthz
  rw [hadmin, if_neg Bool.false_ne_true]
  simp only [hname]
  split
  · exact ⟨false, rfl⟩
  · cases hkind : toolIsWrite route with
    | none => exact ⟨false, rfl⟩
    | some isWrite =>
        have hallowed := h isWrite hkind
        unfold requestContext at hallowed ⊢
        simp only [hallowed, if_true]
        exact ⟨isWrite, rfl⟩

/-! ## The dispatch -/

/-- The path of a call is one that the middlewares treat as any other. -/
theorem special_of_executed {row : AuditRow} {call : Rest}
    (h : Executed hash db env auth name arguments caller out e info tool args row call) :
    (publicPath e = (startText call).toList ∨ ∃ rest, publicPath e = (startText call).toList ++ '/' :: rest) ∧
      isSkipped (publicPath e) = false ∧ isAdminPath (publicPath e) = false ∧
      isUnder maxInternalPrefix (publicPath e) = false ∧ (skipPaths.any fun p => p.toList == publicPath e) = false := by
  have hcheck := allTools_offSpecial tool (mem_allTools_of_visible h.allowed.visible)
  rw [h.calls] at hcheck
  obtain ⟨hstart, hoff⟩ := Bool.and_eq_true_iff.mp
    (show (startsWithText call.path && offSpecial (startText call)) = true from hcheck)
  have hpath := publicPath_start hstart h.runs.format
  obtain ⟨hskip, hadmin, -, hinternal, hpaths⟩ := not_special hoff (leads_of_start hpath)
  exact ⟨hpath, hskip, hadmin, hinternal, hpaths⟩

/-- What the path of a call is made of. -/
theorem typed_of_executed {row : AuditRow} {call : Rest}
    (h : Executed hash db env auth name arguments caller out e info tool args row call) :
    call.path.isEmpty = false ∧ call.path.all (partTyped tool) = true ∧ List.Forall₂ FormatsTo call.path e.path := by
  have htyped := allTools_typed tool (mem_allTools_of_visible h.allowed.visible)
  rw [h.calls] at htyped
  obtain ⟨hnonempty, hall⟩ := Bool.and_eq_true_iff.mp (show pathTyped tool call = true from htyped)
  refine ⟨(Bool.not_eq_true' _).mp hnonempty, hall, ?_⟩
  exact formatPath_typed h.allowed.coerced h.allowed.valid hall h.runs.format

theorem path_ne_nil {row : AuditRow} {call : Rest}
    (h : Executed hash db env auth name arguments caller out e info tool args row call) : e.path ≠ [] := by
  obtain ⟨hnonempty, -, hforall⟩ := typed_of_executed h
  intro hnil
  rw [hnil] at hforall
  rw [List.forall₂_nil_right_iff.mp hforall] at hnonempty
  cases hnonempty

theorem people_of_executed {row : AuditRow} {call : Rest}
    (h : Executed hash db env auth name arguments caller out e info tool args row call) :
    isUnder ownerPrefix (publicPath e) = caller.owner := by
  obtain ⟨hpath, -⟩ := special_of_executed h
  have hvisible := h.allowed.visible
  cases h.who with
  | owner =>
      have hcheck := ownerTools_onPeople tool (visible_owner hvisible rfl)
      rw [h.calls] at hcheck
      have hstart : startText call = ownerPrefix := of_decide_eq_true hcheck
      rw [hstart] at hpath
      exact isUnder_of_start hpath
  | account =>
      have hcheck := accountTools_offPeople tool (visible_account hvisible rfl).1
      rw [h.calls] at hcheck
      exact isUnder_of_clear hcheck (leads_of_start hpath)

/-- On Telegram the path is no route of MAX alone. -/
theorem maxOnlyTool_rest {row : AuditRow} {call : Rest}
    (h : Executed hash db env auth name arguments caller out e info tool args row call)
    (hplatform : caller.platform = .telegram) : maxOnlyTool e.method (publicPath e) = none := by
  have htool := mem_allTools_of_visible h.allowed.visible
  have hsupported : supported tool .telegram = true := hplatform ▸ h.supported
  obtain ⟨-, hall, hforall⟩ := typed_of_executed h
  have htext := allTools_text tool htool
  rw [h.calls, hsupported] at htext
  have hone : ∀ x ∈ e.path, OneSegment x := oneSegment_of_not_hasText hforall hall (by simpa using htext)
  have hshared := allTools_shared tool htool hsupported
  rw [h.calls] at hshared
  unfold maxOnlyTool
  rw [routeTable_internal publicPath_under, Option.filter_eq_none_iff]
  intro found hfound honly
  rw [resolveIn, internalPath_public, segments_fullPath .max (path_ne_nil h), flatMap_segments hone,
    h.runs.method] at hfound
  obtain ⟨r, hr, hallows, hapart, rfl⟩ :=
    resolve_mem_of_parts (takes_base .max (takes_of_formatsTo hforall hone)) hfound
  have hcheck := List.all_eq_true.mp hshared r hr
  rw [hallows, hapart, honly] at hcheck
  cases hcheck

theorem dispatches_rest {row : AuditRow} {call : Rest}
    (h : Executed hash db env auth name arguments caller out e info tool args row call)
    (hurl : urlPath (publicPath e) = publicPath e) : dispatches (publicPath e) = true := by
  obtain ⟨-, -, hadmin, hinternal, hpaths⟩ := special_of_executed h
  unfold dispatches looksAt
  rw [hurl, hadmin, hinternal, hpaths, publicPath_under]
  rfl

/-- The request is at the path of the call, in the platform's API, under the name of its route. -/
structure Dispatches (e : Execution) (req req' : HttpRequest) (st st' : RequestState) : Prop where
  path   : req' = { req with path := fullPath e.platform e.path }
  state  : st' = { st with forcedToolName := st'.forcedToolName, maxRewritten := st'.maxRewritten }
  name   : st'.forcedToolName.or (resolveIn routeTable req'.method req'.path) = some e.route.name
  served : startsWith maxBase (appRoute e.route) = true → st'.maxRewritten = true
  route  : routeTable.find? (fun r => r.matches Convertor.accepts req'.method (segments req'.path)) = some e.route

/-- Telegram: the request stays as it is. -/
theorem dispatch_telegram {row : AuditRow} {call : Rest}
    (h : Executed hash db env auth name arguments caller out e info tool args row call)
    (hplatform : caller.platform = .telegram) (hurl : urlPath (publicPath e) = publicPath e) {st : RequestState}
    (hadmin : st.isAdminPath = false) (hforced : st.forcedToolName = none) (hst : st.platform = .telegram) :
    ∃ req' st', dispatch (restRequest auth e) st = .ok (req', st') ∧ Dispatches e (restRequest auth e) req' st st' := by
  obtain ⟨-, -, hadminPath, hinternal, hpaths⟩ := special_of_executed h
  have hpassed : dispatchAt st.platform.text (restRequest auth e).method (restRequest auth e).path
      (restRequest auth e).url = .passed := by
    show dispatchAt st.platform.text e.method (publicPath e) (urlPath (publicPath e)) = .passed
    have hlooks : looksAt (publicPath e) = true := hurl ▸ dispatches_rest h hurl
    unfold dispatchAt
    rw [hurl, hlooks, hadminPath, hinternal, hst, maxOnlyTool_rest h hplatform]
    rfl
  have hfind : apiTable.find? (fun r => r.matches Convertor.accepts e.method (segments (publicPath e))) =
      some e.route := by
    have hfound := h.runs.found
    rw [hplatform, ← h.runs.method] at hfound
    exact hfound
  have hroute : routeTable.find? (fun r => r.matches Convertor.accepts e.method (segments (publicPath e))) =
      some e.route := by
    unfold routeTable
    rw [List.find?_append, hfind]
    rfl
  refine ⟨restRequest auth e, st, ?_, ?_, rfl, ?_, ?_, hroute⟩
  · unfold dispatch
    rw [hadmin, if_neg Bool.false_ne_true, hpassed]
  · rw [h.runs.platform, hplatform]
    rfl
  · rw [hforced]
    show resolveIn routeTable e.method (publicPath e) = _
    unfold resolveIn resolve
    rw [hroute]
    rfl
  · intro hmax
    rw [apiTable_notMax e.route (List.mem_of_find?_eq_some hfind)] at hmax
    cases hmax

/-- MAX: the request goes on at the path of the call, under the name of its route. -/
theorem dispatch_max {row : AuditRow} {call : Rest}
    (h : Executed hash db env auth name arguments caller out e info tool args row call)
    (hplatform : caller.platform = .max) (hurl : urlPath (publicPath e) = publicPath e) {st : RequestState}
    (hadmin : st.isAdminPath = false) (hst : st.platform = .max) :
    ∃ req' st', dispatch (restRequest auth e) st = .ok (req', st') ∧ Dispatches e (restRequest auth e) req' st st' := by
  have hfound := h.runs.found
  rw [hplatform, ← h.runs.method] at hfound
  have hfind : maxTable.find? (fun r => r.matches Convertor.accepts e.method (segments (fullPath .max e.path))) =
      some e.route := hfound
  have hresolve : resolveIn maxTable e.method (internalPath (publicPath e)) = some e.route.name := by
    unfold resolveIn resolve
    rw [internalPath_public, hfind]
    rfl
  have hrewritten : dispatchAt st.platform.text (restRequest auth e).method (restRequest auth e).path
      (restRequest auth e).url = .rewritten e.route.name (fullPath .max e.path) := by
    rw [hst]
    show platformDispatch "max" e.method (publicPath e) = _
    rw [platformDispatch_max (dispatches_rest h hurl), hurl, hresolve, internalPath_public]
    by_cases honly : maxOnlyTools.contains e.route.name = true
    · rw [Option.filter_some, if_pos honly]
      rfl
    · -- a route that both have, by the same name
      have hshared : shared e.route.name = true := by
        have hname : e.route.name ≠ .maxUnsupported := by
          rw [h.own]
          exact executed_ne_unsupported _ (mem_allTools_of_visible h.allowed.visible)
        simpa [shared, hname] using honly
      rw [Option.filter_some, if_neg honly, api_resolves_shared publicPath_under hresolve hshared]
      rfl
  have hroute : routeTable.find? (fun r => r.matches Convertor.accepts e.method (segments (fullPath .max e.path))) =
      some e.route := by
    have hnone := apiTable_internal (publicPath_under (e := e)) e.method
    rw [internalPath_public] at hnone
    unfold routeTable
    rw [List.find?_append, hnone, hfind]
    rfl
  refine ⟨{ restRequest auth e with path := fullPath .max e.path },
    { st with forcedToolName := some e.route.name, maxRewritten := true }, ?_, ?_, rfl, rfl, fun _ => rfl, hroute⟩
  · unfold dispatch
    rw [hadmin, if_neg Bool.false_ne_true, hrewritten]
  · rw [h.runs.platform, hplatform]

/-! ## The main result -/

/-- **A tool call is a REST request.** When a tool call with a key runs a route, the request of its method and public
    path with the same key reaches that route, too, as the same account and under the same name: in the middlewares
    nothing refuses it. The path has to be one that is the same decoded and as a URL. -/
theorem executed_as_rest (cfg : Settings) (hcaller : callerOf hash db env.acc auth = some caller)
    (h : callTool env caller name arguments = some out) (he : out.executed = some e)
    (hplain : (publicPath e).all urlPlain = true) :
    ∃ reached, served cfg hash db env.acc (restRequest auth e) = some reached ∧ reached.route = appRoute e.route ∧
      reached.req = { restRequest auth e with path := fullPath e.platform e.path } ∧
      reached.state.accountId = e.accountId ∧ reached.state.sessionAlias = some e.sessionAlias ∧
      reached.state.platform = e.platform ∧ reached.state.owner = e.owner ∧
      reached.state.toolName = some e.route.name := by
  obtain ⟨info, tool, args, row, call, hexec⟩ := executed_cases hcaller h he
  have hurl : urlPath (publicPath e) = publicPath e := urlPath_of_plain hplain
  have hreq : (restRequest auth e).url = publicPath e := hurl
  obtain ⟨-, hskip, hadminPath, -⟩ := special_of_executed hexec
  rw [← hreq] at hskip hadminPath
  have hkey : keyOf hash db (restRequest auth e) = some info := keyOf_restRequest hexec.key
  have hpeople : isUnder ownerPrefix (restRequest auth e).url = caller.owner := by
    rw [hreq]
    exact people_of_executed hexec
  have hauth := authenticate_rest cfg hkey hexec.who hskip hpeople
  have hadmin : adminAuth cfg (restRequest auth e) { apiKey := some info } = .ok { apiKey := some info } := by
    unfold adminAuth
    rw [if_pos hadminPath]
  have halias := resolveAlias_rest cfg hkey hexec.who hskip
  -- the platform decides where the request goes on
  obtain ⟨req', st', hdispatch, hd⟩ : ∃ req' st', dispatch (restRequest auth e) (callerState caller info) =
      .ok (req', st') ∧ Dispatches e (restRequest auth e) req' (callerState caller info) st' := by
    cases hplatform : caller.platform with
    | telegram => exact dispatch_telegram hexec hplatform hurl rfl rfl hplatform
    | max => exact dispatch_max hexec hplatform hurl rfl hplatform
  have hstate := hd.state
  have hcontext : requestContext st' = ⟨caller.accountId, caller.callerAlias, caller.platform, caller.owner⟩ := by
    rw [hstate]
    rfl
  have hwrites : ∀ accountId, (requestContext st').accountId = some accountId → e.route.name ∈ writeMessengerTools →
      env.acc.accountMode accountId = some .rw ∧ env.acc.Permits accountId e.route.name ∧
        Admits env.acc accountId (chatOf args) := by
    intro accountId hid hmessenger
    rw [hcontext] at hid
    exact hexec.writes (hexec.runs.account.1.trans hid) hmessenger
  have hnotAdmin : st'.isAdminPath = false := by
    rw [hstate]
    rfl
  obtain ⟨isWrite, hauthz⟩ := toolAuthz_rest hnotAdmin hd.name fun isWrite hkind => authorize_rest hkind hwrites
  have hhandle : handle cfg hash db env.acc (restRequest auth e) =
      .ok (req', { st' with toolName := some e.route.name, toolIsWrite := isWrite }) := by
    unfold handle
    simp only [hauth, hadmin, halias, hdispatch, hauthz, bind, Except.bind, pure, Except.pure]
  refine ⟨⟨req', { st' with toolName := some e.route.name, toolIsWrite := isWrite }, appRoute e.route⟩, ?_, rfl,
    hd.path, ?_⟩
  · unfold served
    rw [hhandle]
    simp only [appRoutes_find hd.route, Option.bind_some]
    rw [if_neg]
    rintro ⟨hmax, hnot⟩
    rw [hd.served hmax] at hnot
    cases hnot
  · obtain ⟨haccount, halias', howner⟩ := hexec.runs.account
    rw [hstate, haccount, halias', howner, hexec.runs.platform]
    exact ⟨rfl, rfl, rfl, rfl, rfl⟩

/-- A message is pinned over MAX. -/
theorem executed_as_rest_sample : ∃ e reached,
    served sharedKeySettings id ⟨[borisKey], [borisAccount]⟩ sampleEnv.acc (restRequest (some "Bearer a1") e) =
      some reached ∧ reached.route.name = some .pinMessage ∧ reached.state.accountId = some 2 := by
  have hcaller : callerOf id ⟨[borisKey], [borisAccount]⟩ sampleEnv.acc (some "Bearer a1") =
      some ⟨false, some 2, some "boris", .max, .rw⟩ := by decide +kernel
  have hruns : ((callTool sampleEnv ⟨false, some 2, some "boris", .max, .rw⟩ "pin_message" sampleArgs).bind
      Outcome.executed).any (fun e => (publicPath e).all urlPlain && e.route.name = .pinMessage &&
        e.accountId = some 2) = true := by decide +kernel
  obtain ⟨e, he, hplain⟩ := (Option.any_eq_true _ _).mp hruns
  obtain ⟨out, hout, hexecuted⟩ := Option.bind_eq_some_iff.mp he
  obtain ⟨hplain, hid⟩ := Bool.and_eq_true_iff.mp hplain
  obtain ⟨hplain, hname⟩ := Bool.and_eq_true_iff.mp hplain
  obtain ⟨reached, hserved, hroute, -, haccount, -⟩ :=
    executed_as_rest sharedKeySettings hcaller hout hexecuted hplain
  refine ⟨e, reached, hserved, ?_, haccount.trans (of_decide_eq_true hid)⟩
  rw [hroute, ← of_decide_eq_true hname]
  rfl

end MyPerson.Mcp
