import Mathlib.Data.List.TakeWhile
import MyPerson.Authz.Routes

/-!
# `Authz.Dispatch` — is the authorized tool the executed tool?

`platform_dispatch_middleware` of `app/authz/middleware.py`. A request of a MAX alias is authorized
under the name its path has in the route table, and executed on a rewritten path in the MAX router.
The name is looked up for the decoded path as a whole; the rewritten path is made of
`request.url.path`, which ends before the first `?` or `#` of the decoded path and has lost its tabs and
line breaks.

The two tables agree on every path (`api_resolves_shared`, from a check of all pairs of templates), so
the whole question is whether those two forms of the path name the same route.

## Contents
- `dispatchAt`, `platformDispatch`, and `Dispatch.Agrees`: what is executed is what was authorized;
- the two tables under one prefix;
- `dispatch_agrees_iff`, and the request that fails (`dispatch_agrees_fails`).
-/

namespace MyPerson.Authz

open Lib

/-! ## The middleware -/

/-- A decoded path. -/
abbrev Path := List Char

def apiPrefix : String := "/api/v1"
def maxInternalPrefix : String := "/api/v1/_max"

/-- `urlsplit` drops tabs and line breaks. -/
def urlKeeps (c : Char) : Bool := c != '\t' && c != '\r' && c != '\n'

/-- `request.url.path` of the decoded scope path: the URL that is parsed is scheme, host and path, and the host is
    one. -/
def urlPath (path : Path) : Path := (path.takeWhile fun c => c != '?' && c != '#').filter urlKeeps

/-- Neither cut off nor dropped. -/
def urlPlain (c : Char) : Bool := c != '?' && c != '#' && urlKeeps c

theorem urlPath_append {pre : Path} (h : pre.all urlPlain = true) (path : Path) :
    urlPath (pre ++ path) = pre ++ urlPath path := by
  have hstop : ∀ c ∈ pre, (c != '?' && c != '#') = true := by
    intro c hc
    have hplain := List.all_eq_true.mp h c hc
    rw [urlPlain, Bool.and_eq_true] at hplain
    exact hplain.1
  have hkeep : ∀ c ∈ pre, urlKeeps c = true := by
    intro c hc
    have hplain := List.all_eq_true.mp h c hc
    rw [urlPlain, Bool.and_eq_true] at hplain
    exact hplain.2
  unfold urlPath
  rw [List.takeWhile_append_of_pos hstop, List.filter_append, List.filter_eq_self.mpr hkeep]

theorem urlPath_of_plain {path : Path} (h : path.all urlPlain = true) : urlPath path = path := by
  have happ := urlPath_append h []
  rw [List.append_nil] at happ
  rw [happ]
  exact List.append_nil path

/-- `path == p or path.startswith(p + "/")`. -/
def isUnder (p : String) (path : Path) : Bool :=
  path == p.toList || (p ++ "/").toList.isPrefixOf path

def skipPaths : List String :=
  ["/api/v1/healthz", "/api/v1/readyz", "/docs", "/openapi.json", "/redoc"]

def adminPrefixes : List String :=
  ["/api/v1/accounts", "/api/v1/admin", "/api/v1/owner-keys", "/api/v1/keys"]

def isAdminPath (path : Path) : Bool := adminPrefixes.any fun p => isUnder p path

/-- `MAX_INTERNAL_PREFIX + path[len(_API_PREFIX):]`. -/
def internalPath (path : Path) : Path :=
  maxInternalPrefix.toList ++ path.drop apiPrefix.toList.length

def maxUnsupportedPath : Path := "/api/v1/_max/_unsupported".toList

/-- `_max_only_tool`. -/
def maxOnlyTool (method : String) (url : Path) : Option Tool :=
  (resolveIn routeTable method (internalPath url)).filter maxOnlyTools.contains

/-- How the request leaves the middleware. -/
inductive Dispatch
  /-- `call_next` on the path as it is. -/
  | passed
  | notFound
  /-- 501 with the tool's name. -/
  | notSupported (tool : Tool)
  /-- `call_next` on a path of the MAX router; `forced_tool_name`. -/
  | rewritten (forced : Tool) (path : Path)
deriving DecidableEq, Repr

/-- The `request.url.path` is one that the middleware looks at. -/
def looksAt (url : Path) : Bool :=
  !isAdminPath url && !isUnder maxInternalPrefix url && (apiPrefix ++ "/").toList.isPrefixOf url &&
    !skipPaths.any fun p => p.toList == url

/-- The middleware, with the path of the scope and `request.url.path`. -/
def dispatchAt (platform method : String) (path url : Path) : Dispatch :=
  if isAdminPath url then .passed
  else if isUnder maxInternalPrefix url then .notFound
  else if !looksAt url then .passed
  else if platform ≠ "max" then
    match maxOnlyTool method url with
    | some tool => .notSupported tool
    | none => .passed
  else
    match (maxOnlyTool method url).or (resolveIn routeTable method path) with
    | none => .notFound
    | some tool =>
        if (resolveIn routeTable method (internalPath url)).isNone then .rewritten tool maxUnsupportedPath
        else .rewritten tool (internalPath url)

def dispatches (path : Path) : Bool := looksAt (urlPath path)

def platformDispatch (platform method : String) (path : Path) : Dispatch :=
  dispatchAt platform method path (urlPath path)

/-- The tool `tool_authz` checks and audits. -/
def authorizedTool (method : String) (path : Path) : Dispatch → Option Tool
  | .rewritten forced _ => some forced
  | _ => resolveIn routeTable method path

/-- A rewritten request runs the route it was authorized for, or the 501 catch-all. -/
def Dispatch.Agrees (d : Dispatch) (method : String) (path : Path) : Prop :=
  match d with
  | .rewritten _ newPath => ∀ tool, resolveIn maxTable method newPath = some tool →
      authorizedTool method path d = some tool ∨ tool = .maxUnsupported
  | _ => True

/-! ## The tables -/

/-- A route of the MAX router that Telegram has, too. -/
def shared (tool : Tool) : Bool := !maxOnlyTools.contains tool && tool != .maxUnsupported

theorem apiTable_under : ∀ r ∈ apiTable, r.under apiBase = true := by decide +kernel

theorem apiTable_other : ∀ r ∈ apiTable, startsOther "_max" (r.template.drop apiBase.length) = true := by
  decide +kernel

/-- **The check of all pairs of templates.** -/
theorem max_covers : covers shared maxTable (apiTable.map fun r => r.remount apiBase.length maxBase)
    = true := by
  decide +kernel

theorem segments_append (pre rest : Path) :
    segments (pre ++ '/' :: rest) = segments pre ++ segments rest :=
  List.splitOn_append_cons_self ..

theorem segments_ne_nil (path : Path) : segments path ≠ [] := List.splitOn_ne_nil _ _

/-- A path of the API, in both forms. -/
theorem segments_api {path : Path} (h : (apiPrefix ++ "/").toList.isPrefixOf path = true) :
    ∃ rest, rest ≠ [] ∧ segments path = apiBase.map String.toList ++ rest ∧
      segments (internalPath path) = maxBase.map String.toList ++ rest := by
  obtain ⟨rest, rfl⟩ := List.isPrefixOf_iff_prefix.mp h
  have happ : (apiPrefix ++ "/").toList ++ rest = apiPrefix.toList ++ '/' :: rest := by
    simp
  refine ⟨segments rest, segments_ne_nil rest, ?_, ?_⟩
  · rw [happ, segments_append]
    congr 1
  · rw [happ, internalPath, List.drop_left, segments_append]
    congr 1

/-- Under the internal prefix only the MAX router has routes. -/
theorem routeTable_internal {path : Path} (h : (apiPrefix ++ "/").toList.isPrefixOf path = true)
    (method : String) :
    resolveIn routeTable method (internalPath path) = resolveIn maxTable method (internalPath path) := by
  obtain ⟨rest, hne, -, hsegs⟩ := segments_api h
  have hnone : resolve Convertor.accepts apiTable method (segments (internalPath path)) = none := by
    apply resolve_eq_none
    intro r hr
    obtain ⟨htake, hdrop⟩ : r.template.take apiBase.length = literals apiBase ∧
        r.template.drop apiBase.length ≠ [] := by
      simpa [Route.under] using apiTable_under r hr
    have hsplit : r.template = literals apiBase ++ r.template.drop apiBase.length := by
      rw [← htake, List.take_append_drop]
    rw [hsegs, hsplit]
    exact (fitsAll_literals apiBase hdrop).trans (fitsAll_startsOther (apiTable_other r hr) hne)
  unfold resolveIn routeTable
  rw [resolve_append, hnone]
  rfl

/-- **The tables agree.** What a path is in the MAX router, as far as Telegram has it, it is in the
    Telegram routers. -/
theorem api_resolves_shared {path : Path} (h : (apiPrefix ++ "/").toList.isPrefixOf path = true)
    {method : String} {tool : Tool} (hmax : resolveIn maxTable method (internalPath path) = some tool)
    (hshared : shared tool = true) : resolveIn routeTable method path = some tool := by
  obtain ⟨rest, -, hapi, hint⟩ := segments_api h
  have hmoved : resolve Convertor.accepts apiTable method (segments path) = some tool := by
    rw [hapi, ← resolve_remount apiTable_under method rest]
    rw [resolveIn, hint] at hmax
    exact resolve_of_covers max_covers hmax hshared
  unfold resolveIn routeTable
  rw [resolve_append, hmoved]
  rfl

/-! ## The main result -/

theorem looksAt_api {url : Path} (h : looksAt url = true) :
    isAdminPath url = false ∧ isUnder maxInternalPrefix url = false ∧
      (apiPrefix ++ "/").toList.isPrefixOf url = true := by
  simp only [looksAt, Bool.and_eq_true, Bool.not_eq_true'] at h
  exact ⟨h.1.1.1, h.1.1.2, h.1.2⟩

/-- Requests of other platforms, and paths the middleware does not look at, are never rewritten. -/
theorem agrees_of_not_dispatched {platform method : String} {path : Path}
    (h : ¬(platform = "max" ∧ dispatches path = true)) :
    (platformDispatch platform method path).Agrees method path := by
  unfold platformDispatch dispatchAt
  split
  · trivial
  · split
    · trivial
    · split
      · trivial
      · rename_i hdisp
        have hlooks : dispatches path = true := by simpa [dispatches] using hdisp
        have hmax : platform ≠ "max" := fun heq => h ⟨heq, hlooks⟩
        rw [if_pos hmax]
        cases maxOnlyTool method (urlPath path) <;> trivial

/-- A request of a MAX alias, in terms of the MAX router alone. -/
theorem platformDispatch_max {method : String} {path : Path} (h : dispatches path = true) :
    platformDispatch "max" method path =
      match ((resolveIn maxTable method (internalPath (urlPath path))).filter
          maxOnlyTools.contains).or (resolveIn routeTable method path) with
      | none => .notFound
      | some tool =>
          if (resolveIn maxTable method (internalPath (urlPath path))).isNone then
            .rewritten tool maxUnsupportedPath
          else .rewritten tool (internalPath (urlPath path)) := by
  obtain ⟨hadmin, hinternal, hapi⟩ := looksAt_api h
  unfold dispatches at h
  unfold platformDispatch dispatchAt maxOnlyTool
  rw [routeTable_internal hapi]
  simp [hadmin, hinternal, h]

theorem maxTable_unsupported : ∀ r ∈ maxTable, r.name = .maxUnsupported ∨
    fitsAll Convertor.accepts r.template (segments maxUnsupportedPath) = false := by
  decide +kernel

/-- The catch-all is all there is at its path. -/
theorem unsupported_resolves {method : String} {tool : Tool}
    (h : resolveIn maxTable method maxUnsupportedPath = some tool) : tool = .maxUnsupported := by
  obtain ⟨r, hr, hfits, -, rfl⟩ := mem_of_resolve Convertor.accepts h
  apply (maxTable_unsupported r hr).resolve_right
  rw [hfits]
  simp

/-- The decoded path as a whole is no route, or the same one as its part before the first `?` or
    `#`, without tabs and line breaks. -/
def SameRoute (method : String) (path : Path) : Prop :=
  resolveIn routeTable method path = none ∨
    resolveIn routeTable method path = resolveIn routeTable method (urlPath path)

/-- The part before the first `?` or `#`, without tabs and line breaks, is a route that both routers have. -/
def InBoth (method : String) (path : Path) : Prop :=
  ∃ tool, resolveIn maxTable method (internalPath (urlPath path)) = some tool ∧ shared tool = true

theorem not_inBoth {method : String} {path : Path} {r : Option Tool}
    (hmax : resolveIn maxTable method (internalPath (urlPath path)) = r)
    (h : ∀ tool, r = some tool → shared tool = false) : ¬InBoth method path := by
  rintro ⟨tool, htool, hshared⟩
  rw [h tool (hmax.symm.trans htool)] at hshared
  cases hshared

/-- **When the authorized tool is the executed tool.** For every platform, method and decoded path: a
    rewritten request runs the route it was authorized for, or the 501 catch-all, if and only if the
    path as a whole and its part before the first `?` or `#`, without tabs and line breaks, are the same
    route, or that part is not a route both routers have. -/
theorem dispatch_agrees_iff (platform method : String) (path : Path) :
    (platformDispatch platform method path).Agrees method path ↔
      (platform = "max" → dispatches path = true → InBoth method path → SameRoute method path) := by
  by_cases hd : platform = "max" ∧ dispatches path = true
  swap
  · exact ⟨fun _ hplat hdisp => (hd ⟨hplat, hdisp⟩).elim, fun _ => agrees_of_not_dispatched hd⟩
  obtain ⟨rfl, hdisp⟩ := hd
  simp only [forall_const, hdisp]
  rw [platformDispatch_max hdisp]
  cases hmax : resolveIn maxTable method (internalPath (urlPath path)) with
  | none =>
      -- no route of the MAX router: the catch-all
      have hno : ¬InBoth method path := not_inBoth hmax fun tool h => by cases h
      refine ⟨fun _ h => (hno h).elim, fun _ => ?_⟩
      cases hapi : resolveIn routeTable method path with
      | none => trivial
      | some tool => exact fun tool' h => Or.inr (unsupported_resolves h)
  | some m =>
      by_cases honly : m ∈ maxOnlyTools
      · -- a MAX-only route: both names are looked up at the same path
        have hno : ¬InBoth method path := not_inBoth hmax fun tool h => by
          cases h
          simp [shared, honly]
        refine ⟨fun _ h => (hno h).elim, fun _ => ?_⟩
        have hforced : (some m).filter maxOnlyTools.contains = some m := by simp [Option.filter, honly]
        rw [hforced]
        exact fun tool h => Or.inl (hmax.symm.trans h)
      · have hforced : (some m).filter maxOnlyTools.contains = none := by simp [Option.filter, honly]
        rw [hforced]
        cases hapi : resolveIn routeTable method path with
        | none => exact ⟨fun _ _ => Or.inl hapi, fun _ => trivial⟩
        | some n =>
            -- authorized as `n`, executed as `m`
            have hagrees : (Dispatch.rewritten n (internalPath (urlPath path))).Agrees method path ↔
                n = m ∨ m = .maxUnsupported := by
              constructor
              · intro h
                exact (h m hmax).imp Option.some.inj id
              · intro h tool htool
                cases hmax.symm.trans htool
                exact h.imp (congrArg some) id
            refine hagrees.trans ?_
            by_cases hunsup : m = .maxUnsupported
            · have hno : ¬InBoth method path := not_inBoth hmax fun tool h => by
                cases h
                simp [shared, hunsup]
              exact ⟨fun _ h => (hno h).elim, fun _ => Or.inr hunsup⟩
            · have hshared : shared m = true := by simp [shared, hunsup, honly]
              have hurl := api_resolves_shared (looksAt_api hdisp).2.2 hmax hshared
              constructor
              · intro h _
                exact Or.inr (by rw [hapi, hurl, h.resolve_right hunsup])
              · intro h
                rcases h ⟨m, hmax, hshared⟩ with hnone | hsame
                · rw [hapi] at hnone
                  cases hnone
                · rw [hapi, hurl] at hsame
                  exact Or.inl (Option.some.inj hsame)

/-- A path without `?`, `#`, tabs and line breaks has one form only. -/
theorem dispatch_agrees_plain (platform method : String) {path : Path} (h : path.all urlPlain = true) :
    (platformDispatch platform method path).Agrees method path := by
  rw [dispatch_agrees_iff]
  intro _ _ _
  exact Or.inr (by rw [urlPath_of_plain h])

/-- A path whose decoded form goes on after a `?`: authorized as `pin_message`, executed as
    `forward_message`. -/
def forwardPath : Path := "/api/v1/messages/forward?/6/pin".toList

theorem dispatch_agrees_fails :
    authorizedTool "POST" forwardPath (platformDispatch "max" "POST" forwardPath) = some .pinMessage ∧
      ¬(platformDispatch "max" "POST" forwardPath).Agrees "POST" forwardPath := by
  have hdispatch : platformDispatch "max" "POST" forwardPath =
      .rewritten .pinMessage "/api/v1/_max/messages/forward".toList := by decide +kernel
  rw [hdispatch]
  refine ⟨rfl, fun h => ?_⟩
  have hforward : resolveIn maxTable "POST" "/api/v1/_max/messages/forward".toList
      = some .forwardMessage := by decide +kernel
  rcases h _ hforward with heq | heq <;> cases heq

end MyPerson.Authz
