import MyPerson.Authz.Chain

/-!
# `Authz.Confined` — what a request that reaches a route may do

Every request that reaches a route, outside the admin, self-authenticated and public paths, is confined to
the account and the area of its key, to the API of its platform, and to the writes its account may do. The
middlewares decide by `request.url.path`, the router by the path of the scope; with a `Host` header that names a host,
both start with the same segments when the path is a route (`isUnder_of_route`, `route_of_isUnder`).

## Contents
- prefixes of paths and of templates;
- what each middleware lets through;
- `confinement`.
-/

namespace MyPerson.Authz

open Lib
open WriteLimits (Platform)

variable {cfg : Settings} {hash : String → String} {db : Db} {acc : Access} {req : HttpRequest}
variable {st st' : RequestState} {route : Route Convertor (Option Tool)} {base : List String}

/-! ## Prefixes -/

def peopleBase : List String := apiBase ++ ["people"]

/-- The text of a prefix. -/
def pathText (base : List String) : Path := joinPath (base.map String.toList)

/-- `path == p or path.startswith(p + "/")`, for a prefix given by its segments. -/
def Under (base : List String) (path : Path) : Prop :=
  path = pathText base ∨ ∃ rest, path = pathText base ++ '/' :: rest

theorem under_iff {p : String} (hp : p.toList = pathText base) {path : Path} :
    isUnder p path = true ↔ Under base path := by
  have happ : (p ++ "/").toList = pathText base ++ ['/'] := by
    rw [String.toList_append, hp]
    rfl
  unfold isUnder Under
  rw [Bool.or_eq_true, beq_iff_eq, hp, happ]
  apply or_congr_right
  rw [List.isPrefixOf_iff_prefix]
  constructor
  · rintro ⟨rest, rfl⟩
    exact ⟨rest, by simp⟩
  · rintro ⟨rest, rfl⟩
    exact ⟨rest, by simp⟩

theorem under_max_iff {path : Path} : isUnder maxInternalPrefix path = true ↔ Under maxBase path :=
  under_iff (by decide)

theorem under_people_iff {path : Path} : isUnder ownerPrefix path = true ↔ Under peopleBase path :=
  under_iff (by decide)

/-- In segments. -/
theorem Under.segments {path : Path} (h : Under base path) : segments (pathText base) <+: segments path := by
  rcases h with rfl | ⟨rest, rfl⟩
  · exact List.prefix_rfl
  · rw [segments_append]
    exact List.prefix_append _ _

/-- The literals among the first four segments. -/
def head (r : Route Convertor (Option Tool)) : List String :=
  (r.template.take 4).filterMap fun s =>
    match s with
    | .lit text => some text
    | .param _ => none

/-- Every route starts with literals, in plain characters. -/
def headOk (r : Route Convertor (Option Tool)) : Bool :=
  startsWith (head r) r && !(head r).isEmpty && (pathText (head r)).all urlPlain

theorem headOk_of_mem : ∀ r ∈ appRoutes, headOk r = true := by decide +kernel

/-- A route whose first segments do not go with the prefix does not start with it, nor the other way round. -/
def apart (base : List String) (r : Route Convertor (Option Tool)) : Bool :=
  let own := segments (pathText (head r))
  let other := segments (pathText base)
  !own.isPrefixOf other && !other.isPrefixOf own

theorem people_or_apart : ∀ r ∈ appRoutes, startsWith peopleBase r = true ∨ apart peopleBase r = true := by
  decide +kernel

theorem max_or_apart : ∀ r ∈ appRoutes, startsWith maxBase r = true ∨ apart maxBase r = true := by
  decide +kernel

/-- **A request at a route has a `request.url.path` under the literals of the route.** -/
theorem isUnder_of_route {path : Path} (hne : base ≠ []) (hplain : (pathText base).all urlPlain = true)
    (hstart : startsWith base route = true)
    (hfits : fitsAll Convertor.accepts route.template (segments path) = true) : Under base (urlPath path) := by
  obtain ⟨b, bs, rfl⟩ := List.exists_cons_of_ne_nil hne
  have hsplit : route.template = literals (b :: bs) ++ route.template.drop (b :: bs).length := by
    have htake : route.template.take (b :: bs).length = literals (b :: bs) := by
      simpa [startsWith] using hstart
    rw [← htake, List.take_append_drop]
  rw [hsplit] at hfits
  obtain ⟨tail, hjoin, htail⟩ := path_of_fitsAll b bs hfits
  have hpath : path = pathText (b :: bs) ++ tail := by
    rw [pathText, ← hjoin]
    exact (List.intercalate_splitOn '/').symm
  rw [hpath, urlPath_append hplain]
  rcases htail with rfl | rfl | ⟨rest, rfl⟩
  · exact Or.inl (List.append_nil _)
  · exact Or.inl (List.append_nil _)
  · exact Or.inr ⟨urlPath rest, rfl⟩

/-- **A request at a route is at a route of the area its `request.url.path` is in.** -/
theorem route_of_isUnder {path : Path} (hmem : route ∈ appRoutes)
    (hor : startsWith base route = true ∨ apart base route = true)
    (hfits : fitsAll Convertor.accepts route.template (segments path) = true)
    (hunder : Under base (urlPath path)) : startsWith base route = true := by
  rcases hor with hstart | hapart
  · exact hstart
  · exfalso
    have hok := headOk_of_mem route hmem
    unfold headOk at hok
    rw [Bool.and_eq_true, Bool.and_eq_true] at hok
    obtain ⟨⟨hstart, hne⟩, hplain⟩ := hok
    have hne' : head route ≠ [] := by
      intro h
      rw [h] at hne
      cases hne
    have hown := (isUnder_of_route hne' hplain hstart hfits).segments
    have hother := hunder.segments
    simp only [apart, Bool.and_eq_true, Bool.not_eq_true', ← Bool.not_eq_true, List.isPrefixOf_iff_prefix] at hapart
    rcases List.prefix_or_prefix_of_prefix hown hother with h | h
    · exact hapart.1 h
    · exact hapart.2 h

/-! ## The middlewares -/

theorem ok_of_bind {ε α β : Type} {x : Except ε α} {f : α → Except ε β} {b : β} (h : (x >>= f) = .ok b) :
    ∃ a, x = .ok a ∧ f a = .ok b := by
  cases x with
  | error e => cases h
  | ok a => exact ⟨a, rfl, h⟩

/-- Who is let in: a per-account key outside the contacts, an owner key inside, the shared key outside. -/
inductive Authenticated (cfg : Settings) (hash : String → String) (db : Db) (req : HttpRequest) : RequestState → Prop
  | account (info : KeyInfo) : keyOf hash db req = some info → info.scope = .account →
      isUnder ownerPrefix req.url = false → Authenticated cfg hash db req { apiKey := some info }
  | owner (info : KeyInfo) : keyOf hash db req = some info → info.scope = .owner →
      isUnder ownerPrefix req.url = true → Authenticated cfg hash db req { apiKey := some info }
  | shared : keyOf hash db req = none → (presentedKey req).1 = some cfg.apiKey →
      isUnder ownerPrefix req.url = false → Authenticated cfg hash db req { legacyKey := true }

theorem authenticated (hshared : cfg.apiKey ≠ "") (hskip : isSkipped req.url = false)
    (h : authenticate cfg hash db req {} = .ok st) : Authenticated cfg hash db req st := by
  unfold authenticate at h
  rw [hskip] at h
  simp only [Bool.false_eq_true, if_false] at h
  cases hkey : keyOf hash db req with
  | some info =>
      rw [hkey] at h
      by_cases hpeople : isUnder ownerPrefix req.url = true
      · cases hscope : info.scope with
        | account => simp [hscope, hpeople] at h
        | owner =>
            have hst : st = { apiKey := some info } := by simpa [hscope, hpeople, eq_comm] using h
            rw [hst]
            exact .owner info hkey hscope hpeople
      · rw [Bool.not_eq_true] at hpeople
        cases hscope : info.scope with
        | owner => simp [hscope, hpeople] at h
        | account =>
            have hst : st = { apiKey := some info } := by simpa [hscope, hpeople, eq_comm] using h
            rw [hst]
            exact .account info hkey hscope hpeople
  | none =>
      rw [hkey] at h
      simp only [if_neg hshared] at h
      split at h
      · rename_i hpresented
        split at h
        · cases h
        · rename_i hpeople
          cases h
          exact .shared hkey hpresented.2 (by simpa using hpeople)
      · cases h

theorem adminAuth_ok (hadmin : isAdminPath req.url = false) (h : adminAuth cfg req st = .ok st') : st' = st := by
  unfold adminAuth at h
  rw [if_pos hadmin] at h
  cases h
  rfl

/-- The account of a per-account key. -/
theorem account_of_load {keyHash : String} {info : KeyInfo} (h : db.load keyHash = some info)
    (hscope : info.scope = .account) :
    ∃ account ∈ db.accounts, account.isEnabled = true ∧ info.accountId = some account.id ∧
      info.accountAlias = some account.accountAlias ∧ info.platform = some account.platform := by
  unfold Db.load at h
  obtain ⟨key, -, h⟩ := Option.bind_eq_some_iff.mp h
  by_cases hdisabled : key.scope = .account ∧
      ((key.accountId.bind (byKey Account.id db.accounts)).any Account.isEnabled) = false
  · rw [if_pos hdisabled] at h
    cases h
  · rw [if_neg hdisabled] at h
    cases h
    have hany : (key.accountId.bind (byKey Account.id db.accounts)).any Account.isEnabled = true := by
      rw [← Bool.not_eq_false]
      exact fun hfalse => hdisabled ⟨hscope, hfalse⟩
    obtain ⟨account, hfound, henabled⟩ := Option.any_eq_true _ _ |>.mp hany
    obtain ⟨accountId, hid, hrow⟩ := Option.bind_eq_some_iff.mp hfound
    obtain ⟨hmem, heq⟩ := byKey_some hrow
    refine ⟨account, hmem, henabled, ?_, ?_, ?_⟩
    · show key.accountId = some account.id
      rw [hid, heq]
    · show (key.accountId.bind (byKey Account.id db.accounts)).map Account.accountAlias = _
      rw [hfound]
      rfl
    · show (key.accountId.bind (byKey Account.id db.accounts)).map Account.platform = _
      rw [hfound]
      rfl

theorem load_of_keyOf {info : KeyInfo} (h : keyOf hash db req = some info) :
    ∃ keyHash, db.load keyHash = some info := by
  unfold keyOf lookup at h
  split at h
  · cases h
  · obtain ⟨key, -, hload⟩ := Option.bind_eq_some_iff.mp h
    exact ⟨hash key, hload⟩

theorem not_skipped {path : Path} (h : isSkipped path = false) :
    isAdminPath path = false ∧ isSelfAuthPath path = false ∧ (skipPaths.any fun p => p.toList == path) = false := by
  unfold isSkipped at h
  rw [Bool.or_eq_false_iff, Bool.or_eq_false_iff] at h
  exact ⟨h.1.2, h.2, h.1.1⟩

/-- Outside the special paths the key decides, or the name. -/
theorem resolveAlias_eq (hskip : isSkipped req.url = false) (hadmin : st.isAdminPath = false) :
    resolveAlias cfg db req st =
      match st.apiKey with
      | some info =>
          if info.scope = .owner then
            .ok { st with
              owner := true
              sessionAlias := some (some "owner")
              accountId := none
              platform := .telegram }
          else resolveKey req info st
      | none => resolveName cfg db req st := by
  obtain ⟨-, hself, hpaths⟩ := not_skipped hskip
  unfold resolveAlias
  rw [hadmin, hself, hpaths]
  rfl

/-- **The key decides**, whatever alias the request names. -/
theorem resolveKey_ok {info : KeyInfo} (h : resolveKey req info st = .ok st') :
    st' = resolveKey.keyState info st := by
  unfold resolveKey at h
  split at h
  · split at h <;> cases h
    rfl
  · cases h
    rfl

theorem resolveName_ok (h : resolveName cfg db req st = .ok st') : st'.isAdminPath = st.isAdminPath := by
  unfold resolveName at h
  simp only at h
  split at h
  · cases h
  · split at h
    · cases h
    · cases h
      rfl

/-- The request goes on as it is, or into the MAX router. -/
inductive Dispatched (req : HttpRequest) (st : RequestState) : HttpRequest → RequestState → Prop
  | passed : isUnder maxInternalPrefix req.url = false → (st.platform = .max → looksAt req.url = false) →
      Dispatched req st req st
  | rewritten (forced : Tool) (newPath : Path) : st.platform = .max → looksAt req.url = true →
      newPath = internalPath req.url ∨ newPath = maxUnsupportedPath →
      Dispatched req st { req with path := newPath } { st with forcedToolName := some forced, maxRewritten := true }

theorem dispatched {req' : HttpRequest} (hskip : isSkipped req.url = false) (hadmin : st.isAdminPath = false)
    (h : dispatch req st = .ok (req', st')) : Dispatched req st req' st' := by
  obtain ⟨hpath, -, -⟩ := not_skipped hskip
  unfold dispatch at h
  rw [if_neg (Bool.eq_false_iff.mp hadmin)] at h
  unfold dispatchAt at h
  rw [if_neg (Bool.eq_false_iff.mp hpath)] at h
  by_cases hinternal : isUnder maxInternalPrefix req.url = true
  · rw [if_pos hinternal] at h
    cases h
  · rw [if_neg hinternal] at h
    rw [Bool.not_eq_true] at hinternal
    by_cases hdisp : looksAt req.url = true
    · simp only [hdisp, Bool.not_true, Bool.false_eq_true, if_false] at h
      cases hplat : st.platform with
      | telegram =>
          have htext : st.platform.text ≠ "max" := by
            rw [hplat]
            decide
          rw [if_pos htext] at h
          cases hmax : maxOnlyTool req.method req.url with
          | some tool =>
              rw [hmax] at h
              cases h
          | none =>
              rw [hmax] at h
              cases h
              refine .passed hinternal fun hm => ?_
              rw [hplat] at hm
              cases hm
      | max =>
          have htext : ¬st.platform.text ≠ "max" := by
            rw [hplat]
            decide
          rw [if_neg htext] at h
          cases htool : (maxOnlyTool req.method req.url).or (resolveIn routeTable req.method req.path) with
          | none =>
              rw [htool] at h
              cases h
          | some tool =>
              rw [htool] at h
              simp only at h
              by_cases hnone : (resolveIn routeTable req.method (internalPath req.url)).isNone = true
              · rw [if_pos hnone] at h
                cases h
                exact .rewritten tool _ hplat hdisp (Or.inr rfl)
              · rw [if_neg hnone] at h
                cases h
                exact .rewritten tool _ hplat hdisp (Or.inl rfl)
    · rw [Bool.not_eq_true] at hdisp
      simp only [hdisp, Bool.not_false, if_true] at h
      cases h
      exact .passed hinternal fun _ => hdisp

/-- `tool_authz` sets the tool, and lets an account write only what it may. -/
theorem toolAuthz_ok (hadmin : st.isAdminPath = false) (h : toolAuthz acc req st = .ok st') :
    (∃ tool isWrite, st' = { st with toolName := tool, toolIsWrite := isWrite }) ∧
      ∀ tool ∈ writeMessengerTools, st'.toolName = some tool → ∀ accountId, st'.accountId = some accountId →
        acc.Permits accountId tool := by
  unfold toolAuthz at h
  rw [if_neg (Bool.eq_false_iff.mp hadmin)] at h
  simp only at h
  cases htool : st.forcedToolName.or (resolveIn routeTable req.method req.path) with
  | none =>
      rw [htool] at h
      cases h
      exact ⟨⟨_, _, rfl⟩, nofun⟩
  | some tool =>
      rw [htool] at h
      simp only at h
      have hcatalog : tool ∈ writeMessengerTools → tool ∈ readOnlyTools ++ writeTools := fun hmem =>
        List.mem_append_right _ (writeMessengerTools_subset hmem)
      by_cases hknown : tool ∉ readOnlyTools ++ writeTools
      · rw [if_pos hknown] at h
        cases h
        refine ⟨⟨_, _, rfl⟩, fun tool' hwrite hsame => ?_⟩
        cases hsame
        exact absurd (hcatalog hwrite) hknown
      · rw [if_neg hknown] at h
        cases hisWrite : toolIsWrite tool with
        | none =>
            rw [hisWrite] at h
            cases h
            refine ⟨⟨_, _, rfl⟩, fun tool' hwrite hsame => ?_⟩
            cases hsame
            rw [toolIsWrite_messenger hwrite] at hisWrite
            cases hisWrite
        | some isWrite =>
            rw [hisWrite] at h
            simp only at h
            split at h
            · rename_i hallowed
              cases h
              refine ⟨⟨_, _, rfl⟩, fun tool' hwrite hsame accountId hacc => ?_⟩
              cases hsame
              rw [toolIsWrite_messenger hwrite] at hisWrite
              cases hisWrite
              exact authorize_write hacc hallowed
            · cases h

/-! ## The chain -/

/-- The state of a request whose account is decided. -/
inductive Resolved (cfg : Settings) (hash : String → String) (db : Db) (req : HttpRequest) : RequestState → Prop
  | account (info : KeyInfo) : keyOf hash db req = some info → info.scope = .account →
      isUnder ownerPrefix req.url = false →
      Resolved cfg hash db req (resolveKey.keyState info { apiKey := some info })
  | owner (info : KeyInfo) : keyOf hash db req = some info → info.scope = .owner →
      isUnder ownerPrefix req.url = true →
      Resolved cfg hash db req { apiKey := some info, owner := true, sessionAlias := some (some "owner") }
  | shared (st : RequestState) : keyOf hash db req = none → (presentedKey req).1 = some cfg.apiKey →
      isUnder ownerPrefix req.url = false → st.isAdminPath = false → Resolved cfg hash db req st

theorem resolved (hskip : isSkipped req.url = false) (hauth : Authenticated cfg hash db req st)
    (h : resolveAlias cfg db req st = .ok st') : Resolved cfg hash db req st' := by
  cases hauth with
  | account info hkey hscope hpeople =>
      rw [resolveAlias_eq hskip rfl] at h
      have hne : ¬info.scope = .owner := by
        rw [hscope]
        decide
      simp only [if_neg hne] at h
      rw [resolveKey_ok h]
      exact .account info hkey hscope hpeople
  | owner info hkey hscope hpeople =>
      rw [resolveAlias_eq hskip rfl] at h
      simp only [if_pos hscope] at h
      cases h
      exact .owner info hkey hscope hpeople
  | shared hkey hpresented hpeople =>
      rw [resolveAlias_eq hskip rfl] at h
      exact .shared st' hkey hpresented hpeople (resolveName_ok h)

theorem Resolved.isAdminPath (h : Resolved cfg hash db req st) : st.isAdminPath = false := by
  cases h with
  | account => rfl
  | owner => rfl
  | shared _ _ _ _ hadmin => exact hadmin

/-- What the middlewares make of a request, one after the other. -/
theorem handled {req' : HttpRequest} {final : RequestState} (hshared : cfg.apiKey ≠ "")
    (hskip : isSkipped req.url = false) (h : handle cfg hash db acc req = .ok (req', final)) :
    ∃ second third, Resolved cfg hash db req second ∧ Dispatched req second req' third ∧
      (∃ tool isWrite, final = { third with toolName := tool, toolIsWrite := isWrite }) ∧
        ∀ tool ∈ writeMessengerTools, final.toolName = some tool →
          ∀ accountId, final.accountId = some accountId → acc.Permits accountId tool := by
  unfold handle at h
  obtain ⟨first, hfirst, h₁⟩ := ok_of_bind h
  obtain ⟨_, hst, h₂⟩ := ok_of_bind h₁
  rw [adminAuth_ok (not_skipped hskip).1 hst] at h₂
  obtain ⟨second, hsecond, h₃⟩ := ok_of_bind h₂
  obtain ⟨⟨req₂, third⟩, hthird, h₄⟩ := ok_of_bind h₃
  obtain ⟨fourth, hfourth, heq⟩ := ok_of_bind h₄
  cases heq
  have hresolved := resolved hskip (authenticated hshared hskip hfirst) hsecond
  have hdispatched := dispatched hskip hresolved.isAdminPath hthird
  have hadmin : third.isAdminPath = false := by
    cases hdispatched with
    | passed => exact hresolved.isAdminPath
    | rewritten => exact hresolved.isAdminPath
  exact ⟨second, third, hresolved, hdispatched, toolAuthz_ok hadmin hfourth⟩

/-! ## Confinement -/

/-- What is true of a request at its route. -/
structure Confined (cfg : Settings) (hash : String → String) (db : Db) (acc : Access) (req : HttpRequest)
    (out : Served) : Prop where
  /-- With a per-account key, account, alias and platform are those of the key. -/
  account   : ∀ info, keyOf hash db req = some info → info.scope = .account →
    out.state.accountId = info.accountId ∧ out.state.sessionAlias = some info.accountAlias ∧
      info.platform = some out.state.platform ∧
      ∃ a ∈ db.accounts, a.isEnabled = true ∧ out.state.accountId = some a.id
  owner     : ∀ info, keyOf hash db req = some info → info.scope = .owner → startsWith peopleBase out.route = true
  /-- No other key reaches the contacts; and without a key of its own the request has the shared one. -/
  others    : (∀ info, keyOf hash db req = some info → info.scope = .account) → startsWith peopleBase out.route = false
  shared    : keyOf hash db req = none → (presentedKey req).1 = some cfg.apiKey
  internal  : isUnder maxInternalPrefix req.path = false ∧ isUnder maxInternalPrefix req.url = false
  max       : out.state.platform = .max → startsWith apiBase out.route = true → startsWith maxBase out.route = true
  telegram  : out.state.platform = .telegram → startsWith maxBase out.route = false
  writes    : ∀ tool ∈ writeMessengerTools, out.state.toolName = some tool →
    ∀ accountId, out.state.accountId = some accountId → acc.Permits accountId tool

/-- A route of the API goes on behind `/api/v1`. -/
theorem api_head : ∀ r ∈ appRoutes, startsWith apiBase r = true →
    startsWith (head r) r = true ∧ (head r).isEmpty = false ∧ (pathText (head r)).all urlPlain = true ∧
      (apiPrefix ++ "/").toList.isPrefixOf (pathText (head r)) = true := by
  decide +kernel

/-- A rewritten path is in the MAX router. -/
theorem under_max_of_rewritten {path newPath : Path} (h : (apiPrefix ++ "/").toList.isPrefixOf path = true)
    (hnew : newPath = internalPath path ∨ newPath = maxUnsupportedPath) : Under maxBase (urlPath newPath) := by
  have hplain : (pathText maxBase).all urlPlain = true := by decide
  rcases hnew with rfl | rfl
  · obtain ⟨rest, rfl⟩ := List.isPrefixOf_iff_prefix.mp h
    have hsplit : internalPath ((apiPrefix ++ "/").toList ++ rest) = pathText maxBase ++ '/' :: rest := rfl
    rw [hsplit, urlPath_append hplain]
    exact Or.inr ⟨urlPath rest, rfl⟩
  · exact Or.inr ⟨"_unsupported".toList, by decide⟩

/-- A request of a MAX account at a route of the API was rewritten. -/
theorem looksAt_of_api {path : Path} (hmem : route ∈ appRoutes) (hapi : startsWith apiBase route = true)
    (hfits : fitsAll Convertor.accepts route.template (segments path) = true)
    (hskip : isSkipped (urlPath path) = false) (hinternal : isUnder maxInternalPrefix (urlPath path) = false) :
    looksAt (urlPath path) = true := by
  obtain ⟨hstart, hne, hplain, hunder⟩ := api_head route hmem hapi
  have hne' : head route ≠ [] := by
    intro h
    rw [h] at hne
    cases hne
  obtain ⟨hadmin, -, hpaths⟩ := not_skipped hskip
  have hurl : (apiPrefix ++ "/").toList.isPrefixOf (urlPath path) = true := by
    rw [List.isPrefixOf_iff_prefix] at hunder ⊢
    rcases isUnder_of_route hne' hplain hstart hfits with heq | ⟨rest, heq⟩
    · rw [heq]
      exact hunder
    · rw [heq]
      exact hunder.trans (List.prefix_append _ _)
  unfold looksAt
  rw [hadmin, hinternal, hurl, hpaths]
  rfl

theorem served_inv {out : Served} (h : served cfg hash db acc req = some out) :
    handle cfg hash db acc req = .ok (out.req, out.state) ∧ out.route ∈ appRoutes ∧
      fitsAll Convertor.accepts out.route.template (segments out.req.path) = true := by
  unfold served at h
  cases hhandle : handle cfg hash db acc req with
  | error e =>
      rw [hhandle] at h
      cases h
  | ok pair =>
      rw [hhandle] at h
      obtain ⟨route, hfound, hroute⟩ := Option.bind_eq_some_iff.mp h
      split at hroute
      · cases hroute
      · cases hroute
        have hmatch := List.find?_some hfound
        unfold Route.matches at hmatch
        rw [Bool.and_eq_true] at hmatch
        exact ⟨rfl, List.mem_of_find?_eq_some hfound, hmatch.1⟩

/-- The request is in the API of its platform. -/
theorem Dispatched.area {req' : HttpRequest} (hhost : req.HostNamed) (h : Dispatched req st req' st')
    (hskip : isSkipped req.url = false) (hmem : route ∈ appRoutes)
    (hfits : fitsAll Convertor.accepts route.template (segments req'.path) = true) :
    isUnder maxInternalPrefix req.url = false ∧
      (st.platform = .max → startsWith apiBase route = true → startsWith maxBase route = true) ∧
      (st.platform = .telegram → startsWith maxBase route = false) ∧
      (startsWith peopleBase route = true → isUnder ownerPrefix req.url = true) := by
  have hplainMax : (pathText maxBase).all urlPlain = true := by decide
  have hplainPeople : (pathText peopleBase).all urlPlain = true := by decide
  have hurl : req.url = urlPath req.path := hhost req.path
  cases h with
  | passed hinternal hmax =>
      rw [hurl] at hskip hinternal hmax ⊢
      refine ⟨hinternal, ?_, ?_, ?_⟩
      · intro hplat hapi
        have hdisp := looksAt_of_api hmem hapi hfits hskip hinternal
        rw [hmax hplat] at hdisp
        cases hdisp
      · intro _
        by_contra hstart
        rw [Bool.not_eq_false] at hstart
        have hunder := under_max_iff.mpr (isUnder_of_route (by decide) hplainMax hstart hfits)
        exact Bool.eq_false_iff.mp hinternal hunder
      · intro hstart
        exact under_people_iff.mpr (isUnder_of_route (by decide) hplainPeople hstart hfits)
  | rewritten forced newPath hplat hdisp hnew =>
      obtain ⟨-, hinternal, hapi⟩ := looksAt_api hdisp
      have hstart := route_of_isUnder hmem (max_or_apart route hmem) hfits (under_max_of_rewritten hapi hnew)
      refine ⟨hinternal, fun _ _ => hstart, ?_, ?_⟩
      · intro htelegram
        rw [hplat] at htelegram
        cases htelegram
      · intro hpeople
        -- a template starts with one of the two only
        have hmax : route.template.take maxBase.length = literals maxBase := by
          simpa [startsWith] using hstart
        have hlength : peopleBase.length = maxBase.length := rfl
        have hboth : route.template.take peopleBase.length = literals peopleBase := by
          simpa [startsWith] using hpeople
        rw [hlength, hmax] at hboth
        exact absurd hboth (by decide)

/-- `platform_dispatch` and `tool_authz` leave the account alone. -/
theorem state_of_dispatched {req' : HttpRequest} {final : RequestState} (h : Dispatched req st req' st')
    (hfinal : ∃ tool isWrite, final = { st' with toolName := tool, toolIsWrite := isWrite }) :
    final.accountId = st.accountId ∧ final.sessionAlias = st.sessionAlias ∧ final.platform = st.platform := by
  obtain ⟨tool, isWrite, rfl⟩ := hfinal
  cases h with
  | passed => exact ⟨rfl, rfl, rfl⟩
  | rewritten => exact ⟨rfl, rfl, rfl⟩

theorem path_of_telegram {req' : HttpRequest} (h : Dispatched req st req' st') (hplat : st.platform = .telegram) :
    req'.path = req.path := by
  cases h with
  | passed => rfl
  | rewritten forced newPath hmax =>
      rw [hplat] at hmax
      cases hmax

/-- A path under the internal prefix has a `request.url.path` under it. -/
theorem under_max_url {path : Path} (h : isUnder maxInternalPrefix path = true) :
    isUnder maxInternalPrefix (urlPath path) = true := by
  have hplain : (pathText maxBase).all urlPlain = true := by decide
  rw [under_max_iff] at h ⊢
  rcases h with rfl | ⟨rest, rfl⟩
  · rw [urlPath_of_plain hplain]
    exact Or.inl rfl
  · rw [urlPath_append hplain]
    exact Or.inr ⟨urlPath rest, rfl⟩

/-- **Confinement**: every request that reaches a route, outside the admin, self-authenticated and public
    paths, for every method, path, header set and query, every table of keys and accounts. What `Host` header makes
    `request.url.path` another path is up to Starlette; it is taken to name a host. -/
theorem confinement (cfg : Settings) (hash : String → String) (db : Db) (acc : Access) (req : HttpRequest)
    (out : Served) (hshared : cfg.apiKey ≠ "") (hhost : req.HostNamed) (hskip : isSkipped req.url = false)
    (h : served cfg hash db acc req = some out) : Confined cfg hash db acc req out := by
  obtain ⟨hhandle, hmem, hfits⟩ := served_inv h
  obtain ⟨second, third, hres, hdisp, hfinal, hwrites⟩ := handled hshared hskip hhandle
  obtain ⟨haccount, halias, hplatform⟩ := state_of_dispatched hdisp hfinal
  obtain ⟨hinternal, hmax, htelegram, hpeople⟩ := hdisp.area hhost hskip hmem hfits
  -- what holds whatever the key is
  have hrest : isUnder maxInternalPrefix req.path = false ∧ isUnder maxInternalPrefix req.url = false := by
    refine ⟨?_, hinternal⟩
    rw [Bool.eq_false_iff]
    intro hunder
    have hurl := under_max_url hunder
    rw [← hhost req.path] at hurl
    exact Bool.eq_false_iff.mp hinternal hurl
  rw [← hplatform] at hmax htelegram
  have hnoPeople : isUnder ownerPrefix req.url = false → startsWith peopleBase out.route = false := by
    intro hfalse
    rw [Bool.eq_false_iff]
    exact fun hstart => Bool.eq_false_iff.mp hfalse (hpeople hstart)
  cases hres with
  | account info hkey hscope hurl =>
      obtain ⟨keyHash, hload⟩ := load_of_keyOf hkey
      obtain ⟨a, ha, henabled, hid, haliasOf, hplatformOf⟩ := account_of_load hload hscope
      refine ⟨?_, ?_, fun _ => hnoPeople hurl, ?_, hrest, hmax, htelegram, hwrites⟩
      · intro info' hkey' _
        rw [hkey] at hkey'
        cases hkey'
        refine ⟨haccount, halias, ?_, a, ha, henabled, haccount.trans hid⟩
        rw [hplatform, hplatformOf]
        show some a.platform = some (info.platform.getD .telegram)
        rw [hplatformOf]
        rfl
      · intro info' hkey' howner
        rw [hkey] at hkey'
        cases hkey'
        rw [hscope] at howner
        cases howner
      · intro hnone
        rw [hkey] at hnone
        cases hnone
  | owner info hkey hscope hurl =>
      refine ⟨?_, ?_, ?_, ?_, hrest, hmax, htelegram, hwrites⟩
      · intro info' hkey' haccountScope
        rw [hkey] at hkey'
        cases hkey'
        rw [hscope] at haccountScope
        cases haccountScope
      · intro _ _ _
        have hpath : out.req.path = req.path := path_of_telegram hdisp rfl
        rw [hpath] at hfits
        have hunder := under_people_iff.mp hurl
        rw [show req.url = urlPath req.path from hhost req.path] at hunder
        exact route_of_isUnder hmem (people_or_apart out.route hmem) hfits hunder
      · intro hall
        have haccountScope := hall info hkey
        rw [hscope] at haccountScope
        cases haccountScope
      · intro hnone
        rw [hkey] at hnone
        cases hnone
  | shared st hkey hpresented hurl hadmin =>
      refine ⟨?_, ?_, fun _ => hnoPeople hurl, fun _ => hpresented, hrest, hmax, htelegram, hwrites⟩
      · intro info hkey'
        rw [hkey] at hkey'
        cases hkey'
      · intro info hkey'
        rw [hkey] at hkey'
        cases hkey'

/-- A MAX account that may write, its key, and a request with the key and the alias. -/
def borisAccount : Account := ⟨2, "boris", .max, true⟩
def borisKey : ApiKey := ⟨20, .account, some 2, "a1", false⟩
def borisAccess : Access := ⟨fun _ => some .rw, fun _ _ => none, fun _ => none, fun _ => 0⟩

def borisSends : HttpRequest where
  method := "POST"
  path := "/api/v1/messages".toList
  headers := fun name =>
    if name = "x-api-key" then some "a1" else if name = "x-session-alias" then some "boris" else none
  query := fun _ => none
  urlOf := urlPath

def sharedKeySettings : Settings := ⟨"shared", true, false, "admin"⟩

/-- Boris' request reaches a route of the MAX router, and is confined. -/
theorem confinement_borisSends :
    ∃ out, served sharedKeySettings id ⟨[borisKey], [borisAccount]⟩ borisAccess borisSends = some out ∧
      Confined sharedKeySettings id ⟨[borisKey], [borisAccount]⟩ borisAccess borisSends out := by
  have hserved : (served sharedKeySettings id ⟨[borisKey], [borisAccount]⟩ borisAccess borisSends).isSome = true := by
    decide +kernel
  obtain ⟨out, hout⟩ := Option.isSome_iff_exists.mp hserved
  have hskip : isSkipped borisSends.url = false := by decide +kernel
  exact ⟨out, hout, confinement sharedKeySettings id _ borisAccess borisSends out (by decide) (fun _ => rfl) hskip hout⟩

end MyPerson.Authz
