import Mathlib.Data.List.DropRight
import MyPerson.Authz.Caches
import MyPerson.Authz.Dispatch
import MyPerson.Authz.Policy

/-!
# `Authz.Chain` — the middlewares in front of the routes

Authentication, `admin_auth`, `resolve_alias`, `platform_dispatch` and `tool_authz`, in this order, each one
reading and writing fields of `request.state`. The caches are taken to be up to date: keys and aliases come
from the tables.

## Contents
- `HttpRequest`, `RequestState`, `Response`; `HostNamed`, what is taken of Starlette;
- the five middlewares;
- `handle`, the chain; `served`, the route behind it.
-/

namespace MyPerson.Authz

open Lib
open WriteLimits (Platform)

/-! ## Requests -/

structure HttpRequest where
  method  : String
  /-- The decoded path of the scope. -/
  path    : Path
  /-- By lower-case name. -/
  headers : String → Option String
  query   : String → Option String
  /-- `request.url.path` for a path of the scope: Starlette parses it with the scheme and the `Host` header. -/
  urlOf   : Path → Path

/-- `request.url.path`. -/
def HttpRequest.url (req : HttpRequest) : Path := req.urlOf req.path

/-- The `Host` header names a host, so `request.url.path` is what the URL has behind it. -/
def HttpRequest.HostNamed (req : HttpRequest) : Prop := ∀ path, req.urlOf path = urlPath path

/-- The settings that the middlewares read. -/
structure Settings where
  apiKey              : String
  legacyApiKeyEnabled : Bool
  requireAccount      : Bool
  adminApiKey         : String

/-- `request.state`. -/
structure RequestState where
  isAdminPath    : Bool := false
  apiKey         : Option KeyInfo := none
  legacyKey      : Bool := false
  owner          : Bool := false
  /-- Not set, or the alias. -/
  sessionAlias   : Option (Option String) := none
  accountId      : Option Nat := none
  platform       : Platform := .telegram
  implicitWork   : Bool := false
  forcedToolName : Option Tool := none
  maxRewritten   : Bool := false
  /-- `none` is `"unknown"`. -/
  toolName       : Option Tool := none
  toolIsWrite    : Bool := false

inductive Response
  | detail (status : Nat) (text : String)
  | error (status : Nat) (text : String)
  | notSupported (tool : Tool) (platform : Platform) (sessionAlias : Option String)
  | refused (ctx : AuthContext) (tool : Tool) (decision : Decision)

/-! ## Authentication -/

def ownerPrefix : String := "/api/v1/people"

def publicPaths : List String :=
  ["/api/v1/healthz", "/api/v1/readyz", "/docs", "/openapi.json", "/redoc"]

def selfAuthPrefixes : List String := ["/mcp", "/api/v1/files/", "/api/v1/uploads/"]

def isPublicPath (path : Path) : Bool := publicPaths.any fun p => p.toList == path

def isSelfAuthPath (path : Path) : Bool :=
  path == "/mcp".toList || selfAuthPrefixes.any fun p => p.toList.isPrefixOf path

/-- White space of the Latin-1 texts that header values are. -/
def isSpace (c : Char) : Bool :=
  (9 ≤ c.toNat && c.toNat ≤ 13) || (28 ≤ c.toNat && c.toNat ≤ 32) || c.toNat == 0x85 || c.toNat == 0xa0

/-- `str.strip`. -/
def strip (text : List Char) : List Char := (text.dropWhile isSpace).rdropWhile isSpace

/-- `x or None`. -/
def nonEmpty (text : Option String) : Option String := text.filter fun x => x != ""

/-- `_presented_key`: the key, and whether it comes from the query string. -/
def presentedKey (req : HttpRequest) : Option String × Bool :=
  let auth := ((req.headers "authorization").getD "").toList
  if (auth.take 7).map Char.toLower = "bearer ".toList then
    (nonEmpty (some (String.ofList (strip (auth.drop 7)))), false)
  else match nonEmpty (req.headers "x-api-key") with
    | some header => (some header, false)
    | none => (req.query "api_key", true)

/-- `keys.lookup`, past its cache; `hash` is the SHA-256 of `hash_key`. -/
def lookup (hash : String → String) (db : Db) (key : Option String) : Option KeyInfo :=
  (nonEmpty key).bind fun key => db.load (hash key)

/-- The key of the request: per-account and owner keys only in a header. -/
def keyOf (hash : String → String) (db : Db) (req : HttpRequest) : Option KeyInfo :=
  if (presentedKey req).2 then none else lookup hash db (presentedKey req).1

def isSkipped (path : Path) : Bool := isPublicPath path || isAdminPath path || isSelfAuthPath path

def authenticate (cfg : Settings) (hash : String → String) (db : Db) (req : HttpRequest) (st : RequestState) :
    Except Response RequestState :=
  if isSkipped req.url then .ok st
  else match keyOf hash db req with
    | some info =>
        if info.scope = .owner ∧ isUnder ownerPrefix req.url = false then
          .error (.detail 403 "owner key: contacts endpoints only")
        else if info.scope = .account ∧ isUnder ownerPrefix req.url = true then
          .error (.detail 403 "account key: no access to contacts")
        else .ok { st with apiKey := some info }
    | none =>
        -- no shared key configured: open
        if cfg.apiKey = "" then .ok { st with apiKey := none }
        else if cfg.legacyApiKeyEnabled = true ∧ (presentedKey req).1 = some cfg.apiKey then
          if isUnder ownerPrefix req.url = true then .error (.detail 403 "contacts need the owner key")
          else .ok { st with apiKey := none, legacyKey := true }
        else .error (.detail 401 "Invalid or missing API key")

/-! ## `admin_auth` -/

def adminAuth (cfg : Settings) (req : HttpRequest) (st : RequestState) : Except Response RequestState :=
  if isAdminPath req.url = false then .ok st
  else if cfg.adminApiKey = "" then .error (.error 503 "admin API key not configured on server")
  else if nonEmpty (req.headers "x-admin-key") ≠ some cfg.adminApiKey then .error (.error 401 "admin key required")
  else .ok { st with isAdminPath := true, sessionAlias := some none, accountId := none, toolIsWrite := true }

/-! ## `resolve_alias` -/

def accountRequired : String := "account required: X-Session-Alias or per-account key"

/-- Python's text of a value that may be `None`. -/
def pyText (text : Option String) : String := text.getD "None"

/-- `X-Session-Alias`, or else `?session=`. -/
def headerAlias (req : HttpRequest) : Option String :=
  (nonEmpty (req.headers "x-session-alias")).or (req.query "session")

/-- The request of a per-account key: the key decides. -/
def resolveKey (req : HttpRequest) (info : KeyInfo) (st : RequestState) : Except Response RequestState :=
  match nonEmpty (headerAlias req) with
  | some name =>
      if some name ≠ info.accountAlias then
        .error (.error 403 ("X-Session-Alias '" ++ name ++ "' does not match the key's account '" ++
          pyText info.accountAlias ++ "'"))
      else .ok (keyState info st)
  | none => .ok (keyState info st)
where
  keyState (info : KeyInfo) (st : RequestState) : RequestState :=
    { st with
      sessionAlias := some info.accountAlias
      accountId := info.accountId
      platform := info.platform.getD .telegram }

/-- The request of the shared key: the alias decides, `'work'` without one. -/
def resolveName (cfg : Settings) (db : Db) (req : HttpRequest) (st : RequestState) : Except Response RequestState :=
  let unnamed := (headerAlias req).isNone && (apiPrefix ++ "/").toList.isPrefixOf req.url
  if unnamed = true ∧ cfg.requireAccount = true then .error (.detail 400 accountRequired)
  else
    let name := (nonEmpty (headerAlias req)).getD "work"
    match db.resolveAliasFromDb name with
    | none => .error (.error 404 ("Session alias '" ++ name ++ "' not registered or disabled"))
    | some (accountId, platform) =>
        .ok { st with
          implicitWork := unnamed
          sessionAlias := some (some name)
          accountId := some accountId
          platform := platform }

def resolveAlias (cfg : Settings) (db : Db) (req : HttpRequest) (st : RequestState) : Except Response RequestState :=
  if st.isAdminPath then .ok st
  else if isSelfAuthPath req.url then
    .ok { st with sessionAlias := some none, accountId := none, platform := .telegram }
  else if skipPaths.any fun p => p.toList == req.url then
    .ok { st with sessionAlias := some (some "work"), accountId := none, platform := .telegram }
  else match st.apiKey with
    | some info =>
        if info.scope = .owner then
          .ok { st with
            owner := true
            sessionAlias := some (some "owner")
            accountId := none
            platform := .telegram }
        else resolveKey req info st
    | none => resolveName cfg db req st

/-! ## `platform_dispatch` -/

def dispatch (req : HttpRequest) (st : RequestState) : Except Response (HttpRequest × RequestState) :=
  if st.isAdminPath then .ok (req, st)
  else match dispatchAt st.platform.text req.method req.path req.url with
    | .passed => .ok (req, st)
    | .notFound => .error (.detail 404 "Not Found")
    | .notSupported tool => .error (.notSupported tool st.platform (st.sessionAlias.getD none))
    | .rewritten forced newPath =>
        .ok ({ req with path := newPath }, { st with forcedToolName := some forced, maxRewritten := true })

/-! ## `tool_authz` -/

/-- `request_context`. -/
def requestContext (st : RequestState) : AuthContext :=
  ⟨st.accountId, st.sessionAlias.getD (some "work"), st.platform, st.owner⟩

def toolAuthz (acc : Access) (req : HttpRequest) (st : RequestState) : Except Response RequestState :=
  if st.isAdminPath then .ok { st with toolName := resolveIn routeTable req.method req.path }
  else
    let toolName := st.forcedToolName.or (resolveIn routeTable req.method req.path)
    let st := { st with toolName := toolName, toolIsWrite := false }
    match toolName with
    | none => .ok st
    | some tool =>
        if tool ∉ readOnlyTools ++ writeTools then .ok st
        else match toolIsWrite tool with
          | none => .ok st
          | some isWrite =>
              let st := { st with toolIsWrite := isWrite }
              let decision := authorize acc (requestContext st) tool none isWrite
              if decision.allowed then .ok st else .error (.refused (requestContext st) tool decision)

/-! ## The chain -/

def handle (cfg : Settings) (hash : String → String) (db : Db) (acc : Access) (req : HttpRequest) :
    Except Response (HttpRequest × RequestState) := do
  let st ← authenticate cfg hash db req {}
  let st ← adminAuth cfg req st
  let st ← resolveAlias cfg db req st
  let (req, st) ← dispatch req st
  let st ← toolAuthz acc req st
  return (req, st)

/-- The routes that FastAPI adds, and the probes of `app/main.py`. -/
def otherRoutes : List (Route Convertor (Option Tool)) :=
  [⟨["GET"], ["", "openapi.json"], none⟩, ⟨["GET"], ["", "docs"], none⟩,
   ⟨["GET"], ["", "docs", "oauth2-redirect"], none⟩, ⟨["GET"], ["", "redoc"], none⟩,
   ⟨["GET"], ["", "api", "v1", "healthz"], none⟩, ⟨["GET"], ["", "api", "v1", "readyz"], none⟩]

/-- The routes of the application, but for `/mcp`. -/
def appRoutes : List (Route Convertor (Option Tool)) :=
  routeTable.map (fun r => ⟨r.methods, r.template, some r.name⟩) ++ otherRoutes

/-- The template starts with the segments. -/
def startsWith (base : List String) (r : Route Convertor (Option Tool)) : Bool :=
  r.template.take base.length == literals base

/-- A request behind the middlewares, at its route. -/
structure Served where
  req   : HttpRequest
  state : RequestState
  route : Route Convertor (Option Tool)

/-- The route a request reaches; the MAX router wants a rewritten request (`require_max_rewrite`). -/
def served (cfg : Settings) (hash : String → String) (db : Db) (acc : Access) (req : HttpRequest) : Option Served :=
  match handle cfg hash db acc req with
  | .error _ => none
  | .ok (req, st) =>
      (appRoutes.find? fun r => r.matches Convertor.accepts req.method (segments req.path)).bind fun route =>
        if startsWith maxBase route = true ∧ st.maxRewritten = false then none else some ⟨req, st, route⟩

end MyPerson.Authz
