import Mathlib.Data.List.Basic

/-!
# `MaxSession.Store` — stored sessions and the errors MAX answers with

`app/max/store.py` and `app/max/errors.py`. The account's active row of `account_sessions` is one
optional text: `none` when there is no active row. A session text is modelled by what `json.loads`
makes of it (`Raw`), so that `parse_session_json` keeps its checks and their texts.

## Contents
- `isUnauthorized` / `isBanned`, the classification of an `ApiError`;
- `parseSessionJson` / `sessionToJson` and their round trip;
- the two stores of a client: `PgSessionStore` writes the row, `SeededStore` writes it only once it
  is promoted.
-/

namespace MyPerson.MaxSession

/-! ## `app/max/errors.py` -/

def unauthorizedCodes : List String := ["FAIL_LOGIN_TOKEN", "FAIL_LOGOUT_ALL"]

def banWords : List String :=
  ["ban", "banned", "block", "blocked", "suspend", "suspended", "restricted"]

/-- `_texts`: `.error` and `.message`, the empty ones left out. -/
def texts (error message : Option String) : List String :=
  [error, message].filterMap fun t => t.filter (· ≠ "")

def isUnauthorized (error message : Option String) : Bool :=
  unauthorizedCodes.any fun code => (texts error message).contains code

/-- `str.lower` as far as `[a-z]` goes: besides ASCII only these two characters lower to a Latin
    letter. -/
def lowerChar (c : Char) : List Char :=
  if c = '\u212a' then ['k'] else if c = '\u0130' then ['i', '\u0307'] else [c.toLower]

/-- The words of `_WORD_SPLIT.split(text.lower())`. -/
def words (text : String) : List String :=
  ((text.toList.flatMap lowerChar).splitOnP fun c => !('a' ≤ c && c ≤ 'z')).map String.ofList

/-- Whole words only: "unblock" or "banner" is no ban. -/
def isBanned (error message : Option String) : Bool :=
  !isUnauthorized error message &&
    (words (" ".intercalate (texts error message))).any banWords.contains

/-! ## Session texts -/

inductive Transport
  | web | tcp
deriving DecidableEq, Repr

def Transport.text : Transport → String
  | .web => "web"
  | .tcp => "tcp"

/-- `transport in TRANSPORTS`. -/
def Transport.ofText : String → Option Transport
  | "web" => some .web
  | "tcp" => some .tcp
  | _ => none

@[simp] theorem Transport.ofText_text (t : Transport) : Transport.ofText t.text = some t := by
  cases t <;> rfl

/-- PyMax's `SessionInfo`, as far as the stores look into it; `rest` is everything else. -/
structure SessionInfo where
  token    : String
  deviceId : String
  phone    : Option String
  rest     : String
deriving DecidableEq, Repr

/-- What `json.loads` makes of a session text. -/
inductive Raw
  /-- Not JSON. -/
  | broken
  /-- JSON, but not an object. -/
  | other
  /-- An object; `info` is what `SessionInfo.model_validate` makes of its other fields. -/
  | object (v : Option Int) (transport token deviceId : Option String) (info : Except String SessionInfo)

inductive SessionFormatError
  | notJson
  | version
  | unknownTransport (transport : Option String)
  | otherTransport (transport expected : Transport)
  | noToken
  | fields (text : String)
deriving DecidableEq, Repr

def SessionFormatError.text : SessionFormatError → String
  | .notJson => "session is not valid JSON"
  | .version => "unsupported session format version"
  | .unknownTransport none => "unknown transport None"
  | .unknownTransport (some t) => s!"unknown transport '{t}'"
  | .otherTransport t e => s!"session transport '{t.text}' != '{e.text}'"
  | .noToken => "session must contain token and device_id"
  | .fields text => s!"invalid session fields: {text}"

/-- `bool(data.get(key))` of a text field. -/
def truthy (field : Option String) : Bool := (field.filter (· ≠ "")).isSome

def sessionFormatVersion : Int := 1

def parseSessionJson (raw : Raw) (expected : Option Transport) :
    Except SessionFormatError (Transport × SessionInfo) :=
  match raw with
  | .broken => .error .notJson
  | .other => .error .version
  | .object v transport token deviceId info =>
      if v ≠ some sessionFormatVersion then .error .version
      else
        match transport.bind Transport.ofText with
        | none => .error (.unknownTransport transport)
        | some t =>
            match expected.filter (· ≠ t) with
            | some e => .error (.otherTransport t e)
            | none =>
                if !truthy token || !truthy deviceId then .error .noToken
                else
                  match info with
                  | .ok i => .ok (t, i)
                  | .error text => .error (.fields text)

def sessionToJson (info : SessionInfo) (transport : Transport) : Raw :=
  .object (some sessionFormatVersion) (some transport.text) (some info.token) (some info.deviceId)
    (.ok info)

/-- **Round trip.** What is written for a session with a token and a device is read back as it is. -/
theorem parse_sessionToJson (info : SessionInfo) (t : Transport) (expected : Option Transport)
    (hexp : ∀ e, expected = some e → e = t) (htok : info.token ≠ "") (hdev : info.deviceId ≠ "") :
    parseSessionJson (sessionToJson info t) expected = .ok (t, info) := by
  have hfields : (!truthy (some info.token) || !truthy (some info.deviceId)) = false := by
    simp [truthy, Option.filter, htok, hdev]
  unfold parseSessionJson sessionToJson
  cases expected with
  | none => simp [hfields]
  | some e => simp [hfields, hexp e rfl, Option.filter]

/-! ## Stores -/

/-- `load_stored_transport`. -/
def loadStoredTransport (stored : Option Raw) : Option Transport :=
  match stored with
  | none => none
  | some raw =>
      match parseSessionJson raw none with
      | .ok (t, _) => some t
      | .error _ => none

/-- `PgSessionStore.load_session`. -/
def pgLoadSession (t : Transport) (stored : Option Raw) : Option SessionInfo :=
  match stored with
  | none => none
  | some raw =>
      match parseSessionJson raw (some t) with
      | .ok (_, info) => some info
      | .error _ => none

/-- `PgSessionStore.save_session`: the active row, made when there is none. -/
def pgSaveSession (t : Transport) (info : SessionInfo) (_stored : Option Raw) : Option Raw :=
  some (sessionToJson info t)

/-- `PgSessionStore.update_token`. -/
def pgUpdateToken (t : Transport) (old new : String) (stored : Option Raw) : Option Raw :=
  match pgLoadSession t stored with
  | some current =>
      if current.token = old then pgSaveSession t { current with token := new } stored else stored
  | none => stored

/-- `deactivate_session`. -/
def deactivateSession (_stored : Option Raw) : Option Raw := none

/-- `PgSessionStore.delete_session`. -/
def pgDeleteSession (t : Transport) (token : String) (stored : Option Raw) : Option Raw :=
  match pgLoadSession t stored with
  | some info => if info.token = token then deactivateSession stored else stored
  | none => stored

/-- The writing calls a client makes on its store. -/
inductive StoreCall
  | save (info : SessionInfo)
  | updateToken (old new : String)
  | delete (token : String)
deriving DecidableEq, Repr

/-- A `PgSessionStore` call: the active row afterwards. -/
def StoreCall.onPg (call : StoreCall) (t : Transport) (stored : Option Raw) : Option Raw :=
  match call with
  | .save info => pgSaveSession t info stored
  | .updateToken old new => pgUpdateToken t old new stored
  | .delete token => pgDeleteSession t token stored

/-- The in-memory half of a `SeededStore` call. -/
def StoreCall.onSeeded (call : StoreCall) (session : Option SessionInfo) : Option SessionInfo :=
  match call, session with
  | .save info, _ => some info
  | .updateToken _ _, none => none
  | .updateToken old new, some i => if i.token = old then some { i with token := new } else some i
  | .delete _, none => none
  | .delete token, some i => if i.token = token then none else some i

/-- The store object a client was built with. -/
inductive Store
  | pg (transport : Transport)
  /-- The session in memory and, once promoted, the store every write goes through to. -/
  | seeded (session : Option SessionInfo) (target : Option Transport)
deriving DecidableEq, Repr

/-- `isinstance(store, SeededStore)`. -/
def Store.isSeeded : Store → Bool
  | .pg _ => false
  | .seeded _ _ => true

/-- The `PgSessionStore` behind a store. -/
def Store.target? : Store → Option Transport
  | .pg t => some t
  | .seeded _ target => target

/-- One call: the store object and the active row afterwards. -/
def Store.call (store : Store) (call : StoreCall) (stored : Option Raw) : Store × Option Raw :=
  match store with
  | .pg t => (.pg t, call.onPg t stored)
  | .seeded session none => (.seeded (call.onSeeded session) none, stored)
  | .seeded session (some t) => (.seeded (call.onSeeded session) (some t), call.onPg t stored)

/-- `SeededStore.promote`: the active row afterwards. -/
def promoteStored (session : Option SessionInfo) (t : Transport) (stored : Option Raw) : Option Raw :=
  match session with
  | some info => pgSaveSession t info stored
  | none => stored

@[simp] theorem Store.call_target? (store : Store) (c : StoreCall) (stored : Option Raw) :
    (store.call c stored).1.target? = store.target? := by
  cases store with
  | pg t => rfl
  | seeded session target => cases target <;> rfl

end MyPerson.MaxSession
