import MyPerson.Lib.Base64
import MyPerson.Lib.FormData
import MyPerson.Lib.JsonText
import MyPerson.WriteLimits.Basic
import Mathlib.Data.Rat.Floor

/-!
# `Files.Links` — the signed links of `app/mcp/files.py`

A token is the JSON of a payload in base64 without its padding, a point, and the hexadecimal digest of that text
under `FILE_LINK_SECRET`. The payload says what the token is for (`k`), the account, the message or the upload, and
when it expires (`x`). HMAC-SHA256 is not modelled: `Env.digest` is any function of the key and the text. Times are
seconds, and `int` of a time is its floor.

`json.loads` of bytes also takes UTF-16 and UTF-32, which `verify` here refuses; the model's numbers have no NaN.

## Contents
- `sign`, `verify`, `fileLink`, `newUpload`, `uploadPath`;
- `verify_sign`: what becomes of a token that was signed, whatever the payload.
-/

namespace MyPerson.Files

open Lib
open FormData (Bytes utf8 ofUtf8)

/-- A `dict` with string keys. -/
abbrev Fields := List (String × Json)

/-- What the module takes from outside. -/
structure Env where
  /-- HMAC-SHA256, of a key and a text. -/
  digest    : Bytes → Bytes → Bytes
  /-- `settings.file_link_secret`. -/
  secret    : String
  /-- `float.__repr__`. -/
  repr      : Rat → List Char
  /-- `float` of the text of a number. -/
  readFloat : List Char → Rat
  /-- `str.isalnum` of a character outside ASCII. -/
  isalnum   : Char → Bool

/-- An exception: a `LinkError` with its text, or one of Python's own. -/
inductive Raised
  | linkError (text : String)
  | typeError
  | valueError
  | attributeError
  | keyError
deriving DecidableEq, Repr

/-- A link lives a quarter of an hour. -/
def linkTtl : Int := 15 * 60

def maxBytes : Nat := 50 * 1024 * 1024

/-- `hexdigest` of a digest. -/
def hexdigest (b : Bytes) : List Char :=
  b.flatMap fun x => [Nat.digitChar (x.toNat / 16), Nat.digitChar (x.toNat % 16)]

section

variable (env : Env)

/-- `_secret`. -/
def secret : Except Raised Bytes :=
  if env.secret = "" then .error (.linkError "FILE_LINK_SECRET is not configured") else .ok (utf8 env.secret)

/-- The text that a payload is signed as. -/
def tokenBody (payload : Fields) : List Char :=
  Base64.strip (Base64.encode (utf8 (String.ofList (JsonText.dumps JsonText.compact env.repr (.obj payload)))))

/-- The token of a text, under a key. -/
def tokenOf (key : Bytes) (body : List Char) : List Char :=
  body ++ '.' :: hexdigest (env.digest key (utf8 (String.ofList body)))

/-- `sign`: the token and when it expires. -/
def sign (payload : Fields) (ttl : Option Int) (now : Rat) : Except Raised (List Char × Int) :=
  let exp := ⌊now⌋ + ttl.getD linkTtl
  match secret env with
  | .error e => .error e
  | .ok key => .ok (tokenOf env key (tokenBody env (Dict.set "x" (.int exp) payload)), exp)

/-- `token.rsplit(".", 1)`, `none` when there is no point. -/
def rsplit (token : List Char) : Option (List Char × List Char) :=
  if '.' ∈ token then some ((token.rdropWhile (· ≠ '.')).dropLast, token.rtakeWhile (· ≠ '.')) else none

/-- `hmac.compare_digest` of two texts. -/
def compareDigest (a b : List Char) : Except Raised Bool :=
  if (a ++ b).all (·.toNat < 128) then .ok (a == b) else .error .typeError

/-- `json.loads(base64.urlsafe_b64decode(body + "=" * (-len(body) % 4)))`. -/
def readBody (body : List Char) : Except Raised Json :=
  match ((Base64.decode (Base64.repad body)).bind ofUtf8).bind fun s => JsonText.loads env.readFloat s.toList with
  | none => .error .valueError
  | some data => .ok data

/-- The value equals that text. -/
def isText (text : String) : Option Json → Bool
  | some (.str s) => s == text
  | _ => false

/-- `value < now`. -/
def isBefore (now : Rat) : Json → Except Raised Bool
  | .int n => .ok (n < now)
  | .real q => .ok (q < now)
  | .bool b => .ok ((if b then 1 else 0) < now)
  | _ => .error .typeError

/-- The checks of `verify` after the signature. -/
def checkData (kind : String) (now : Rat) : Json → Except Raised Fields
  | .obj data =>
      if isText kind (Dict.get "k" data) then
        match Dict.get "x" data with
        | none => .error .keyError
        | some x =>
            match isBefore now x with
            | .error e => .error e
            | .ok true => .error (.linkError "link expired")
            | .ok false => .ok data
      else .error (.linkError "wrong token kind")
  | _ => .error .attributeError

def verify (token : List Char) (kind : String) (now : Rat) : Except Raised Fields :=
  match rsplit token with
  | none => .error (.linkError "malformed token")
  | some (body, mac) =>
      match secret env with
      | .error e => .error e
      | .ok key =>
          match compareDigest mac (hexdigest (env.digest key (utf8 (String.ofList body)))) with
          | .error e => .error e
          | .ok false => .error (.linkError "bad signature")
          | .ok true =>
              match readBody env body with
              | .error e => .error e
              | .ok data => checkData kind now data

/-! ## What is signed -/

def filePayload (accountId chatId messageId index : Int) : Fields :=
  [("k", .str "file"), ("a", .int accountId), ("c", .int chatId), ("m", .int messageId), ("i", .int index)]

def uploadPayload (accountId : Int) (uploadId : String) : Fields :=
  [("k", .str "upload"), ("a", .int accountId), ("u", .str uploadId)]

/-- `baseUrl.rstrip('/')` and the path of a token. -/
def linkUrl (baseUrl path : String) (token : List Char) : List Char :=
  baseUrl.toList.rdropWhile (· = '/') ++ path.toList ++ token

/-- `file_link`: the URL and when it expires. -/
def fileLink (baseUrl : String) (accountId chatId messageId index : Int) (now : Rat) :
    Except Raised (List Char × Int) :=
  match sign env (filePayload accountId chatId messageId index) none now with
  | .error e => .error e
  | .ok (token, exp) => .ok (linkUrl baseUrl "/api/v1/files/" token, exp)

/-- `new_upload`, for the id that `secrets.token_hex(16)` gave: the id, the URL and when it expires. -/
def newUpload (baseUrl : String) (accountId : Int) (uploadId : String) (now : Rat) :
    Except Raised (String × List Char × Int) :=
  match sign env (uploadPayload accountId uploadId) none now with
  | .error e => .error e
  | .ok (token, exp) => .ok (uploadId, linkUrl baseUrl "/api/v1/uploads/" token, exp)

/-- `str.isalnum`. -/
def isAlnum (s : String) : Bool :=
  s ≠ "" && s.toList.all fun c => if c.toNat < 128 then c.isAlphanum else env.isalnum c

/-- `upload_path`: the directory of the account and the name in it. -/
def uploadPath (accountId : Int) (uploadId : String) : Except Raised (Int × String) :=
  if isAlnum env uploadId then .ok (accountId, uploadId) else .error (.linkError "bad upload_id")

end

/-! ## Signed tokens -/

section

variable {env : Env}

theorem mem_hexdigest {b : Bytes} {c : Char} (h : c ∈ hexdigest b) : c ≠ '.' ∧ c.toNat < 128 := by
  have hdigit : ∀ n < 16, Nat.digitChar n ≠ '.' ∧ (Nat.digitChar n).toNat < 128 := by decide
  obtain ⟨x, -, hx⟩ := List.mem_flatMap.mp h
  have hbyte := x.toNat_lt
  simp only [List.mem_cons, List.not_mem_nil, or_false] at hx
  rcases hx with rfl | rfl
  · exact hdigit _ (by omega)
  · exact hdigit _ (by omega)

/-- The last point of a token is the one before the digest. -/
theorem rsplit_append {mac : List Char} (h : '.' ∉ mac) (body : List Char) :
    rsplit (body ++ '.' :: mac) = some (body, mac) := by
  have hmac : ∀ c ∈ mac, decide (c ≠ '.') = true := by
    intro c hc
    refine decide_eq_true ?_
    rintro rfl
    exact h hc
  have hdrop : (body ++ '.' :: mac).rdropWhile (· ≠ '.') = body ++ ['.'] := by
    rw [List.rdropWhile, List.reverse_append, List.reverse_cons, List.append_assoc,
      List.dropWhile_append_of_pos fun c hc => hmac c (List.mem_reverse.mp hc)]
    simp
  have htake : (body ++ '.' :: mac).rtakeWhile (· ≠ '.') = mac := by
    rw [List.rtakeWhile, List.reverse_append, List.reverse_cons, List.append_assoc,
      List.takeWhile_append_of_pos fun c hc => hmac c (List.mem_reverse.mp hc)]
    simp
  rw [rsplit, if_pos (List.mem_append_right _ List.mem_cons_self), hdrop, htake]
  simp

theorem compareDigest_eq {mac : List Char} {b : Bytes} (h : compareDigest mac (hexdigest b) = .ok true) :
    mac = hexdigest b := by
  unfold compareDigest at h
  split at h
  · exact beq_iff_eq.mp (Except.ok.inj h)
  · cases h

theorem compareDigest_self (b : Bytes) : compareDigest (hexdigest b) (hexdigest b) = .ok true := by
  have hascii : (hexdigest b ++ hexdigest b).all (·.toNat < 128) = true := by
    refine List.all_eq_true.mpr fun c hc => decide_eq_true ?_
    exact (List.mem_append.mp hc).elim (fun h => (mem_hexdigest h).2) fun h => (mem_hexdigest h).2
  rw [compareDigest, if_pos hascii, beq_self_eq_true]

/-- What was signed is read back. -/
theorem readBody_tokenBody {payload : Fields} (h : (Json.obj payload).exact = true) :
    readBody env (tokenBody env payload) = .ok (.obj payload) := by
  unfold readBody tokenBody
  rw [Base64.repad_strip, Base64.decode_encode, Option.bind_some, FormData.ofUtf8_utf8, Option.bind_some,
    String.toList_ofList, JsonText.loads_dumps h]

/-- The checks of a token under a valid signature are those of what it says. -/
theorem verify_tokenOf {key : Bytes} (hkey : secret env = .ok key) {payload : Fields}
    (h : (Json.obj payload).exact = true) (kind : String) (now : Rat) :
    verify env (tokenOf env key (tokenBody env payload)) kind now = checkData kind now (.obj payload) := by
  have hsplit : rsplit (tokenOf env key (tokenBody env payload)) = some (tokenBody env payload, _) :=
    rsplit_append (fun hc => (mem_hexdigest hc).1 rfl) _
  rw [verify, hsplit]
  simp only [hkey, compareDigest_self, readBody_tokenBody h]

variable (env) in
theorem secret_cases : secret env = .error (.linkError "FILE_LINK_SECRET is not configured") ∨
    secret env = .ok (utf8 env.secret) := by
  unfold secret
  split
  · exact .inl rfl
  · exact .inr rfl

theorem sign_ok {payload : Fields} {ttl : Option Int} {now : Rat} {token : List Char} {exp : Int}
    (h : sign env payload ttl now = .ok (token, exp)) :
    exp = ⌊now⌋ + ttl.getD linkTtl ∧ secret env = .ok (utf8 env.secret) ∧
      token = tokenOf env (utf8 env.secret) (tokenBody env (Dict.set "x" (.int exp) payload)) := by
  unfold sign at h
  rcases secret_cases env with hsecret | hsecret
  · rw [hsecret] at h
    cases h
  · rw [hsecret] at h
    obtain ⟨rfl, rfl⟩ := Prod.mk.inj (Except.ok.inj h)
    exact ⟨rfl, hsecret, rfl⟩

/-- A whole number of seconds, set in a payload, leaves it readable. -/
theorem exact_set {payload : Fields} (h : (Json.obj payload).exact = true) (k : String) (n : Int) :
    (Json.obj (Dict.set k (.int n) payload)).exact = true := by
  rw [Json.exact, Bool.and_eq_true] at h ⊢
  refine ⟨decide_eq_true (Dict.nodup_set (of_decide_eq_true h.1)), Json.exactFields_of_forall fun f hf => ?_⟩
  rcases Dict.mem_set hf with rfl | hf
  · rfl
  · exact Json.forall_of_exactFields h.2 f hf

/-- **A signed token.** Whatever the payload (whole numbers, no key twice), its token is taken for the payload's own
    kind and for no other, up to and including the second it expires, and gives the payload back with `x`. -/
theorem verify_sign {payload : Fields} {ttl : Option Int} {signedAt : Rat} {token : List Char} {exp : Int}
    (hpayload : (Json.obj payload).exact = true) (h : sign env payload ttl signedAt = .ok (token, exp)) (kind : String)
    (now : Rat) :
    verify env token kind now =
      if isText kind (Dict.get "k" payload) then
        if exp < now then .error (.linkError "link expired") else .ok (Dict.set "x" (.int exp) payload)
      else .error (.linkError "wrong token kind") := by
  obtain ⟨-, hsecret, rfl⟩ := sign_ok h
  have hk : Dict.get "k" (Dict.set "x" (.int exp) payload) = Dict.get "k" payload := by
    rw [Dict.get_set, if_neg (by decide)]
  have hx : Dict.get "x" (Dict.set "x" (.int exp) payload) = some (.int exp) := by
    rw [Dict.get_set, if_pos rfl]
  rw [verify_tokenOf hsecret (exact_set hpayload "x" exp)]
  simp only [checkData, hk, hx, isBefore]
  by_cases hlate : exp < now
  · simp only [hlate, decide_true, if_true]
  · simp only [hlate, decide_false, if_false]

end

/-! ### One key -/

/-- HMAC-SHA256 under the key `files-secret`, of the two texts that are signed below. -/
def sampleDigest (key text : Bytes) : Bytes :=
  if key ≠ utf8 "files-secret" then []
  else if text = utf8 "eyJrIjoiZmlsZSIsImEiOjcsImMiOi0xMDAyMDAsIm0iOjEyLCJpIjowLCJ4IjoxOTAwfQ" then
    [79, 96, 169, 2, 175, 244, 22, 146, 37, 181, 108, 59, 23, 34, 237, 63, 183, 106, 34, 80, 213, 13, 206, 146, 202,
      144, 85, 16, 215, 21, 198, 26]
  else if text = utf8 "eyJrIjoidXBsb2FkIiwiYSI6NywidSI6IjlmM2MiLCJ4IjoxOTAwfQ" then
    [236, 145, 40, 45, 94, 239, 188, 79, 81, 166, 35, 84, 25, 4, 152, 18, 16, 209, 213, 173, 252, 38, 90, 41, 120,
      250, 213, 86, 112, 73, 0, 14]
  else []

def sampleEnv : Env := ⟨sampleDigest, "files-secret", fun _ => [], fun _ => 0, fun _ => false⟩

/-- The token of a message's file, and when it expires. -/
def sampleToken : List Char :=
  ("eyJrIjoiZmlsZSIsImEiOjcsImMiOi0xMDAyMDAsIm0iOjEyLCJpIjowLCJ4IjoxOTAwfQ" ++
    ".4f60a902aff4169225b56c3b1722ed3fb76a2250d50dce92ca905510d715c61a").toList

theorem sign_sample : sign sampleEnv (filePayload 7 (-100200) 12 0) none 1000 = .ok (sampleToken, 1900) := by
  have hexp : ⌊(1000 : Rat)⌋ + (none : Option Int).getD linkTtl = 1900 := by decide +kernel
  have htoken : tokenOf sampleEnv (utf8 "files-secret")
      (tokenBody sampleEnv (Dict.set "x" (.int 1900) (filePayload 7 (-100200) 12 0))) = sampleToken := by decide +kernel
  simp only [sign, hexp]
  exact congrArg (fun token => Except.ok (token, (1900 : Int))) htoken

theorem verify_sign_sample :
    verify sampleEnv sampleToken "file" 1900 =
      if isText "file" (Dict.get "k" (filePayload 7 (-100200) 12 0)) then
        if ((1900 : Int) : Rat) < 1900 then .error (.linkError "link expired")
        else .ok (Dict.set "x" (.int 1900) (filePayload 7 (-100200) 12 0))
      else .error (.linkError "wrong token kind") :=
  verify_sign rfl sign_sample "file" 1900

end MyPerson.Files
