import MyPerson.Files.Links
import MyPerson.Lib.FileSystem
import MyPerson.Lib.Run

/-!
# `Files.Uploads` — links, uploads and the files under `/tmp/uploads`

`PUT /uploads/{token}` and `GET /files/{token}` of `app/api/files.py`, with `read_upload` and `purge_expired` of
`app/mcp/files.py`. A PUT checks its token, asks the database for the account, opens its file and then takes the body
piece by piece; between these any other request may run, a second PUT of the same token among them. A piece goes into
the buffer of `open(path, "wb")`, which passes some of it on to the file, and all of it on `close`.

`issued` and `Put.body` are for the statements: what has been signed, and what a PUT has read. The record beside a
file is modelled with the fields that are read back; its `at` is not. The clock does not go back, and `token_hex`
does not give an id twice.

## Contents
- `downloadFile`, `readUpload`, `purgeExpired`;
- `State`, `step`.
-/

namespace MyPerson.Files

open Lib
open FormData (Bytes utf8 ofUtf8)
open WriteLimits (Platform)

/-- A name under `/tmp/uploads`: the directory of an account, and the name in it. -/
abbrev Path := Int × String

/-- An enabled account. -/
structure Account where
  sessionAlias : String
  platform     : Platform
deriving DecidableEq, Repr

/-- What was signed: a link to a file, or an upload, of an account. -/
inductive Issued
  | file (accountId chatId messageId index : Int) (signedAt : Rat)
  | upload (accountId : Int) (uploadId : String) (signedAt : Rat)
deriving DecidableEq

def Issued.payload : Issued → Fields
  | .file accountId chatId messageId index _ => filePayload accountId chatId messageId index
  | .upload accountId uploadId _ => uploadPayload accountId uploadId

def Issued.signedAt : Issued → Rat
  | .file _ _ _ _ signedAt => signedAt
  | .upload _ _ signedAt => signedAt

/-- The second in which it expires. -/
def Issued.exp (e : Issued) : Int := ⌊e.signedAt⌋ + linkTtl

/-- The payload as it is signed. -/
def Issued.signed (e : Issued) : Fields := Dict.set "x" (.int e.exp) e.payload

def Issued.token (env : Env) (e : Issued) : List Char := tokenOf env (utf8 env.secret) (tokenBody env e.signed)

/-- A request that ends without what was asked: an `HTTPException`, or another exception. -/
inductive Refusal
  | http (status : Nat) (detail : String)
  | raised (e : Raised)
  | databaseError
deriving DecidableEq, Repr

/-- A `LinkError` of `verify` is answered 403 with its text. -/
def refused : Raised → Refusal
  | .linkError text => .http 403 text
  | e => .raised e

/-- `_account_state`. -/
def accountState (accounts : Int → Option Account) : Json → Except Refusal (Int × Account)
  | .int a =>
      match accounts a with
      | none => .error (.http 403 "account disabled")
      | some account => .ok (a, account)
  | _ => .error .databaseError

/-- `data[key]`. -/
def field (key : String) (data : Fields) : Except Refusal Json :=
  match Dict.get key data with
  | none => .error (.raised .keyError)
  | some v => .ok v

/-- The request that `download_file` forwards: `GET /messages/{chat}/{message}/media` as the account. -/
structure MediaRequest where
  account : Int × Account
  chat    : Json
  message : Json
  /-- The query `index`, for a MAX account. -/
  index   : Option Json
  range   : Option String

/-! ## Reading and purging -/

section

variable (env : Env)

def downloadFile (accounts : Int → Option Account) (now : Rat) (token : List Char) (range : Option String) :
    Except Refusal MediaRequest :=
  match verify env token "file" now with
  | .error e => .error (refused e)
  | .ok data => do
      let state ← accountState accounts (← field "a" data)
      let index := if state.2.platform = .max then some ((Dict.get "i" data).getD (.int 0)) else none
      let chat ← field "c" data
      let message ← field "m" data
      .ok ⟨state, chat, message, index, range⟩

/-- `path.with_suffix(".json")` of an upload. -/
def metaPath (path : Path) : Path := (path.1, path.2 ++ ".json")

/-- `json.loads(meta.read_text())`. -/
def readMeta (content : Bytes) : Except Raised Json :=
  match (ofUtf8 content).bind fun s => JsonText.loads env.readFloat s.toList with
  | none => .error .valueError
  | some info => .ok info

/-- `info[key]`. -/
def infoField (key : String) : Json → Except Raised Json
  | .obj info =>
      match Dict.get key info with
      | none => .error .keyError
      | some v => .ok v
  | _ => .error .typeError

/-- `info["expires_at"] < now`. -/
def metaExpired (now : Rat) (info : Json) : Except Raised Bool :=
  match infoField "expires_at" info with
  | .error e => .error e
  | .ok x => isBefore now x

/-- `read_upload`: the name of the file and its bytes. -/
def readUpload (fs : FileSystem Path) (now : Rat) (accountId : Int) (uploadId : String) :
    Except Raised (Json × Bytes) := do
  let path ← uploadPath env accountId uploadId
  match fs.read path, fs.read (metaPath path) with
  | some content, some record =>
      let info ← readMeta env record
      if ← metaExpired now info then .error (.linkError s!"upload {uploadId} expired")
      else do
        let name ← infoField "file_name" info
        .ok (name, content)
  | _, _ => .error (.linkError s!"upload {uploadId} not found (expired or another account)")

/-- `glob("*/*.json")`. -/
def isMeta (path : Path) : Bool := ".json".toList.isSuffixOf path.2.toList

/-- `meta.with_suffix("")`. -/
def dataPath (path : Path) : Path := (path.1, String.ofList (path.2.toList.take (path.2.length - 5)))

/-- One turn of the loop of `purge_expired`; what it does not catch ends the loop. -/
def purgeOne (now : Rat) (fs : FileSystem Path) (path : Path) : Except Raised (FileSystem Path) :=
  match fs.read path with
  | none => .ok fs
  | some content =>
      match (readMeta env content).bind (metaExpired now) with
      | .ok true => .ok ((fs.unlink (dataPath path)).unlink path)
      | .ok false => .ok fs
      | .error .valueError => .ok fs
      | .error .keyError => .ok fs
      | .error e => .error e

/-- The loop of `purge_expired`: the files it leaves, and what ended it early. -/
def purgeFrom (now : Rat) : List Path → FileSystem Path → FileSystem Path × Option Raised
  | [], fs => (fs, none)
  | path :: paths, fs =>
      match purgeOne env now fs path with
      | .error e => (fs, some e)
      | .ok fs => purgeFrom now paths fs

def purgeExpired (now : Rat) (fs : FileSystem Path) : FileSystem Path × Option Raised :=
  purgeFrom env now ((fs.entries.map Prod.fst).filter isMeta) fs

end

/-! ## The server -/

/-- How far a PUT is. -/
inductive Phase
  /-- The database is asked for the account. -/
  | asking
  /-- The body is read into the file. -/
  | writing (path : Path) (file : Nat)
  | stored (size : Nat)
  | refused (r : Refusal)
  /-- The client has gone. -/
  | gone
deriving DecidableEq

structure Put where
  data    : Fields
  /-- `?name=`. -/
  name    : Option String
  /-- `x-file-name`. -/
  header  : Option String
  phase   : Phase
  size    : Nat
  /-- What `open` has passed on to the file, and what it holds back. -/
  written : Nat
  buffer  : Bytes
  /-- The body read so far. -/
  body    : Bytes

structure State where
  now      : Rat
  issued   : List Issued
  accounts : Int → Option Account
  files    : FileSystem Path
  puts     : List Put

def State.start (now : Rat) (accounts : Int → Option Account) : State := ⟨now, [], accounts, .empty, []⟩

/-- What happens next: the clock, an account enabled or disabled, a link signed, a PUT by its number. -/
inductive Action
  | tick (now : Rat)
  | account (accountId : Int) (account : Option Account)
  | sign (i : Issued)
  | put (token : List Char) (name header : Option String)
  | openFile (i : Nat)
  | chunk (i : Nat) (bytes : Bytes) (flushed : Nat)
  | finish (i : Nat)
  | leave (i : Nat)

/-- `name or request.headers.get("x-file-name") or data["u"]`. -/
def Put.fileName (p : Put) : Json :=
  match p.name.filter (· ≠ ""), p.header.filter (· ≠ "") with
  | some name, _ => .str name
  | none, some header => .str header
  | none, none => (Dict.get "u" p.data).getD .null

/-- The record of an upload. -/
def Put.record (p : Put) : Fields :=
  [("file_name", p.fileName), ("expires_at", (Dict.get "x" p.data).getD .null), ("size", .int p.size)]

section

variable (env : Env)

/-- Where the file of a token goes, once the account is known. -/
def openPath (accounts : Int → Option Account) (data : Fields) : Except Refusal Path := do
  let state ← accountState accounts (← field "a" data)
  match ← field "u" data with
  | .str u =>
      match uploadPath env state.1 u with
      | .error e => .error (.raised e)
      | .ok path => .ok path
  | _ => .error (.raised .attributeError)

def State.setPut (s : State) (i : Nat) (p : Put) : State := { s with puts := s.puts.set i p }

/-- The buffer is passed on to the file. -/
def State.flush (s : State) (p : Put) (file : Nat) : FileSystem Path := s.files.writeAt file p.written p.buffer

/-- The text of a record. -/
def metaText (record : Fields) : Bytes :=
  utf8 (String.ofList (JsonText.dumps JsonText.spaced env.repr (.obj record)))

/-- `out.write` of a piece that fits, of which `open` passes on the first bytes of its buffer. -/
def State.writeChunk (s : State) (i : Nat) (p : Put) (file : Nat) (bytes : Bytes) (flushed : Nat) : State :=
  { s.setPut i { p with
      size := p.size + bytes.length
      written := p.written + ((p.buffer ++ bytes).take flushed).length
      buffer := (p.buffer ++ bytes).drop flushed
      body := p.body ++ bytes } with
    files := s.files.writeAt file p.written ((p.buffer ++ bytes).take flushed) }

/-- The piece with which the body is too large: the file is closed and its name taken away. -/
def State.refuseChunk (s : State) (i : Nat) (p : Put) (path : Path) (file : Nat) (bytes : Bytes) : State :=
  { s.setPut i { p with
      phase := .refused (.http 413 "upload is larger than 50 MB")
      body := p.body ++ bytes } with
    files := (s.flush p file).unlink path }

/-- The end of the body: the file is closed, its record written, and what has expired removed. -/
def State.finish (s : State) (i : Nat) (p : Put) (path : Path) (file : Nat) : State :=
  let purged := purgeExpired env s.now ((s.flush p file).write (metaPath path) (metaText env p.record))
  { s.setPut i { p with
      phase := match purged.2 with
        | none => .stored p.size
        | some e => .refused (.raised e) } with
    files := purged.1 }

/-- `token_hex` has not given this id. -/
def State.isFresh (s : State) (uploadId : String) : Bool :=
  s.issued.all fun
    | .upload _ u _ => u ≠ uploadId
    | .file .. => true

/-- A link is signed with the time of the call. -/
def State.mayIssue (s : State) : Issued → Bool
  | .file _ _ _ _ signedAt => signedAt = s.now
  | .upload _ uploadId signedAt => signedAt = s.now && s.isFresh uploadId

def step (s : State) : Action → Option State
  | .tick now => if s.now ≤ now then some { s with now := now } else none
  | .account a account => some { s with accounts := Function.update s.accounts a account }
  | .sign i => if s.mayIssue i then some { s with issued := s.issued ++ [i] } else none
  | .put token name header =>
      match verify env token "upload" s.now with
      | .error e => some { s with puts := s.puts ++ [⟨[], name, header, .refused (refused e), 0, 0, [], []⟩] }
      | .ok data => some { s with puts := s.puts ++ [⟨data, name, header, .asking, 0, 0, [], []⟩] }
  | .openFile i =>
      match s.puts[i]? with
      | none => none
      | some p =>
          if p.phase = .asking then
            match openPath env s.accounts p.data with
            | .error r => some (s.setPut i { p with phase := .refused r })
            | .ok path =>
                some { s.setPut i { p with phase := .writing path (s.files.create path).1 } with
                  files := (s.files.create path).2 }
          else none
  | .chunk i bytes flushed =>
      match s.puts[i]? with
      | none => none
      | some p =>
          match p.phase with
          | .writing path file =>
              if maxBytes < p.size + bytes.length then some (s.refuseChunk i p path file bytes)
              else some (s.writeChunk i p file bytes flushed)
          | _ => none
  | .finish i =>
      match s.puts[i]? with
      | none => none
      | some p =>
          match p.phase with
          | .writing path file => some (s.finish env i p path file)
          | _ => none
  | .leave i =>
      match s.puts[i]? with
      | none => none
      | some p =>
          match p.phase with
          | .asking => some (s.setPut i { p with phase := .gone })
          | .writing _ file => some { s.setPut i { p with phase := .gone } with files := s.flush p file }
          | _ => none

variable {env} {s t : State} {i : Nat}

/-! ## What a step does -/

theorem step_tick {now : Rat} (h : step env s (.tick now) = some t) : s.now ≤ now ∧ t = { s with now := now } := by
  rw [step] at h
  split at h
  · exact ⟨‹_›, (Option.some.inj h).symm⟩
  · cases h

theorem step_account {a : Int} {account : Option Account} (h : step env s (.account a account) = some t) :
    t = { s with accounts := Function.update s.accounts a account } := (Option.some.inj h).symm

theorem step_sign {e : Issued} (h : step env s (.sign e) = some t) :
    s.mayIssue e = true ∧ t = { s with issued := s.issued ++ [e] } := by
  rw [step] at h
  split at h
  · exact ⟨‹_›, (Option.some.inj h).symm⟩
  · cases h

theorem step_put {token : List Char} {name header : Option String} (h : step env s (.put token name header) = some t) :
    (∃ e, t = { s with puts := s.puts ++ [⟨[], name, header, .refused (refused e), 0, 0, [], []⟩] }) ∨
      ∃ data, verify env token "upload" s.now = .ok data ∧
        t = { s with puts := s.puts ++ [⟨data, name, header, .asking, 0, 0, [], []⟩] } := by
  rw [step] at h
  split at h
  · rename_i e _
    exact .inl ⟨e, (Option.some.inj h).symm⟩
  · rename_i data hdata
    exact .inr ⟨data, hdata, (Option.some.inj h).symm⟩

theorem step_openFile (h : step env s (.openFile i) = some t) :
    ∃ p, s.puts[i]? = some p ∧ p.phase = .asking ∧
      ((∃ r, openPath env s.accounts p.data = .error r ∧ t = s.setPut i { p with phase := .refused r }) ∨
        ∃ path, openPath env s.accounts p.data = .ok path ∧
          t = { s.setPut i { p with phase := .writing path (s.files.create path).1 } with
            files := (s.files.create path).2 }) := by
  rw [step] at h
  split at h
  · cases h
  · rename_i p hp
    split at h
    · rename_i hphase
      refine ⟨p, hp, hphase, ?_⟩
      split at h
      · rename_i r hr
        exact .inl ⟨r, hr, (Option.some.inj h).symm⟩
      · rename_i path hpath
        exact .inr ⟨path, hpath, (Option.some.inj h).symm⟩
    · cases h

theorem step_chunk {bytes : Bytes} {flushed : Nat} (h : step env s (.chunk i bytes flushed) = some t) :
    ∃ p path file, s.puts[i]? = some p ∧ p.phase = .writing path file ∧
      ((maxBytes < p.size + bytes.length ∧ t = s.refuseChunk i p path file bytes) ∨
        (p.size + bytes.length ≤ maxBytes ∧ t = s.writeChunk i p file bytes flushed)) := by
  rw [step] at h
  split at h
  · cases h
  · rename_i p hp
    split at h
    · rename_i path file hphase
      refine ⟨p, path, file, hp, hphase, ?_⟩
      split at h
      · exact .inl ⟨‹_›, (Option.some.inj h).symm⟩
      · exact .inr ⟨Nat.le_of_not_lt ‹_›, (Option.some.inj h).symm⟩
    · cases h

theorem step_finish (h : step env s (.finish i) = some t) :
    ∃ p path file, s.puts[i]? = some p ∧ p.phase = .writing path file ∧ t = s.finish env i p path file := by
  rw [step] at h
  split at h
  · cases h
  · rename_i p hp
    split at h
    · rename_i path file hphase
      exact ⟨p, path, file, hp, hphase, (Option.some.inj h).symm⟩
    · cases h

theorem step_leave (h : step env s (.leave i) = some t) :
    ∃ p, s.puts[i]? = some p ∧
      ((p.phase = .asking ∧ t = s.setPut i { p with phase := .gone }) ∨
        ∃ path file, p.phase = .writing path file ∧
          t = { s.setPut i { p with phase := .gone } with files := s.flush p file }) := by
  rw [step] at h
  split at h
  · cases h
  · rename_i p hp
    split at h
    · rename_i hphase
      exact ⟨p, hp, .inl ⟨hphase, (Option.some.inj h).symm⟩⟩
    · rename_i path file hphase
      exact ⟨p, hp, .inr ⟨path, file, hphase, (Option.some.inj h).symm⟩⟩
    · cases h

/-- A PUT after one of them has changed: that one, or another as it was. -/
theorem setPut_puts {p q : Put} {j : Nat} (h : (s.setPut i p).puts[j]? = some q) :
    (j = i ∧ q = p) ∨ (j ≠ i ∧ s.puts[j]? = some q) := by
  by_cases hj : j = i
  · subst hj
    obtain ⟨hlt, -⟩ := List.getElem?_eq_some_iff.mp h
    have hlt' : j < s.puts.length := by simpa [State.setPut] using hlt
    have heq : (s.setPut j p).puts[j]? = some p := List.getElem?_set_self hlt'
    exact .inl ⟨rfl, Option.some.inj (h.symm.trans heq)⟩
  · exact .inr ⟨hj, (List.getElem?_set_ne (Ne.symm hj)).symm.trans h⟩

theorem setPut_self {p q : Put} (h : s.puts[i]? = some q) : (s.setPut i p).puts[i]? = some p :=
  List.getElem?_set_self (List.getElem?_eq_some_iff.mp h).1

theorem setPut_ne {p : Put} {j : Nat} (h : j ≠ i) : (s.setPut i p).puts[j]? = s.puts[j]? :=
  List.getElem?_set_ne (Ne.symm h)

/-- A PUT after another one has come: this one, or one of before. -/
theorem append_puts {p q : Put} {j : Nat} (h : (s.puts ++ [p])[j]? = some q) :
    (j = s.puts.length ∧ q = p) ∨ s.puts[j]? = some q := by
  rw [List.getElem?_append] at h
  split at h
  · exact .inr h
  · rename_i hge
    obtain ⟨hlt, heq⟩ := List.getElem?_eq_some_iff.mp h
    have hzero : j - s.puts.length = 0 := by simpa using hlt
    refine .inl ⟨by omega, ?_⟩
    rw [← heq]
    simp [hzero]

end

end MyPerson.Files
