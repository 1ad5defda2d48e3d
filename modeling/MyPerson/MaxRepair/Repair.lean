import MyPerson.MaxRepair.Normalize

/-!
# `MaxRepair.Repair` — repair of stored MAX rows, and its undo journal

`repair` and `undo` of `app/scripts/max_repair.py`. A run works in one transaction: when something raises, nothing
was written, and a run without `--apply` is rolled back. Columns that neither reads nor writes are left out, and so
is the time in a journal.

## Contents
- `Db`, `SameRows`;
- `Journal`, `repairTitles`, `repairMessages`, `repair`;
- `undo`.
-/

namespace MyPerson.MaxRepair

open Lib
open MaxDialogs (Account Chat User fillDialogTitles Retitled)

/-! ## The database -/

structure Message where
  accountId   : Int
  id          : Int
  messageType : String
  text        : Option String
  raw         : Json

def Message.key (m : Message) : Int × Int := (m.accountId, m.id)

structure Medium where
  accountId      : Int
  id             : Int
  messageId      : Int
  attachIndex    : Int
  fileType       : String
  fileExternalId : Option String
  fileUniqueId   : Option String
  fileName       : Option String
  fileSize       : Option Int
  mimeType       : Option String

/-- The tables, with their primary keys; ids of media come from a sequence. -/
structure Db where
  accounts    : List Account
  chats       : List Chat
  users       : List User
  messages    : List Message
  media       : List Medium
  nextMediaId : Int
  haccounts   : (accounts.map Account.id).Nodup
  hchats      : (chats.map Chat.key).Nodup
  hmessages   : (messages.map Message.key).Nodup
  hmedia      : ∀ m ∈ media, m.id < nextMediaId

/-- The same rows; ids that were drawn for media stay used. -/
structure SameRows (db db' : Db) : Prop where
  accounts : db'.accounts = db.accounts
  chats    : db'.chats = db.chats
  users    : db'.users = db.users
  messages : db'.messages = db.messages
  media    : db'.media = db.media

def Db.setChats (db : Db) (chats : List Chat) (hkeys : chats.map Chat.key = db.chats.map Chat.key) : Db :=
  { db with chats := chats, hchats := hkeys ▸ db.hchats }

/-- One `UPDATE` of a message after the other. -/
def Db.editMessages (db : Db) (es : List ((Int × Int) × (Message → Message)))
    (hkeep : ∀ e ∈ es, ∀ m, (e.2 m).key = m.key) : Db :=
  { db with
    messages := edits Message.key db.messages es
    hmessages := by
      rw [map_key_edits hkeep]
      exact db.hmessages }

/-- `INSERT INTO media`. -/
def Db.addMedium (db : Db) (m : Medium) (hid : m.id = db.nextMediaId) : Db :=
  { db with
    media := db.media ++ [m]
    nextMediaId := db.nextMediaId + 1
    hmedia := fun m' hm' => by
      rcases List.mem_append.mp hm' with hm' | hm'
      · exact Int.lt_add_one_of_le (db.hmedia m' hm').le
      · rw [List.mem_singleton.mp hm', hid]
        exact Int.lt_succ _ }

/-- An insert that met a row has drawn an id, too. -/
def Db.skipId (db : Db) : Db :=
  { db with
    nextMediaId := db.nextMediaId + 1
    hmedia := fun m hm => Int.lt_add_one_of_le (db.hmedia m hm).le }

/-- `DELETE FROM media`. -/
def Db.deleteMedia (db : Db) (p : Medium → Bool) : Db :=
  { db with
    media := deleteWhere db.media p
    hmedia := fun m hm => db.hmedia m (mem_deleteWhere.mp hm).1 }

/-! ## Repair -/

structure TitleEntry where
  chatPk : Int
  title  : Option String

structure MessageEntry where
  id          : Int
  messageType : String
  text        : Option String

/-- The undo journal. -/
structure Journal where
  account   : String
  accountId : Int
  applied   : Bool
  titles    : List TitleEntry
  messages  : List MessageEntry
  media     : List Int

/-- `_account` -/
def Db.maxAccount (db : Db) (p : Account → Bool) : Except Failure Account :=
  match db.accounts.find? p with
  | none => .error .refused
  | some a => if a.platform = "max" then .ok a else .error .refused

theorem keys_retitled {accountId : Int} {chatIds : Option (List Int64)} {chats chats' : List Chat}
    (h : List.Forall₂ (Retitled accountId chatIds) chats chats') : chats'.map Chat.key = chats.map Chat.key := by
  induction h with
  | nil => rfl
  | cons hc _ ih =>
      rw [List.map_cons, List.map_cons, ih]
      rcases hc with rfl | ⟨-, title, rfl⟩ <;> rfl

/-- The call of `fill_dialog_titles`. -/
def Db.fillTitles (db : Db) (accountId : Int) : Except Failure Db :=
  match h : fillDialogTitles db.accounts db.users db.chats accountId none with
  | .error e => .error (.titles e)
  | .ok chats => .ok (db.setChats chats (keys_retitled (MaxDialogs.fillDialogTitles_spec h).1))

/-- The titles of the private chats, by id. -/
def Db.privateTitles (db : Db) (accountId : Int) : List (Int × Option String) :=
  (db.chats.filter fun c => c.accountId = accountId && c.chatType = "private").map fun c => (c.id, c.title)

/-- `_titles`. -/
def repairTitles (db : Db) (accountId : Int) : Except Failure (Db × List TitleEntry) :=
  (db.fillTitles accountId).map fun db' =>
    let before := db.privateTitles accountId
    let after := db'.privateTitles accountId
    let pks := (before.map Prod.fst).mergeSort fun a b => a ≤ b
    (db', (pks.filter fun pk => (Dict.get pk after).join ≠ (Dict.get pk before).join).map fun pk =>
      ⟨pk, (Dict.get pk before).join⟩)

/-- `_CANDIDATES`: forwards, and messages with a contact card. -/
def isCandidate (raw : Json) : Bool :=
  let isText := fun (s : String) (v : Option Json) => match v with
    | some (.str t) => t = s
    | _ => false
  isText "FORWARD" ((raw.get? "link").bind (Json.get? "type")) ||
    match raw.get? "attaches" with
    | some (.arr items) => items.any fun item => isText "CONTACT" (item.get? "_type")
    | _ => false

def Db.candidates (db : Db) (accountId : Int) : List Message :=
  (db.messages.filter fun m => m.accountId = accountId && isCandidate m.raw).mergeSort fun m m' => m.id ≤ m'.id

/-- `not old_text and new_text`. -/
def Repaired.fillsText (r : Repaired) (c : Message) : Bool := (orNone c.text).isNone && (orNone r.text).isSome

/-- `if values`. -/
def Repaired.changes (r : Repaired) (c : Message) : Bool := r.messageType ≠ c.messageType || r.fillsText c

/-- `.values(**values)`; `c` is the row as it was read. -/
def Repaired.update (r : Repaired) (c m : Message) : Message :=
  { m with
    messageType := if r.messageType ≠ c.messageType then r.messageType else m.messageType
    text := if r.fillsText c then r.text else m.text }

/-- How far `_messages` is. -/
structure Progress where
  db       : Db
  changed  : List MessageEntry
  inserted : List Int

/-- The insert of a media row, `ON CONFLICT (account_id, message_id, attach_index) DO NOTHING`. -/
def insertMedium (accountId messageId : Int) (s : Progress) (v : MediaValues) : Progress :=
  let taken := fun m : Medium => m.accountId = accountId && m.messageId = messageId && m.attachIndex = v.attachIndex
  if s.db.media.any taken then { s with db := s.db.skipId }
  else
    let m : Medium := ⟨accountId, s.db.nextMediaId, messageId, v.attachIndex, v.fileType, v.fileId, none, v.fileName,
      v.fileSize, none⟩
    { s with db := s.db.addMedium m rfl, inserted := s.inserted ++ [m.id] }

/-- The `UPDATE` of a message, and its entry in the journal. -/
def changeMessage (accountId : Int) (r : Repaired) (c : Message) (s : Progress) : Progress :=
  if r.changes c then
    { s with
      db := s.db.editMessages [((accountId, c.id), r.update c)] (fun e he m => by
        rw [List.mem_singleton.mp he]
        rfl)
      changed := s.changed ++ [⟨c.id, c.messageType, c.text⟩] }
  else s

variable (validate : List (String × Json) → Option Msg)

/-- One round of `_messages`. -/
def repairMessage (accountId : Int) (s : Progress) (c : Message) : Except Failure Progress :=
  (repaired validate c.raw).map fun
    | none => s
    | some r => r.media.foldl (insertMedium accountId c.id) (changeMessage accountId r c s)

/-- `_messages`. -/
def repairMessages (db : Db) (accountId : Int) : Except Failure Progress :=
  (db.candidates accountId).foldlM (repairMessage validate accountId) ⟨db, [], []⟩

/-- `repair`. -/
def repair (db : Db) (name : String) (apply : Bool) : Except Failure (Db × Journal) := do
  let account ← db.maxAccount fun a => a.«alias» = name
  let (titled, titles) ← repairTitles db account.id
  let s ← repairMessages validate titled account.id
  .ok (if apply then s.db else db, ⟨account.«alias», account.id, apply, titles, s.changed, s.inserted⟩)

/-! ## Undo -/

/-- The `UPDATE` that sets the title back. -/
def TitleEntry.restore (accountId : Int) (t : TitleEntry) : (Int × Int) × (Chat → Chat) :=
  ((accountId, t.chatPk), fun c => { c with title := t.title })

/-- The `UPDATE` that sets type and text back. -/
def MessageEntry.restore (accountId : Int) (e : MessageEntry) : (Int × Int) × (Message → Message) :=
  ((accountId, e.id), fun m => { m with messageType := e.messageType, text := e.text })

theorem TitleEntry.keep_restore (accountId : Int) (titles : List TitleEntry) :
    ∀ e ∈ titles.map (TitleEntry.restore accountId), ∀ c, (e.2 c).key = c.key := by
  intro e he c
  obtain ⟨t, -, rfl⟩ := List.mem_map.mp he
  rfl

theorem MessageEntry.keep_restore (accountId : Int) (messages : List MessageEntry) :
    ∀ e ∈ messages.map (MessageEntry.restore accountId), ∀ m, (e.2 m).key = m.key := by
  intro e he m
  obtain ⟨t, -, rfl⟩ := List.mem_map.mp he
  rfl

/-- The updates of messages and chats. -/
def Db.restore (db : Db) (accountId : Int) (journal : Journal) : Db :=
  let restored := db.editMessages (journal.messages.map (MessageEntry.restore accountId))
    (MessageEntry.keep_restore accountId journal.messages)
  restored.setChats (edits Chat.key restored.chats (journal.titles.map (TitleEntry.restore accountId)))
    (map_key_edits (TitleEntry.keep_restore accountId journal.titles) _)

/-- `undo`; the number is that of the media rows it deleted. The driver takes 32767 parameters in one statement at most,
    so it refuses the `DELETE` of a journal with that many media rows; this is left out. -/
def undo (db : Db) (journal : Journal) (apply : Bool) : Except Failure (Db × Nat) := do
  let account ← db.maxAccount fun a => a.id = journal.accountId
  if account.«alias» ≠ journal.account then .error .refused
  else
    let listed := fun m : Medium => m.accountId = account.id && journal.media.contains m.id
    let withoutMedia := if journal.media = [] then db else db.deleteMedia listed
    let removed := if journal.media = [] then 0 else (db.media.filter listed).length
    .ok (if apply then withoutMedia.restore account.id journal else db, removed)

end MyPerson.MaxRepair
