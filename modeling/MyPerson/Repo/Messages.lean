import MyPerson.Lib.Table

/-!
# `Repo.Messages` — messages and media of one account

`app/repo/messages.py` and `app/repo/media.py` over the tables of one account. A message is keyed by
its chat and its external id (the internal id stands for that pair), a medium by its message and its
index. `upsert_message` is three statements: the guarded insert of the message, an insert for every
medium of the copy, and the move of the chat's last message.
-/

namespace MyPerson.Repo

open Lib

/-- Microseconds. -/
abbrev Time := Int

/-! ## Rows of the normalisers (`app/repo/rows.py`) -/

structure MediaRow where
  fileType       : String
  attachIndex    : Nat
  fileExternalId : Option String
  fileUniqueId   : Option String
  fileName       : Option String
  fileSize       : Option Nat
  mimeType       : Option String
deriving DecidableEq, Repr

structure MessageRow where
  externalId                   : Int
  sentAt                       : Time
  senderExternalId             : Option Int
  senderChatExternalId         : Option Int
  replyToExternalId            : Option Int
  forwardFromChatExternalId    : Option Int
  forwardFromMessageExternalId : Option Int
  messageType                  : String
  text                         : Option String
  textHtml                     : Option String
  isEdited                     : Bool
  editedAt                     : Option Time
  deletedAt                    : Option Time
  views                        : Option Nat
  raw                          : Option String
  isOutgoingHint               : Option Bool
  media                        : List MediaRow
deriving DecidableEq, Repr

/-! ## Tables -/

/-- A row of `messages`. -/
structure Message where
  senderUserId                 : Option Nat
  senderChatExternalId         : Option Int
  replyToExternalId            : Option Int
  forwardFromChatExternalId    : Option Int
  forwardFromMessageExternalId : Option Int
  messageType                  : String
  text                         : Option String
  textHtml                     : Option String
  sentAt                       : Time
  isOutgoing                   : Bool
  isEdited                     : Bool
  editedAt                     : Option Time
  deletedAt                    : Option Time
  views                        : Option Nat
  raw                          : Option String
deriving DecidableEq, Repr

/-- A row of `media`; `storage_path` is set by the download of the file. -/
structure Medium where
  row         : MediaRow
  storagePath : Option String
deriving DecidableEq, Repr

inductive ChatType
  | privateChat | group | supergroup | channel
deriving DecidableEq, Repr

/-- A row of `chats`, as far as messages touch it. -/
structure Chat where
  chatType              : ChatType
  lastMessageExternalId : Option Int
  lastMessageAt         : Option Time
deriving DecidableEq, Repr

/-- The chat's internal id and the message's external id. -/
abbrev MessageKey := Nat × Int

/-- The tables of one account. -/
structure Store where
  /-- `accounts.external_user_id`. -/
  accountUser : Option Int
  /-- The `users` row of an external id. -/
  users       : Table Int Nat
  chats       : Table Nat Chat
  messages    : Table MessageKey Message
  media       : Table (MessageKey × Nat) Medium

/-! ## `upsert_message` -/

/-- Sender is the account itself; the platform's hint where that cannot be decided. -/
def isOutgoing (s : Store) (row : MessageRow) : Bool :=
  match row.senderExternalId, s.accountUser with
  | some sender, some account => account == sender
  | _, _ => row.isOutgoingHint.getD false

/-- The values of the insert. -/
def insertedMessage (s : Store) (row : MessageRow) : Message where
  senderUserId := row.senderExternalId.bind s.users
  senderChatExternalId := row.senderChatExternalId
  replyToExternalId := row.replyToExternalId
  forwardFromChatExternalId := row.forwardFromChatExternalId
  forwardFromMessageExternalId := row.forwardFromMessageExternalId
  messageType := row.messageType
  text := row.text
  textHtml := row.textHtml
  sentAt := row.sentAt
  isOutgoing := isOutgoing s row
  isEdited := row.isEdited
  editedAt := row.editedAt
  deletedAt := row.deletedAt
  views := row.views
  raw := row.raw

/-- The `WHERE` of the conflict clause: an older edit arriving late must not overwrite a newer one. -/
def editGuard (old new : Message) : Bool :=
  !old.isEdited ||
    (new.isEdited &&
      match old.editedAt, new.editedAt with
      | some o, some n => o ≤ n
      | _, _ => true)

/-- The `SET` of the conflict clause. -/
def setMessage (old new : Message) : Message :=
  { old with
    senderUserId := new.senderUserId.or old.senderUserId
    messageType := new.messageType
    text := new.text
    textHtml := new.textHtml
    isOutgoing := new.isOutgoing
    isEdited := new.isEdited
    editedAt := new.editedAt
    deletedAt := old.deletedAt.or new.deletedAt
    views := new.views.or old.views
    raw := new.raw }

def mergeMessage (old new : Message) : Option Message :=
  if editGuard old new then some (setMessage old new) else none

/-- The conflict clause of `upsert_media`: `storage_path` is kept. -/
def mergeMedium (old new : Medium) : Option Medium := some { new with storagePath := old.storagePath }

/-- `upsert_media`. -/
def upsertMedia (media : Table (MessageKey × Nat) Medium) (k : MessageKey) (rows : List MediaRow) :
    Table (MessageKey × Nat) Medium :=
  rows.foldl (fun t row => t.insertOn mergeMedium (k, row.attachIndex) ⟨row, none⟩) media

/-- `touch_last_message`: forward only. -/
def touchLastMessage (chats : Table Nat Chat) (chatId : Nat) (externalId : Int) (atTime : Time) :
    Table Nat Chat :=
  fun c => (chats c).map fun chat =>
    if c = chatId ∧ (chat.lastMessageExternalId.all fun last => last ≤ externalId) = true then
      { chat with lastMessageExternalId := some externalId, lastMessageAt := some atTime }
    else chat

def upsertMessage (s : Store) (chatId : Nat) (row : MessageRow) : Store :=
  { s with
    messages := s.messages.insertOn mergeMessage (chatId, row.externalId) (insertedMessage s row)
    media := upsertMedia s.media (chatId, row.externalId) row.media
    chats := touchLastMessage s.chats chatId row.externalId row.sentAt }

/-! ## `mark_deleted` -/

/-- The chats a delete is about: without a chat id, those whose message ids are the account's own. -/
def deletesIn (s : Store) (chatId : Option Nat) (c : Nat) : Bool :=
  match chatId with
  | some id => c == id
  | none => (s.chats c).any fun chat => chat.chatType = .privateChat ∨ chat.chatType = .group

def markDeleted (s : Store) (chatId : Option Nat) (externalIds : List Int) (atTime : Time) : Store :=
  { s with
    messages := fun k => (s.messages k).map fun m =>
      if deletesIn s chatId k.1 && externalIds.contains k.2 then
        { m with deletedAt := m.deletedAt.or (some atTime) }
      else m }

/-! ## Deliveries -/

/-- What happens to the tables of an account. -/
inductive Delivery
  | copy (chatId : Nat) (row : MessageRow)
  | deleted (chatId : Option Nat) (externalIds : List Int) (atTime : Time)
  /-- Anything else, such as new users or chats: messages and media are not touched. -/
  | others (accountUser : Option Int) (users : Table Int Nat) (chats : Table Nat Chat)

def deliver (s : Store) : Delivery → Store
  | .copy chatId row => upsertMessage s chatId row
  | .deleted chatId externalIds atTime => markDeleted s chatId externalIds atTime
  | .others accountUser users chats => { s with accountUser, users, chats }

def deliverAll (s : Store) (ds : List Delivery) : Store := ds.foldl deliver s

/-- The copies of a message among the deliveries, in their order. -/
def copies (k : MessageKey) (ds : List Delivery) : List MessageRow :=
  ds.filterMap fun
    | .copy chatId row => if (chatId, row.externalId) = k then some row else none
    | _ => none

/-- The medium a copy has at an index. -/
def MessageRow.medium (row : MessageRow) (i : Nat) : Option MediaRow :=
  (row.media.filter fun m => m.attachIndex = i).getLast?

/-- The medium stored for a message at an index. -/
def Store.medium (s : Store) (k : MessageKey) (i : Nat) : Option MediaRow :=
  (s.media (k, i)).map Medium.row

end MyPerson.Repo
