import MyPerson.Isolation.Legacy
import MyPerson.Lib.Table

/-!
# `Isolation.Steps` — the per-account tables and the steps that fill them

The statements of steps B, F, G and H of `isolation_copy.py`. `copy` inserts what is missing; `delta` selects by
the watermark and updates a message on conflict, under the guard of `_message_conflict`. Serial ids of the new
tables are written as the keys they stand for: a sender is the external id of its row of `users`.

## Contents
- `Tables`, with `MessageRow` and `MediaRow`;
- `Mark`, a position of the legacy tables, and the delta's filters;
- `stepBIdentities`, `stepFUsers`, `stepGMessages`, `stepHMedia`, `preconditions`;
- `soleOwner` and `outgoing`, the `is_outgoing` of a row;
- `stepGMessages` seen at a key, and `stepHMedia`.
-/

namespace MyPerson.Isolation

open Lib
open WriteLimits (Platform)

/-! ## The new tables -/

/-- `(account_id, chat_id, external_id)`, the chat by its external id. -/
structure MessageKey where
  account : Int
  chat    : Int
  message : Int
deriving DecidableEq, Repr

structure MessageRow where
  senderUserId         : Option Int
  senderChatId         : Option Int
  replyToMessageId     : Option Int
  forwardFromChatId    : Option Int
  forwardFromMessageId : Option Int
  messageType          : String
  text                 : Option String
  textHtml             : Option String
  sentAt               : Nat
  isOutgoing           : Bool
  isEdited             : Bool
  editedAt             : Option Nat
  views                : Option Int
  raw                  : Option Raw
  deletedAt            : Option Nat
deriving DecidableEq, Repr

/-- `(account_id, message_id, attach_index)`. -/
structure MediaKey where
  message     : MessageKey
  attachIndex : Int
deriving DecidableEq, Repr

structure MediaRow where
  fileId       : Option String
  fileUniqueId : Option String
  fileType     : String
  fileName     : Option String
  fileSize     : Option Int
  mimeType     : Option String
  storagePath  : Option String
deriving DecidableEq, Repr

/-- `chats` and `users` as pairs of account and external id, `identities` as pairs of platform and external id. -/
structure Tables where
  identities : List (Platform × Int)
  owners     : List Owner
  chats      : List (Int × Int)
  users      : List (Int × Int)
  messages   : Table MessageKey MessageRow
  media      : Table MediaKey MediaRow

def Tables.empty : Tables := ⟨[], [], [], [], fun _ => none, fun _ => none⟩

def keyOf (account : Int) (m : LegacyMessage) : MessageKey := ⟨account, m.chatId, m.messageId⟩

/-! ## The watermark -/

/-- The legacy tables whose greatest id is marked, in the order they are read. -/
inductive Source
  | messages (p : Platform)
  | media (p : Platform)
deriving DecidableEq, Repr

def sources : List Source := [.messages .telegram, .media .telegram, .messages .max, .media .max]

/-- The rows of `mig_watermark`: one clock, and the greatest id of each table. -/
structure Mark where
  clock : Nat
  maxId : Source → Option Int

/-- `wm_id or 0`. -/
def Mark.reached (w : Mark) (source : Source) : Int := (w.maxId source).getD 0

/-- `column > %(at)s`, not true of NULL. -/
def later (column : Option Nat) (clock : Nat) : Bool := column.any fun t => clock < t

/-- The delta's filter on messages. -/
def pending (w : Mark) (p : Platform) (m : LegacyMessage) : Bool :=
  w.reached (.messages p) < m.id || later m.editDate w.clock || later (m.deleted p) w.clock

/-- The delta's filter on chats. -/
def young (w : Mark) (c : LegacyChat) : Bool := later c.updatedAt w.clock

/-- The delta's filter on media. -/
def lateMedia (w : Mark) (p : Platform) (d : LegacyMedia) : Bool := w.reached (.media p) < d.id

/-! ## Steps B and F -/

/-- `ids` of step B. -/
def identitySources (ctx : Ctx) (L : Legacy) : List (Platform × Int) :=
  (L.users .telegram).map (fun x => (.telegram, x))
    ++ L.registry.map (fun r => (.telegram, r.1))
    ++ ((L.messages .telegram).filterMap LegacyMessage.fromUserId).map (fun x => (.telegram, x))
    ++ L.members.map (fun r => (.telegram, r.2))
    ++ (L.users .max).map (fun x => (.max, x))
    ++ ((L.messages .max).filterMap LegacyMessage.fromUserId).map (fun x => (.max, x))
    ++ ctx.accounts.map (fun a => (a.platform, a.externalUserId))

/-- `step_b_identities`: who gets an identity. -/
def stepBIdentities (ctx : Ctx) (L : Legacy) (T : Tables) : Tables :=
  { T with identities := insertKeys T.identities (identitySources ctx L) }

/-- `mig_acc_users` of step F: pairs of account and external user id. -/
def userSources (ctx : Ctx) (L : Legacy) (owners : List Owner) : List (Int × Int) :=
  ((L.messages .telegram).flatMap fun m =>
      (owners.filter fun o => o.platform = .telegram ∧ o.chat = m.chatId ∧ takes ctx L .telegram m o.account).flatMap
        fun o => m.fromUserId.toList.map fun x => (o.account, x))
    ++ L.members.flatMap (fun r => r.1.toList.map fun account => (account, r.2))
    ++ L.registry.map (fun r => (r.2.getD ctx.high, r.1))
    ++ (owners.filter fun o => o.platform = .telegram
          ∧ (L.chatOf .telegram o.chat).any fun c => c.chatType = .personal).map (fun o => (o.account, o.chat))
    ++ (telegramAccounts ctx).map (fun a => (a.id, a.externalUserId))
    ++ ctx.max.toList.flatMap (fun account => (L.users .max).map fun x => (account, x))
    ++ ctx.max.toList.flatMap (fun account =>
        ((L.messages .max).filterMap LegacyMessage.fromUserId).map fun x => (account, x))
    ++ (ctx.accounts.filter fun a => a.platform = .max).map (fun a => (a.id, a.externalUserId))

/-- `step_f_users`: the pairs whose user has an identity. -/
def stepFUsers (ctx : Ctx) (L : Legacy) (T : Tables) : Tables :=
  { T with users := insertKeys T.users ((userSources ctx L T.owners).filter fun u =>
      (ctx.accountOf u.1).any fun a => (a.platform, u.2) ∈ T.identities) }

/-! ## Step D -/

/-- `step_d_preconditions`: the checks of rule D, before a copy goes on. -/
def preconditions (ctx : Ctx) (L : Legacy) : Bool :=
  let inPrivate := (L.messages .telegram).filter fun m => L.privateChat m.chatId
  let reference := inPrivate.filter fun m => m.rawOut = some true
  ((telegramAccounts ctx).all fun a => a.id = ctx.low ∨ a.id = ctx.high)
    && (reference.all fun m => (telegramAccounts ctx).all fun a =>
          decide (m.fromUserId = some a.externalUserId → a.id = ownerD ctx m))
    && (inPrivate.all fun m =>
          !decide (ctx.splitDate ≤ m.tgDate ∧ ctx.splitId ≤ m.messageId ∧ m.messageId < 150000))

/-! ## Step E -/

/-- The chats of one statement of step E. -/
def chatsToCopy (L : Legacy) (since : Option Mark) (owners : List Owner) (p : Platform) : List (Int × Int) :=
  (owners.filter fun o => o.platform = p
    ∧ (L.chatOf p o.chat).any fun c => since.all fun w => young w c).map fun o => (o.account, o.chat)

/-! ## Step G -/

/-- One owner of the chat. -/
def soleOwner (owners : List Owner) (chat : Int) : Bool :=
  (owners.filter fun o => o.platform = .telegram ∧ o.chat = chat).length == 1

/-- `is_outgoing`. -/
def outgoing (ctx : Ctx) (L : Legacy) (owners : List Owner) (p : Platform) (m : LegacyMessage) (account : Int) : Bool :=
  match m.fromUserId, p with
  | some x, _ => (ctx.accountOf account).any fun a => x == a.externalUserId
  | none, .telegram => !L.privateChat m.chatId && soleOwner owners m.chatId && m.rawOut.getD false
  | none, .max => false

/-- The row that step G selects for an owner of the chat. -/
def messageRow (p : Platform) (m : LegacyMessage) (sender : Option Int) (isOutgoing : Bool) : MessageRow where
  senderUserId := sender
  senderChatId := m.senderChatId
  replyToMessageId := m.replyToMessageId
  forwardFromChatId := m.forwardFromChatId
  forwardFromMessageId := m.forwardFromMessageId
  messageType := m.messageType.getD "text"
  text := m.text
  textHtml := m.textHtml
  sentAt := m.tgDate
  isOutgoing := isOutgoing
  isEdited := m.isEdited.getD false
  editedAt := m.editDate
  views := m.views
  raw := m.rawData
  deletedAt := m.deleted p

/-- `_message_conflict`: `none` keeps the row. -/
def messageConflict (delta : Bool) (old new : MessageRow) : Option MessageRow :=
  if delta && (!old.isEdited || new.isEdited || new.deletedAt.isSome) then
    some { old with
      text := new.text
      textHtml := new.textHtml
      isEdited := new.isEdited
      editedAt := new.editedAt
      views := new.views.or old.views
      raw := new.raw
      deletedAt := old.deletedAt.or new.deletedAt
      senderUserId := new.senderUserId.or old.senderUserId }
  else none

/-- The rows of the messages with `lo < id ≤ hi` that the delta's filter lets through. -/
def inBatch (since : Option Mark) (p : Platform) (lo hi : Int) (m : LegacyMessage) : Bool :=
  decide (lo < m.id ∧ m.id ≤ hi) && since.all fun w => pending w p m

/-- The user row of a message's sender. -/
def senderOf (T : Tables) (m : LegacyMessage) (account : Int) : Option Int :=
  m.fromUserId.filter fun x => (account, x) ∈ T.users

/-- The owner has an account and a row of the chat, and takes the message. -/
def receives (ctx : Ctx) (L : Legacy) (T : Tables) (p : Platform) (m : LegacyMessage) (o : Owner) : Bool :=
  o.platform = p ∧ o.chat = m.chatId ∧ (ctx.accountOf o.account).isSome ∧ (o.account, m.chatId) ∈ T.chats
    ∧ takes ctx L p m o.account

/-- What one statement of step G selects. -/
def selectMessages (ctx : Ctx) (L : Legacy) (T : Tables) (since : Option Mark) (p : Platform) (lo hi : Int) :
    List (MessageKey × MessageRow) :=
  ((L.messages p).filter (inBatch since p lo hi)).flatMap fun m =>
    (T.owners.filter (receives ctx L T p m)).map fun o =>
      (keyOf o.account m, messageRow p m (senderOf T m o.account) (outgoing ctx L T.owners p m o.account))

/-- One statement of `step_g_messages`. -/
def stepGMessages (ctx : Ctx) (L : Legacy) (T : Tables) (since : Option Mark) (p : Platform) (lo hi : Int) : Tables :=
  { T with
    messages := T.messages.insertSelect (messageConflict since.isSome) (selectMessages ctx L T since p lo hi) }

/-! ## Step H -/

def mediaRow (d : LegacyMedia) : MediaRow where
  fileId := d.fileId
  fileUniqueId := d.fileUniqueId
  fileType := d.fileType
  fileName := d.fileName
  fileSize := d.fileSize
  mimeType := d.mimeType
  storagePath := d.localPath

/-- What one statement of step H selects: media whose message the owner has. -/
def selectMedia (L : Legacy) (T : Tables) (since : Option Mark) (p : Platform) (lo hi : Int) :
    List (MediaKey × MediaRow) :=
  ((L.media p).filter fun d => decide (lo < d.id ∧ d.id ≤ hi) && since.all fun w => lateMedia w p d).flatMap fun d =>
    ((L.messages p).filter fun m => m.id = d.messagePk).flatMap fun m =>
      (T.owners.filter fun o => o.platform = p ∧ o.chat = m.chatId ∧ (o.account, m.chatId) ∈ T.chats
        ∧ (T.messages (keyOf o.account m)).isSome).map fun o => (⟨keyOf o.account m, d.attach p⟩, mediaRow d)

/-- One statement of `step_h_media`; a row on conflict stays. -/
def stepHMedia (L : Legacy) (T : Tables) (since : Option Mark) (p : Platform) (lo hi : Int) : Tables :=
  { T with media := T.media.insertSelect (fun _ _ => none) (selectMedia L T since p lo hi) }

end MyPerson.Isolation
