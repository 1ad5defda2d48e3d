import Mathlib.Logic.Function.Defs
import MyPerson.Lib.Decimal
import MyPerson.Repo.Messages

/-!
# `MaxIngest.Frames` — what a frame of MAX does to the messages

`MaxIngest.on_frame` and `_process_frame`: which frames are stored, the lock of a frame
(`normalize.frame_chat_id`), and the effect that processing it has on the message tables. The models of
PyMax are third party: `PyMax` takes them as functions of the payload, with what `frame_chat_id` relies
on, that a parsed frame is about the chat that stands in it.

## Contents
- `Json`, `frameChatId`, `isDelayed`: reading a payload without a model of it;
- `Msg`, `PyMax`, `normalizeMessage`: parsed messages and their rows;
- `Work`, `Work.lock`, `Work.effect`: what waits at a chat's lock, and what it does.
-/

namespace MyPerson.MaxIngest

open Repo

/-! ## Payloads -/

/-- A value of a payload; its numbers are integers. -/
inductive Json
  | null
  | bool (b : Bool)
  | num (n : Int)
  | str (s : String)
  | arr (items : List Json)
  | obj (fields : List (String × Json))

/-- A `dict`. -/
abbrev Payload := List (String × Json)

/-- `payload.get(key)`. -/
def Payload.get (p : Payload) (key : String) : Option Json :=
  (p.find? fun field => field.1 == key).map Prod.snd

/-- `value` where it is not `None`. -/
def notNone : Option Json → Option Json
  | some .null => none
  | v => v

/-- `value` where it is a `dict`. -/
def dict? : Option Json → Option Payload
  | some (.obj fields) => some fields
  | _ => none

/-- `int(value)`; `none` on `TypeError` and `ValueError`. -/
def pyInt : Json → Option Int
  | .num n => some n
  | .bool b => some (if b then 1 else 0)
  | .str s => Lib.Decimal.parse s
  | _ => none

/-! ## Frames -/

inductive Opcode
  | message | edit | delete | chat | attach | other (code : Nat)
deriving DecidableEq, Repr

structure Frame where
  opcode     : Opcode
  /-- `cmd == SERVER_PUSH`. -/
  serverPush : Bool
  payload    : Payload

/-- `opcode in JOURNALED_OPCODES`. -/
def Opcode.journaled : Opcode → Bool
  | .message | .edit | .delete | .chat => true
  | .attach | .other _ => false

/-- The checks of `on_frame` before it takes the lock. -/
def Frame.accepted (newMode identityOk : Bool) (f : Frame) : Bool :=
  f.serverPush && f.opcode.journaled && (!newMode || identityOk)

/-- `frame_chat_id`: the chat of a frame, without validating it. -/
def frameChatId (opcode : Opcode) (payload : Payload) : Option Int :=
  if opcode = .chat then
    ((dict? (payload.get "chat")).bind fun chat => chat.get "id").bind pyInt
  else
    ((notNone (payload.get "chatId")).or
      ((dict? (payload.get "message")).bind fun msg => notNone (msg.get "chatId"))).bind pyInt

def delayedSlackMs : Int := 5000

/-- `is_delayed`: a scheduled message that is not sent yet. -/
def isDelayed (payload : Payload) (nowMs : Int) : Bool :=
  let msg := (dict? (payload.get "message")).getD payload
  let fire := (dict? (msg.get "delayedAttributes")).bind fun attrs => (notNone (attrs.get "timeToFire")).bind pyInt
  fire.any fun t => nowMs + delayedSlackMs < t

/-! ## Parsed messages -/

inductive MsgStatus
  | edited | removed | other
deriving DecidableEq, Repr

/-- `pymax.types.domain.Message`. -/
structure Msg where
  chatId : Option Int
  id     : Int
  /-- Milliseconds. -/
  time   : Int
  status : MsgStatus
  /-- A post of a channel. -/
  channel : Bool
  /-- The columns that `normalize_message` takes from the message itself. -/
  body   : MessageRow
deriving DecidableEq, Repr

/-- The models of PyMax. -/
structure PyMax where
  /-- `Message.model_validate`. -/
  message : Payload → Option Msg
  /-- `MessageDeleteEvent.model_validate`. -/
  deleteEvent : Payload → Option (Int × List Int)
  /-- A parsed message is of the chat that stands in its frame. -/
  message_chat : ∀ opcode payload msg, opcode ≠ .chat → message payload = some msg →
    msg.chatId = frameChatId opcode payload
  /-- A delete event is about the chat that stands in its frame. -/
  delete_chat : ∀ payload chat ids, deleteEvent payload = some (chat, ids) →
    frameChatId .delete payload = some chat

/-- Microseconds to milliseconds, as `dt_to_ms` does it. -/
def dtToMs (t : Time) : Int := t / 1000

def msToDt (ms : Int) : Time := ms * 1000

/-- `normalize_message`. -/
def normalizeMessage (msg : Msg) (receivedAt : Time) (isEdit : Bool) : MessageRow :=
  let edited := isEdit || msg.status == .edited
  { msg.body with
    externalId := msg.id
    sentAt := msToDt msg.time
    isEdited := edited
    editedAt := if edited then some receivedAt else none
    deletedAt := if msg.status = .removed then some receivedAt else none }

/-- `guess_chat_type`. -/
def guessChatType (msg : Msg) (chat : Int) : ChatType :=
  if msg.channel then .channel else if 0 < chat then .privateChat else .group

/-! ## Work at a chat's lock -/

/-- What runs under the lock of a chat: a frame, `store_sent`, `apply_delete`. -/
inductive Work
  | frame (f : Frame)
  | storeSent (chat : Int) (msg : Msg) (isEdit : Bool)
  | applyDelete (chat : Int) (ids : List Int)

/-- The argument of `_chat_lock`. -/
def Work.lock : Work → Option Int
  | .frame f => frameChatId f.opcode f.payload
  | .storeSent chat _ _ => some chat
  | .applyDelete chat _ => some chat

/-- What a piece of work does to the message tables. -/
inductive Effect
  | store (chat : Int) (chatType : ChatType) (row : MessageRow)
  | delete (chat : Int) (ids : List Int) (atTime : Time)
  | nothing
deriving DecidableEq, Repr

/-- `store_message`: the chat of the message, else the one given; none of both is a `ValueError`. -/
def storeMessage (msg : Msg) (chat : Option Int) (receivedAt : Time) (isEdit : Bool) : Effect :=
  match msg.chatId.or chat with
  | some cid => .store cid (guessChatType msg cid) (normalizeMessage msg receivedAt isEdit)
  | none => .nothing

/-- `_on_message`. -/
def onMessage (pm : PyMax) (payload : Payload) (receivedAt : Time) (isEdit : Bool) : Effect :=
  if isDelayed payload (dtToMs receivedAt) then .nothing
  else
    match pm.message payload with
    | none => .nothing
    | some msg =>
        match msg.status, msg.chatId with
        | .removed, some chat => .delete chat [msg.id] receivedAt
        | status, _ => storeMessage msg none receivedAt (isEdit || status == .edited)

/-- `_process_frame`. -/
def processFrame (pm : PyMax) (f : Frame) (receivedAt : Time) : Effect :=
  match f.opcode with
  | .message => onMessage pm f.payload receivedAt false
  | .edit => onMessage pm f.payload receivedAt true
  | .delete =>
      match pm.deleteEvent f.payload with
      | some (chat, ids) => .delete chat ids receivedAt
      | none => .nothing
  | _ => .nothing

def Work.effect (pm : PyMax) (w : Work) (receivedAt : Time) : Effect :=
  match w with
  | .frame f => processFrame pm f receivedAt
  | .storeSent chat msg isEdit => storeMessage msg (some chat) receivedAt isEdit
  | .applyDelete chat ids => .delete chat ids receivedAt

/-- The chat that an effect is about. -/
def Effect.chat : Effect → Option Int
  | .store chat _ _ => some chat
  | .delete chat _ _ => some chat
  | .nothing => none

theorem storeMessage_chat {msg : Msg} {chat : Option Int} {receivedAt : Time} {isEdit : Bool} :
    (storeMessage msg chat receivedAt isEdit).chat = msg.chatId.or chat := by
  unfold storeMessage
  cases msg.chatId.or chat <;> rfl

/-- `_on_message` acts on the chat that stands in the frame. -/
theorem onMessage_chat {pm : PyMax} {opcode : Opcode} {payload : Payload} {receivedAt : Time} {isEdit : Bool}
    {chat : Int} (hop : opcode ≠ .chat) (h : (onMessage pm payload receivedAt isEdit).chat = some chat) :
    frameChatId opcode payload = some chat := by
  unfold onMessage at h
  split at h
  · cases h
  · split at h
    · cases h
    · rename_i msg hmsg
      rw [← pm.message_chat opcode payload msg hop hmsg]
      split at h
      · rename_i hchat
        rw [hchat]
        exact h
      · rw [storeMessage_chat, Option.or_none] at h
        exact h

/-- **The lock fits.** A frame acts on no other chat than the one whose lock it takes. -/
theorem processFrame_chat {pm : PyMax} {f : Frame} {receivedAt : Time} {chat : Int}
    (h : (processFrame pm f receivedAt).chat = some chat) : frameChatId f.opcode f.payload = some chat := by
  unfold processFrame at h
  split at h
  · rename_i hop
    exact onMessage_chat (by simp [hop]) h
  · rename_i hop
    exact onMessage_chat (by simp [hop]) h
  · rename_i hop
    split at h
    · rename_i c ids hevent
      cases h
      rw [hop]
      exact pm.delete_chat _ _ _ hevent
    · cases h
  · cases h

end MyPerson.MaxIngest
