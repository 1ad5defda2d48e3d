import Mathlib.Data.List.Infix
import MyPerson.Lib.Exchange

/-!
# `WriteSlot.Messenger` — requests to a messenger and what becomes of them

Frames, the ways a frame can end, the exceptions the client raises, and the wrappers every MAX route
uses (`app/max/api/common.py`). A method of the client libraries (PyMax, Telethon) is one request
followed by what the library, or the route inside its slot, reads out of the answer; whether an answer
can be read is a parameter (`Client`).
-/

namespace MyPerson.WriteSlot

open Lib

/-! ## Exceptions -/

/-- The transport errors of PyMax: `_UNCERTAIN`. -/
inductive Transport
  | timeoutError | connectionError | eofError | osError
deriving DecidableEq, Repr

def Transport.name : Transport → String
  | .timeoutError => "TimeoutError"
  | .connectionError => "ConnectionError"
  | .eofError => "EOFError"
  | .osError => "OSError"

structure HttpException where
  statusCode    : Nat
  detail        : String
  keepWriteSlot : Bool := false
deriving DecidableEq, Repr

inductive Exc
  /-- `asyncio.CancelledError`: not an `Exception`, no wrapper catches it. -/
  | cancelledError
  | transport (t : Transport) (text : String)
  /-- An error answer of MAX. -/
  | apiError (error text : String)
  | http (e : HttpException)
  /-- Any other `Exception`: `ValueError`, `UploadError`, an error answer of Telegram, an answer that
      could not be read, ... -/
  | other (name text : String)
deriving DecidableEq, Repr

/-- `type(exc).__name__`. -/
def Exc.name : Exc → String
  | .cancelledError => "CancelledError"
  | .transport t _ => t.name
  | .apiError _ _ => "ApiError"
  | .http _ => "HTTPException"
  | .other name _ => name

/-- `str(exc)`. -/
def Exc.str : Exc → String
  | .cancelledError => ""
  | .transport _ text => text
  | .apiError _ text => text
  | .http e => s!"{e.statusCode}: {e.detail}"
  | .other _ text => text

/-! ## Frames -/

inductive PymaxMethod
  | deleteMessage | addReaction | removeReaction | pinMessage | createFolder | updateFolder
  | deleteFolder | createGroup | inviteUsersToGroup | inviteUsersToChannel | removeUsersFromGroup
  | changeGroupProfile | changeGroupSettings | reworkInviteLink | confirmJoinRequests
  | declineJoinRequests | removeContact | joinGroup | joinChannel | fetchHistory | readMessage
  | leaveGroup | leaveChannel | deleteChat
deriving DecidableEq, Repr

inductive TelethonMethod
  | sendMessage | forwardMessages | editMessage | sendFile | sendAlbum | getInputEntity | sendMedia
  | deleteMessages | sendReaction | sendReadAcknowledge | importContacts
deriving DecidableEq, Repr

/-- What reads an answer before the call returns. -/
inductive Reader
  /-- `require_payload_model(response, Message)`. -/
  | message
  /-- `require_payload_item_model(response, MESSAGE, Message)`. -/
  | editedMessage
  /-- `Chat.model_validate` of the answer's chat. -/
  | chat
  /-- `[int(i) for i in deletedMessageIds]`. -/
  | deletedIds
  | pymax (m : PymaxMethod)
  | telethon (m : TelethonMethod)
deriving DecidableEq, Repr

/-- A frame: does it ask for the write the slot was taken for, and what reads its answer. -/
structure Frame where
  isWrite : Bool
  reader  : Option Reader
deriving DecidableEq, Repr

/-- How a frame ends. -/
inductive Reply (A : Type)
  /-- The messenger refuses: an error answer. -/
  | error (code text : String)
  /-- The messenger did what it was asked and answered. -/
  | answer (a : A)
  /-- The connection is lost or the answer times out; the write may have been applied. -/
  | lost (t : Transport) (text : String) (applied : Bool)
  /-- The request is cancelled while it waits for the answer. -/
  | cancelled (applied : Bool)
deriving DecidableEq, Repr

/-- The messenger applied what the frame asks for. -/
def Reply.applied {A : Type} : Reply A → Bool
  | .error _ _ => false
  | .answer _ => true
  | .lost _ _ applied => applied
  | .cancelled applied => applied

/-- What the client libraries make of an answer. -/
structure Client (A : Type) where
  /-- The reader finds what it needs in the answer. -/
  reads       : Reader → A → Bool
  /-- `create_group` found the new chat in the answer (else it returns `None`). -/
  newGroup    : A → Bool
  hasMessages : A → Bool
  hasUsers    : A → Bool

abbrev Call (A : Type) := Prog Frame (Reply A) Exc

section Frames

variable {A : Type}

/-- The call gets what it needs out of the answer. -/
def Frame.readable (frame : Frame) (c : Client A) (a : A) : Bool :=
  match frame.reader with
  | none => true
  | some reader => c.reads reader a

/-- `invoke`, then the reader. -/
def invoke (c : Client A) (frame : Frame) : Call A A := do
  match ← Prog.request frame with
  | .error code text => throw (.apiError code text)
  | .lost t text _ => throw (.transport t text)
  | .cancelled _ => throw .cancelledError
  | .answer a => if frame.readable c a then pure a else throw (.other "ValidationError" "")

/-- A frame of ours, whose raw answer is read outside the slot. -/
def rawWrite (c : Client A) : Call A A := invoke c ⟨true, none⟩

def pymaxWrite (c : Client A) (m : PymaxMethod) : Call A A := invoke c ⟨true, some (.pymax m)⟩

def telethonWrite (c : Client A) (m : TelethonMethod) : Call A A := invoke c ⟨true, some (.telethon m)⟩

def telethonRead (c : Client A) (m : TelethonMethod) : Call A A := invoke c ⟨false, some (.telethon m)⟩

/-! ## The wrappers of the MAX routes -/

/-- The default of `call_max`. -/
def callMaxUncertain : String := "the message may have been sent, check list_messages before retrying"

/-- The `except` clauses of `call_max`: no answer is a 504 that keeps the slot, any other failure a
    502 that does not. -/
def callMaxError (uncertainText : String) : Exc → Exc
  | .cancelledError => .cancelledError
  | .http e => .http e
  | .transport t text => .http
      { statusCode := 504, detail := s!"{t.name}: {text} — no answer from MAX; {uncertainText}",
        keepWriteSlot := true }
  | exc => .http { statusCode := 502, detail := s!"{exc.name}: {exc.str}" }

/-- `call_max`. -/
def callMax {α : Type} (call : Call A α) (uncertainText : String) : Call A α :=
  tryCatch call fun exc => throw (callMaxError uncertainText exc)

/-- The `except` clauses of `call_max_read`: nothing was sent, no failure keeps the slot. -/
def callMaxReadError : Exc → Exc
  | .cancelledError => .cancelledError
  | .http e => .http e
  | .transport t text => .http
      { statusCode := 504, detail := s!"{t.name}: {text} — no answer from MAX (read)" }
  | exc => .http { statusCode := 502, detail := s!"{exc.name}: {exc.str}" }

/-- `call_max_read`. -/
def callMaxRead {α : Type} (call : Call A α) : Call A α :=
  tryCatch call fun exc => throw (callMaxReadError exc)

/-! ## PyMax's methods as the repository overrides them -/

/-- What happens around a message with attachments: the upload before it, and whether an attachment
    that was not ready became ready. -/
structure Upload where
  failed : Option Exc := none
  ready  : Bool := true

/-- The frame, once more when MAX answers `attachment.not.ready` and the attachment becomes ready. -/
def sendTwice (c : Client A) (reader : Reader) (u : Upload) : Call A A :=
  tryCatch (invoke c ⟨true, some reader⟩) fun
    | .apiError error text =>
        if error ≠ "attachment.not.ready" then throw (.apiError error text)
        else if u.ready then invoke c ⟨true, some reader⟩
        else throw (.other "UploadError" "attachment is not ready")
    | exc => throw exc

/-- The common body of `send_message` and `edit_message`: upload, then the frame. -/
def sendWithAttachments (c : Client A) (reader : Reader) (hasContent : Bool) (u : Upload) : Call A A := do
  if !hasContent then throw (.other "ValueError" "Either text or attachments must be provided")
  match u.failed with
  | some exc => throw exc
  | none => sendTwice c reader u

/-- `NumericForwardMessages.send_message`. -/
def sendMessage (c : Client A) (hasContent : Bool) (u : Upload) : Call A A :=
  sendWithAttachments c .message hasContent u

/-- `NumericForwardMessages.edit_message`. -/
def editMessage (c : Client A) (hasContent : Bool) (u : Upload) : Call A A :=
  sendWithAttachments c .editedMessage hasContent u

/-- `NumericForwardMessages.forward_message`. -/
def forwardMessage (c : Client A) : Call A A := invoke c ⟨true, some .message⟩

/-- The error codes that say the dialog id was not taken. -/
def chatErrors : List String := ["not.found", "chat", "dialog"]

/-- `_about_the_chat`. -/
def aboutTheChat (error : String) : Bool :=
  chatErrors.any fun part => decide (part.toList <:+: error.toLower.toList)

/-- `frames.start_bot`: by the dialog's id, and by the bot's id when MAX does not know that dialog. -/
def startBot (c : Client A) : Call A A :=
  tryCatch (rawWrite c) fun
    | .apiError error text => if aboutTheChat error then rawWrite c else throw (.apiError error text)
    | exc => throw exc

end Frames

end MyPerson.WriteSlot
