import Mathlib.Data.Option.Basic
import MyPerson.Lib.Dict
import MyPerson.Lib.Json
import MyPerson.MaxDialogs.Titles
import MyPerson.Phone.Mask

/-!
# `MaxRepair.Normalize` — type, text and media of a stored message

What `_repaired` of `app/scripts/max_repair.py` takes from `app/max/normalize.py`: `parse_stored`, and of
`normalize_message` the message type, the text and the media rows. The client library's own check of a message is a
parameter; of a message only what these columns come from is kept.

## Contents
- `parseStored`;
- `Attachment`, `Msg`, `allAttaches`, `messageType`, `mediaRows`, `contactCards`, `cardsText`;
- `normalizeMessage`, `repaired`.
-/

namespace MyPerson.MaxRepair

open Lib

/-! ## `parse_stored` -/

/-- `is_bytes_marker` of a dictionary. -/
def isBytesMarker : List (String × Json) → Bool
  | [(key, .int _)] => key = "_bytes"
  | _ => false

mutual

/-- `strip_bytes_markers`. -/
def stripBytesMarkers : Json → Json
  | .obj fields => if isBytesMarker fields then .null else .obj (stripFields fields)
  | .arr items => .arr (stripItems items)
  | v => v

def stripItems : List Json → List Json
  | [] => []
  | v :: items => stripBytesMarkers v :: stripItems items

def stripFields : List (String × Json) → List (String × Json)
  | [] => []
  | (k, v) :: fields => (k, stripBytesMarkers v) :: stripFields fields

end

/-- The defaults of a delayed message, under what the message has. -/
def delayedAttributes (attrs : List (String × Json)) : List (String × Json) :=
  attrs.foldl (fun d e => Dict.set e.1 e.2 d) [("notifySender", .bool false), ("notifyOpponents", .bool false)]

/-- `_delayed_filled`. -/
def delayedFilled (payload : List (String × Json)) : List (String × Json) :=
  let fill := fun msg : List (String × Json) =>
    match Json.field "delayedAttributes" msg with
    | some (.obj attrs) =>
        if (Json.field "notifySender" attrs).isSome && (Json.field "notifyOpponents" attrs).isSome then none
        else some (Dict.set "delayedAttributes" (.obj (delayedAttributes attrs)) msg)
    | _ => none
  match Json.field "message" payload with
  | some (.obj msg) =>
      match fill msg with
      | some filled => Dict.set "message" (.obj filled) payload
      | none => payload
  | _ => (fill payload).getD payload

variable {M : Type*}

/-- `parse_stored`, with `validate` for the client's `Message.model_validate`; `none` when something raises. -/
def parseStored (validate : List (String × Json) → Option M) : Json → Option M
  | .obj fields =>
      match stripBytesMarkers (.obj (fields.filter fun f => f.1 ≠ "_pymax")) with
      | .obj payload => validate (delayedFilled payload)
      | _ => none
  | _ => none

/-! ## Messages -/

inductive AttachmentType
  | photo | video | file | audio | sticker | contact | share | call | poll | control | inlineKeyboard
  /-- A type that the client library does not know, or none. -/
  | unrecognized
  deriving DecidableEq

structure Attachment where
  type      : AttachmentType
  photoId   : Option Int
  videoId   : Option Int
  fileId    : Option Int
  audioId   : Option Int
  stickerId : Option Int
  contactId : Option Int
  name      : Option String
  firstName : Option String
  lastName  : Option String
  phone     : Option String
  size      : Option Int

inductive LinkType
  | reply | forward | other
  deriving DecidableEq

/-- The message a link leads to. -/
structure Linked where
  text     : Option String
  attaches : List Attachment

structure Link where
  type    : LinkType
  message : Option Linked

structure Msg where
  text     : Option String
  time     : Option Int
  attaches : List Attachment
  link     : Option Link

/-- `x or None` of a text. -/
def orNone (s : Option String) : Option String := s.filter fun s => s ≠ ""

/-- `forward_link`, as the message that was forwarded. -/
def Msg.forwarded (msg : Msg) : Option Linked :=
  msg.link.bind fun link => if link.type = .forward then link.message else none

/-- `all_attaches`: the attachments with their numbers, own ones first. -/
def allAttaches (msg : Msg) : List (Nat × Attachment) :=
  (msg.attaches ++ (msg.forwarded.map Linked.attaches).getD []).zipIdx.map fun a => (a.2, a.1)

/-- `_attachment_kind`. -/
def AttachmentType.kind : AttachmentType → Option String
  | .photo => some "photo"
  | .video => some "video"
  | .file => some "document"
  | .audio => some "voice"
  | .sticker => some "sticker"
  | .contact => some "contact"
  | .share => some "web_page"
  | .call => some "call"
  | .poll => some "poll"
  | .control => some "service"
  | .inlineKeyboard => none
  | .unrecognized => some "unknown"

/-- `message_type`. -/
def messageType (msg : Msg) : String := ((allAttaches msg).findSome? fun a => a.2.type.kind).getD "text"

/-- The columns of a media row that come from the message; the unique id and the MIME type are null. -/
structure MediaValues where
  attachIndex : Nat
  fileType    : String
  fileId      : Option String
  fileName    : Option String
  fileSize    : Option Int

/-- `_MEDIA_TYPES`. -/
def mediaTypes : List String := ["photo", "video", "document", "voice", "sticker"]

/-- The first id that is set and not 0, else that of a sticker. -/
def Attachment.anyFileId (a : Attachment) : Option Int :=
  ((([a.photoId, a.videoId, a.fileId, a.audioId].reduceOption).find? fun id => id ≠ 0)).or a.stickerId

/-- `media_rows`. -/
def mediaRows (msg : Msg) : List MediaValues :=
  (allAttaches msg).filterMap fun (index, a) =>
    match a.type.kind with
    | none => none
    | some kind =>
        if kind ∈ mediaTypes then some ⟨index, kind, a.anyFileId.map toString, a.name, a.size⟩ else none

structure Card where
  userId : Option Int
  name   : Option String
  phone  : Option String

/-- `contact_cards`, with the phones of the cards themselves. -/
def contactCards (msg : Msg) : List Card :=
  (allAttaches msg).filterMap fun (_, a) =>
    if a.type = .contact then
      let full := " ".intercalate ([a.firstName, a.lastName].map orNone).reduceOption
      some ⟨a.contactId, (orNone a.name).or (orNone (some full)),
        (a.phone.bind fun phone => Phone.normalizePhone phone.toList).map String.ofList⟩
    else none

/-- `cards_text`. -/
def cardsText (cards : List Card) : Option String :=
  orNone (some ("; ".intercalate (cards.map fun c =>
    let label := c.name.getD ((c.userId.map toString).getD "?")
    match c.phone with
    | some phone => s!"Контакт: {label}, {phone}"
    | none => s!"Контакт: {label}")))

/-! ## `normalize_message` -/

inductive Failure
  /-- The run is not allowed. -/
  | refused
  /-- A reply or a forward without its message. -/
  | noMessage
  /-- A time that no datetime has. -/
  | badTime
  /-- The statement that sets the titles. -/
  | titles (e : MaxDialogs.Failure)

/-- The columns that a repair sets. -/
structure Repaired where
  messageType : String
  text        : Option String
  media       : List MediaValues

/-- `ms_to_dt` does not raise: the years are 1 to 9999. -/
def datable (time : Option Int) : Bool :=
  time.all fun ms => ms = 0 || (-62135596800000 ≤ ms && ms < 253402300800000)

/-- `normalize_message`. -/
def normalizeMessage (msg : Msg) : Except Failure Repaired :=
  let needsMessage := msg.link.any fun link => link.type ≠ .other && link.message.isNone
  if needsMessage then .error .noMessage
  else if !datable msg.time then .error .badTime
  else
    let text := (orNone msg.text).or (msg.forwarded.bind fun linked => orNone linked.text)
    let media := mediaRows msg
    match text with
    | some text => .ok ⟨messageType msg, some text, media⟩
    | none =>
        let text := cardsText (contactCards msg)
        .ok ⟨if text.isSome && media.isEmpty then "contact" else messageType msg, text, media⟩

/-- `_repaired`; `none` when raw does not parse. -/
def repaired (validate : List (String × Json) → Option Msg) (raw : Json) : Except Failure (Option Repaired) :=
  match parseStored validate raw with
  | none => .ok none
  | some msg => (normalizeMessage msg).map some

end MyPerson.MaxRepair
