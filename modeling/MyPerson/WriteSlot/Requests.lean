import MyPerson.WriteSlot.Messenger

/-!
# `WriteSlot.Requests` — what each write does inside its slot

The body of every `async with write_slot(...)` and `async with bundle_slot(...)` of the MAX routes
(`app/max/api`) and of the Telegram routes (`app/api`), under the tool's name. The arguments of a
request are kept where the body branches on them. What a route does before its slot, or after it, is
not part of the body.
-/

namespace MyPerson.WriteSlot

open Lib

/-! ## MAX -/

/-- The routes that send a message with attachments through `_send_attachments`. -/
inductive AttachmentTool
  | sendFile | sendVoice | sendVideoNote | sendAlbum | sendPoll
deriving DecidableEq, Repr

/-- A write of a MAX account. -/
inductive MaxRequest
  | sendMessage (hasText : Bool)
  | scheduleMessage
  | sendToPerson (hasText : Bool)
  | sendAttachments (tool : AttachmentTool) (upload : Upload)
  | cancelScheduled
  | sendScheduledNow
  | forwardMessage
  | editMessage (hasText : Bool)
  | deleteMessage
  | reactToMessage (emoticon : Bool)
  | votePoll
  | pinMessage
  | unpinMessage
  | pressButton
  | createFolder
  | updateFolder
  | deleteFolder
  | createGroup (channel : Bool)
  | addGroupMembers (startPayload channel : Bool)
  | removeGroupMembers (deleteMessages : Bool)
  | setGroupAdmin
  | removeGroupAdmin
  | updateGroupProfile
  | updateGroupSettings (pymaxSettings : Bool)
  | resetInviteLink
  | approveJoinRequests
  | declineJoinRequests
  | deleteGroup
  | transferGroupOwnership
  | createInviteLink
  | revokeInviteLinks
  | importContacts
  | removeContact
  | joinChat (byInvite : Bool)
  | markRead
  | leaveChat (channel : Bool)
  | deleteDialog
  | startBot
  | blockUser
  | unblockUser

section Max

variable {A : Type}

def uncertainMessages : String := "the change may have been applied, check get_chat / get_message"

def uncertainGroups : String := "the change may have been applied, check get_chat / get_chat_members"

def uncertainFolders : String := "the folder may have been changed, check list_folders"

def uncertainBots : String := "/start may have been sent, check list_messages of the dialog with the bot"

/-- `_maybe_created`: MAX took the frame and sent no chat back; the slots stay. -/
def maybeCreated : HttpException where
  statusCode := 502
  detail := "MAX answered without the new group; it may have been created, check list_chats before retrying"
  keepWriteSlot := true

/-- The slot of `create_group`. A channel is our own frame, read outside the slot. -/
def createGroup (c : Client A) (channel : Bool) : Call A Unit := do
  if channel then
    let _ ← callMax (rawWrite c) uncertainGroups
  else
    let answer ← callMax (pymaxWrite c .createGroup) uncertainGroups
    if !c.newGroup answer then throw (.http maybeCreated)

/-- The slot of `mark_read`: the last message is read from MAX first. -/
def markRead (c : Client A) : Call A Unit := do
  let history ← callMaxRead (invoke c ⟨false, some (.pymax .fetchHistory)⟩)
  if !c.hasMessages history then throw (.http { statusCode := 404, detail := "Chat has no messages" })
  let _ ← callMax (pymaxWrite c .readMessage) callMaxUncertain

/-- The `except HTTPException` clause of `_block`: a 504 is raised anew, with its mark. -/
def blockError : Exc → Exc
  | .http e => if e.statusCode = 504 then .http { e with keepWriteSlot := true } else .http e
  | exc => exc

/-- The slot of `_block`. -/
def blockUser (c : Client A) : Call A Unit :=
  tryCatch (do let _ ← callMax (rawWrite c) "the block may have been applied") fun exc =>
    throw (blockError exc)

/-- A slot that covers one call. -/
def one (call : Call A A) (uncertainText : String) : Call A Unit := do
  let _ ← callMax call uncertainText

/-- The body of the slot of a MAX write. -/
def MaxRequest.body (c : Client A) : MaxRequest → Call A Unit
  | .sendMessage hasText => one (WriteSlot.sendMessage c hasText {}) callMaxUncertain
  | .scheduleMessage =>
      one (rawWrite c) "the message may have been scheduled, check list_scheduled before retrying"
  | .sendToPerson hasText => one (WriteSlot.sendMessage c hasText {}) callMaxUncertain
  | .sendAttachments _ upload => one (WriteSlot.sendMessage c true upload) callMaxUncertain
  | .cancelScheduled => one (rawWrite c) "it may have been cancelled, check list_scheduled"
  | .sendScheduledNow => one (rawWrite c) "it may have been sent, check list_messages"
  | .forwardMessage => one (WriteSlot.forwardMessage c) callMaxUncertain
  | .editMessage hasText => one (WriteSlot.editMessage c hasText {}) callMaxUncertain
  | .deleteMessage => one (pymaxWrite c .deleteMessage) callMaxUncertain
  | .reactToMessage emoticon =>
      one (pymaxWrite c (if emoticon then .addReaction else .removeReaction)) callMaxUncertain
  | .votePoll => one (rawWrite c) uncertainMessages
  | .pinMessage => one (pymaxWrite c .pinMessage) uncertainMessages
  | .unpinMessage => one (rawWrite c) uncertainMessages
  | .pressButton => one (rawWrite c) uncertainMessages
  | .createFolder => one (pymaxWrite c .createFolder) uncertainFolders
  | .updateFolder => one (pymaxWrite c .updateFolder) uncertainFolders
  | .deleteFolder => one (pymaxWrite c .deleteFolder) uncertainFolders
  | .createGroup channel => WriteSlot.createGroup c channel
  | .addGroupMembers startPayload channel =>
      if startPayload then one (invoke c ⟨true, some .chat⟩) uncertainGroups
      else one (pymaxWrite c (if channel then .inviteUsersToChannel else .inviteUsersToGroup)) uncertainGroups
  | .removeGroupMembers deleteMessages =>
      if deleteMessages then one (invoke c ⟨true, some .deletedIds⟩) uncertainGroups
      else one (pymaxWrite c .removeUsersFromGroup) uncertainGroups
  | .setGroupAdmin => one (rawWrite c) uncertainGroups
  | .removeGroupAdmin => one (rawWrite c) uncertainGroups
  | .updateGroupProfile => one (pymaxWrite c .changeGroupProfile) uncertainGroups
  | .updateGroupSettings pymaxSettings =>
      if pymaxSettings then one (pymaxWrite c .changeGroupSettings) uncertainGroups
      else one (rawWrite c) uncertainGroups
  | .resetInviteLink => one (pymaxWrite c .reworkInviteLink) uncertainGroups
  | .approveJoinRequests => one (pymaxWrite c .confirmJoinRequests) uncertainGroups
  | .declineJoinRequests => one (pymaxWrite c .declineJoinRequests) uncertainGroups
  | .deleteGroup => one (pymaxWrite c .deleteChat) uncertainGroups
  | .transferGroupOwnership => one (invoke c ⟨true, some .chat⟩) uncertainGroups
  | .createInviteLink => one (rawWrite c) uncertainGroups
  | .revokeInviteLinks => one (rawWrite c) uncertainGroups
  | .importContacts => one (rawWrite c) "the import may have been applied, check list_contacts"
  | .removeContact =>
      one (pymaxWrite c .removeContact) "the contact may have been removed, check list_contacts"
  | .joinChat byInvite =>
      one (pymaxWrite c (if byInvite then .joinGroup else .joinChannel))
        "the join may have been applied, check list_chats"
  | .markRead => WriteSlot.markRead c
  | .leaveChat channel =>
      one (pymaxWrite c (if channel then .leaveChannel else .leaveGroup)) uncertainGroups
  | .deleteDialog => one (pymaxWrite c .deleteChat) uncertainGroups
  | .startBot => one (WriteSlot.startBot c) uncertainBots
  | .blockUser => WriteSlot.blockUser c
  | .unblockUser => WriteSlot.blockUser c

end Max

/-! ## Telegram -/

/-- How a person is reached. -/
inductive ReachMethod
  | direct | username | phone
deriving DecidableEq, Repr

/-- A write of a Telegram account. `prepare` is what goes wrong before the frame (an unreadable
    upload), if anything. -/
inductive TgRequest
  | sendMessage
  | forwardMessage (hasIds : Bool)
  | editMessage
  | sendFile (prepare : Option Exc)
  | sendVoice (prepare : Option Exc)
  | sendAlbum (files : Nat) (prepare : Option Exc)
  | sendPoll
  | deleteMessage
  | reactToMessage
  | markRead
  | sendToPerson (method : ReachMethod)

section Telegram

variable {A : Type}

/-- `except Exception as e: raise HTTPException(status_code=..., detail=str(e))`. -/
def tgError (statusCode : Nat) : Exc → Exc
  | .cancelledError => .cancelledError
  | exc => .http { statusCode := statusCode, detail := exc.str }

def tgWrapped (statusCode : Nat) (call : Call A Unit) : Call A Unit :=
  tryCatch call fun exc => throw (tgError statusCode exc)

/-- A frame after its preparation. -/
def tgSend (c : Client A) (m : TelethonMethod) (prepare : Option Exc) : Call A Unit := do
  if let some exc := prepare then throw exc
  let _ ← telethonWrite c m

/-- A raw request to an entity that is looked up first. -/
def tgToEntity (c : Client A) (m : TelethonMethod) : Call A Unit := do
  let _ ← telethonRead c .getInputEntity
  let _ ← telethonWrite c m

/-- `ImportContactsRequest`: the number has to be one of a Telegram user. -/
def tgImport (c : Client A) : Call A Unit := do
  let found ← telethonRead c .importContacts
  if !c.hasUsers found then
    throw (.http { statusCode := 404, detail := "phone is not registered in Telegram" })

/-- `_send_to_person`: by phone the contact is imported first. No wrapper. -/
def tgSendToPerson (c : Client A) (method : ReachMethod) : Call A Unit := do
  if method = .phone then tgImport c
  let _ ← telethonWrite c .sendMessage

/-- The `except` clauses of `send_album`: an `HTTPException` goes on as it is. -/
def tgAlbumError : Exc → Exc
  | .http e => .http e
  | exc => tgError 500 exc

/-- The slot of `send_album`. -/
def tgSendAlbum (c : Client A) (files : Nat) (prepare : Option Exc) : Call A Unit := do
  if files < 2 then throw (.http { statusCode := 400, detail := "Album requires at least 2 files" })
  if files > 10 then throw (.http { statusCode := 400, detail := "Album supports max 10 files" })
  tryCatch (tgSend c .sendAlbum prepare) fun exc => throw (tgAlbumError exc)

/-- The body of the slot of a Telegram write. -/
def TgRequest.body (c : Client A) : TgRequest → Call A Unit
  | .sendMessage => tgWrapped 500 (tgSend c .sendMessage none)
  | .forwardMessage hasIds =>
      if hasIds then tgWrapped 500 (tgSend c .forwardMessages none)
      else throw (.http { statusCode := 400, detail := "Provide message_id or message_ids" })
  | .editMessage => tgWrapped 400 (tgSend c .editMessage none)
  | .sendFile prepare => tgWrapped 500 (tgSend c .sendFile prepare)
  | .sendVoice prepare => tgWrapped 500 (tgSend c .sendFile prepare)
  | .sendAlbum files prepare => tgSendAlbum c files prepare
  | .sendPoll => tgWrapped 500 (tgToEntity c .sendMedia)
  | .deleteMessage => tgWrapped 500 (tgSend c .deleteMessages none)
  | .reactToMessage => tgWrapped 400 (tgToEntity c .sendReaction)
  | .markRead => tgWrapped 400 (tgSend c .sendReadAcknowledge none)
  | .sendToPerson method => tgSendToPerson c method

end Telegram

/-! ## Either platform -/

inductive Request
  | max (r : MaxRequest)
  | telegram (r : TgRequest)

def Request.body {A : Type} (c : Client A) : Request → Call A Unit
  | .max r => r.body c
  | .telegram r => r.body c

end MyPerson.WriteSlot
