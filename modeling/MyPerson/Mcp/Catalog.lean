import MyPerson.Authz.Policy
import MyPerson.Lib.FilledPath
import MyPerson.Mcp.SafeInts

/-!
# `Mcp.Catalog` — the tools an agent may call

The catalog of `app/mcp/tools.py`: each tool with its route name, the properties of its schema as far as their types
go, and the REST call it makes: a method, a path template, and what goes into the query or the body. The variants that
a MAX account sees differ in descriptions and in properties that only the validation reads.

## Contents
- `PropKind`, `widenIds`: schemas, and ids in them;
- `PathArg`, `Fields`, `Payload`, `Handler`: REST calls as the tools write them;
- the tools; `supported` and `visible`.
-/

namespace MyPerson.Mcp

open Lib Authz
open WriteLimits (Platform)

/-! ## Schemas -/

/-- The types of properties. -/
inductive PropKind
  | integer | string | boolean | integers | strings | objects
deriving DecidableEq, Repr

def PropKind.json : PropKind → Json
  | .integer => .obj [("type", .str "integer")]
  | .string => .obj [("type", .str "string")]
  | .boolean => .obj [("type", .str "boolean")]
  | .integers => .obj [("type", .str "array"), ("items", .obj [("type", .str "integer")])]
  | .strings => .obj [("type", .str "array"), ("items", .obj [("type", .str "string")])]
  | .objects => .obj [("type", .str "array"), ("items", .obj [("type", .str "object")])]

/-- `ID_KEYS`. -/
def idKeys : List String :=
  ["chat_id", "message_id", "message_ids", "reply_to_message_id", "from_user_id", "user_id",
   "to_chat_id", "from_chat_id", "forward_from_chat_id", "forward_from_message_id", "user_ids",
   "chat_ids", "answer_ids", "link_ids"]

/-- `SMALL_IDS`. -/
def smallIds : List String := ["person_id", "identity_id", "from_id", "to_id"]

/-- `ID_TYPE`. -/
def idType : List (String × Json) :=
  [("type", .arr [.str "string", .str "integer"]), ("pattern", .str "^-?\\d+$")]

def isTypeNamed (kind : String) : Option Json → Bool
  | some (.str k) => k = kind
  | _ => false

/-- `_is_id`. -/
def isId (name : String) (prop : Json) : Bool :=
  if smallIds.contains name then false
  else if isTypeNamed "array" (prop.get? "type") then
    idKeys.contains name && isTypeNamed "integer" ((prop.get? "items").bind (Json.get? "type"))
  else isTypeNamed "integer" (prop.get? "type") && (idKeys.contains name || name.endsWith "_id")

/-- `{**fields, **ID_TYPE}`. -/
def withIdType : Json → Json
  | .obj fields => .obj (idType.foldl (fun d p => Dict.set p.1 p.2 d) fields)
  | other => other

/-- One round of `widen_ids`, but for the description. -/
def widenProperty (name : String) (prop : Json) : Json :=
  if isId name prop then
    if isTypeNamed "array" (prop.get? "type") then
      match prop with
      | .obj fields => .obj (Dict.set "items" (((prop.get? "items").map withIdType).getD .null) fields)
      | other => other
    else withIdType prop
  else prop

/-- `widen_ids` of a dictionary of properties. -/
def widenIds (properties : List (String × Json)) : List (String × Json) :=
  properties.map fun p => (p.1, widenProperty p.1 p.2)

/-! ## REST calls -/

/-- What is known of an argument in a path: an integer; a number as it is written; some text. -/
inductive ArgClass
  | int | number | text
deriving DecidableEq, Repr

/-- An argument in a path template. -/
structure PathArg where
  name : String
  cls  : ArgClass
deriving DecidableEq, Repr

/-- A segment of a path is written as it is. -/
instance : Coe String (PathPart PathArg) := ⟨.lit⟩

def chatArg : PathPart PathArg := .place ⟨"chat_id", .int⟩
def messageArg : PathPart PathArg := .place ⟨"message_id", .int⟩
def userArg : PathPart PathArg := .place ⟨"user_id", .int⟩
def personArg : PathPart PathArg := .place ⟨"person_id", .number⟩
def folderArg : PathPart PathArg := .place ⟨"folder_id", .text⟩

/-- `a[key]`, or `a.get(key, default)`. -/
inductive Source
  | item
  | get (default : Value)

/-- The fields that a call makes of the arguments: `_clean` without some keys, or a dictionary. -/
inductive Fields
  | clean (drop : List String)
  | pick (fields : List (String × Source))

/-- `ALL`. -/
def allArgs : Fields := .clean []

inductive Payload
  | nothing
  | query (fields : Fields)
  | body (fields : Fields)

structure Rest where
  method  : String
  path    : List (PathPart PathArg)
  payload : Payload := .nothing

/-- What a tool does. -/
inductive Handler
  /-- `rest(...)`. -/
  | rest (call : Rest)
  /-- `send_file`, `send_voice`, `send_video_note`, `send_album`: the files are read first. -/
  | files (call : Rest)
  /-- `download_media`: a link to what the message has. -/
  | media (call : Rest)
  /-- `person_accounts`. -/
  | personAccounts (call : Rest)
  /-- `create_upload`: no call. -/
  | createUpload

/-- `rest_route`. -/
def Handler.call : Handler → Option Rest
  | .rest call | .files call | .media call | .personAccounts call => some call
  | .createUpload => none

structure McpTool where
  name       : String
  route      : Tool
  handler    : Handler
  properties : List (String × PropKind) := []
  required   : List String := []

/-- `is_write`. -/
def McpTool.isWrite (tool : McpTool) : Bool := tool.route ∈ writeMessengerTools

/-- The properties of the schema, widened. -/
def McpTool.schema (tool : McpTool) : Schema where
  properties := widenIds (Dict.ofPairs (tool.properties.map fun p => (p.1, p.2.json)))
  hnodup     := by
    have hnodup := Dict.nodup_ofPairs (tool.properties.map fun p => (p.1, p.2.json))
    rwa [widenIds, List.map_map]

/-! ## The tools of accounts -/

section

def getRest (path : List (PathPart PathArg)) (payload : Payload := .nothing) : Handler := .rest ⟨"GET", path, payload⟩
def postRest (path : List (PathPart PathArg)) (payload : Payload := .nothing) : Handler := .rest ⟨"POST", path, payload⟩
def patchRest (path : List (PathPart PathArg)) (payload : Payload) : Handler := .rest ⟨"PATCH", path, payload⟩
def deleteRest (path : List (PathPart PathArg)) : Handler := .rest ⟨"DELETE", path, .nothing⟩

/-- `lambda a: {key: a[key]}`. -/
def only (key : String) : Fields := .pick [(key, .item)]

def chatProp : List (String × PropKind) := [("chat_id", .integer)]
def msgProps : List (String × PropKind) := [("chat_id", .integer), ("message_id", .integer)]
def pageProps : List (String × PropKind) := [("limit", .integer), ("offset", .integer)]
def fileProps : List (String × PropKind) := [("file_url", .string), ("upload_id", .string)]
def sendProps : List (String × PropKind) :=
  [("caption", .string), ("reply_to_message_id", .integer), ("parse_mode", .string), ("schedule_date", .string)]

/-- The tools of the stdio wrapper: its schemas, with the file tools adjusted (`_account_tools`), and `ROUTES`. -/
def stdioTools : List McpTool :=
  [⟨"auth_status", .authStatus, getRest ["auth", "status"], [], []⟩,
   ⟨"auth_me", .authMe, getRest ["auth", "me"], [], []⟩,
   ⟨"auth_login", .authLogin, postRest ["auth", "login"] (.body allArgs), [("phone_number", .string)],
     ["phone_number"]⟩,
   ⟨"auth_code", .authCode, postRest ["auth", "code"] (.body allArgs), [("code", .string), ("password", .string)],
     ["code"]⟩,
   ⟨"auth_logout", .authLogout, postRest ["auth", "logout"], [], []⟩,
   ⟨"list_chats", .listChats, getRest ["chats"] (.query allArgs),
     [("chat_type", PropKind.string), ("search", .string), ("is_monitored", .boolean)] ++ pageProps, []⟩,
   ⟨"get_chat", .getChatDetail, getRest ["chats", chatArg], chatProp, ["chat_id"]⟩,
   ⟨"update_chat", .updateChatSettings, patchRest ["chats", chatArg] (.body (only "is_monitored")),
     chatProp ++ [("is_monitored", PropKind.boolean)], ["chat_id", "is_monitored"]⟩,
   ⟨"join_chat", .joinChatEndpoint, postRest ["chats", "join"] (.body (only "target")), [("target", .string)],
     ["target"]⟩,
   ⟨"leave_chat", .leaveChatEndpoint, postRest ["chats", "leave"] (.body (only "chat_id")), chatProp, ["chat_id"]⟩,
   ⟨"resolve_chat", .resolveChatEndpoint, postRest ["chats", "resolve"] (.body (only "target")),
     [("target", .string)], ["target"]⟩,
   ⟨"get_chat_members", .listMembers, getRest ["chats", chatArg, "members"] (.query (.clean ["chat_id"])),
     chatProp ++ [("search", PropKind.string), ("limit", .integer)], ["chat_id"]⟩,
   ⟨"mark_chat_read", .markRead, postRest ["chats", chatArg, "read"], chatProp, ["chat_id"]⟩,
   ⟨"archive_chat", .archiveChat, postRest ["chats", chatArg, "archive"] (.body (only "archived")),
     chatProp ++ [("archived", PropKind.boolean)], ["chat_id", "archived"]⟩,
   ⟨"get_my_rights", .getMyRights, getRest ["chats", chatArg, "my_rights"], chatProp, ["chat_id"]⟩,
   ⟨"list_messages", .listMessages, getRest ["messages"] (.query allArgs),
     chatProp ++ [("from_user_id", PropKind.integer), ("search", .string), ("date_from", .string), ("date_to", .string),
       ("message_type", .string), ("is_outgoing", .boolean)] ++ pageProps, []⟩,
   ⟨"get_message", .getSingleMessage, getRest ["messages", chatArg, messageArg], msgProps, ["chat_id", "message_id"]⟩,
   ⟨"send_message", .sendMessage, postRest ["messages"] (.body allArgs),
     chatProp ++ [("text", PropKind.string), ("reply_to_message_id", .integer), ("parse_mode", .string),
       ("schedule_date", .string)], ["chat_id", "text"]⟩,
   ⟨"send_photo", .sendFile, .files ⟨"POST", ["messages", "send-file"], .nothing⟩,
     chatProp ++ sendProps ++ fileProps, ["chat_id"]⟩,
   ⟨"send_file", .sendFile, .files ⟨"POST", ["messages", "send-file"], .nothing⟩,
     chatProp ++ sendProps ++ [("voice_note", PropKind.boolean)] ++ fileProps, ["chat_id"]⟩,
   ⟨"send_album", .sendAlbum, .files ⟨"POST", ["messages", "album"], .nothing⟩,
     chatProp ++ sendProps ++ [("upload_ids", PropKind.strings), ("file_urls", .strings)], ["chat_id"]⟩,
   ⟨"send_voice", .sendVoice, .files ⟨"POST", ["messages", "send-voice"], .nothing⟩,
     chatProp ++ [("caption", PropKind.string), ("reply_to_message_id", .integer), ("schedule_date", .string)] ++
       fileProps, ["chat_id"]⟩,
   ⟨"send_poll", .sendPoll, postRest ["messages", "poll"] (.body allArgs),
     chatProp ++ [("question", PropKind.string), ("options", .strings), ("is_anonymous", .boolean),
       ("allows_multiple", .boolean), ("quiz_correct_option", .integer), ("schedule_date", .string),
       ("reply_to_message_id", .integer)], ["chat_id", "question", "options"]⟩,
   ⟨"forward_message", .forwardMessage, postRest ["messages", "forward"] (.body allArgs),
     [("from_chat_id", .integer), ("to_chat_id", .integer), ("message_id", .integer), ("message_ids", .integers)],
     ["from_chat_id", "to_chat_id"]⟩,
   ⟨"edit_message", .editMessage, postRest ["messages", "edit"] (.body allArgs),
     msgProps ++ [("text", PropKind.string), ("parse_mode", .string), ("scheduled", .boolean)],
     ["chat_id", "message_id", "text"]⟩,
   ⟨"delete_message", .deleteMessage, deleteRest ["messages", chatArg, messageArg], msgProps,
     ["chat_id", "message_id"]⟩,
   ⟨"pin_message", .pinMessage,
     postRest ["messages", chatArg, messageArg, "pin"] (.query (.pick [("notify", .get (.scalar (.bool true)))])),
     msgProps ++ [("notify", PropKind.boolean)], ["chat_id", "message_id"]⟩,
   ⟨"unpin_message", .unpinMessage, postRest ["messages", chatArg, messageArg, "unpin"], msgProps,
     ["chat_id", "message_id"]⟩,
   ⟨"react_to_message", .reactToMessage,
     postRest ["messages", chatArg, messageArg, "react"] (.body (.pick [("emoticon", .get (.scalar .null))])),
     msgProps ++ [("emoticon", PropKind.string)], ["chat_id", "message_id"]⟩,
   ⟨"download_media", .downloadMedia, .media ⟨"GET", ["messages", chatArg, messageArg], .nothing⟩,
     msgProps ++ [("save_to", PropKind.string), ("index", .integer)], ["chat_id", "message_id"]⟩,
   ⟨"list_scheduled", .listScheduled, getRest ["messages", "scheduled"] (.query (only "chat_id")), chatProp,
     ["chat_id"]⟩,
   ⟨"cancel_scheduled", .cancelScheduled, deleteRest ["messages", "scheduled", chatArg, messageArg], msgProps,
     ["chat_id", "message_id"]⟩,
   ⟨"send_scheduled_now", .sendScheduledNow, postRest ["messages", "scheduled", chatArg, messageArg, "send-now"],
     msgProps, ["chat_id", "message_id"]⟩,
   ⟨"list_users", .listUsers, getRest ["users"] (.query allArgs), [("search", PropKind.string)] ++ pageProps, []⟩,
   ⟨"resolve_user", .resolveUser, postRest ["users", "resolve"] (.body (only "username")), [("username", .string)],
     ["username"]⟩,
   ⟨"block_user", .blockUser, postRest ["users", userArg, "block"], [("user_id", .integer)], ["user_id"]⟩,
   ⟨"unblock_user", .unblockUser, postRest ["users", userArg, "unblock"], [("user_id", .integer)], ["user_id"]⟩,
   ⟨"list_contacts", .listContacts, getRest ["contacts"] (.query allArgs), pageProps, []⟩,
   ⟨"global_search", .searchGlobal,
     getRest ["search", "global"] (.query (.pick [("q", .item), ("limit", .get (.int 20))])),
     [("q", .string), ("limit", .integer)], ["q"]⟩,
   ⟨"sync_chats", .syncChats, postRest ["sync", "chats"], [], []⟩,
   ⟨"backfill_history", .triggerBackfill,
     postRest ["sync", "backfill"] (.body (.pick [("chat_id", .item), ("limit", .get (.int 1000))])),
     chatProp ++ [("limit", PropKind.integer)], ["chat_id"]⟩,
   ⟨"sync_status", .syncStatus, getRest ["sync", "status"], [], []⟩]

/-- `_clean(a, "chat_id")`. -/
def butChat : Fields := .clean ["chat_id"]
def butMessage : Fields := .clean ["chat_id", "message_id"]

/-- `_max_group_tools`. -/
def maxGroupTools : List McpTool :=
  [⟨"create_group", .createGroup, postRest ["groups"] (.body allArgs),
     [("title", .string), ("user_ids", .integers), ("notify", .boolean), ("chat_type", .string)], ["title"]⟩,
   ⟨"add_group_members", .addGroupMembers, postRest ["groups", chatArg, "members"] (.body butChat),
     chatProp ++ [("user_ids", PropKind.integers), ("show_history", .boolean), ("start_payload", .string)],
     ["chat_id", "user_ids"]⟩,
   ⟨"remove_group_members", .removeGroupMembers, postRest ["groups", chatArg, "members", "remove"] (.body butChat),
     chatProp ++ [("user_ids", PropKind.integers), ("delete_messages", .boolean)], ["chat_id", "user_ids"]⟩,
   ⟨"set_group_admin", .setGroupAdmin, postRest ["groups", chatArg, "admins"] (.body butChat),
     chatProp ++ [("user_id", PropKind.integer), ("permissions", .strings), ("permissions_mask", .integer)],
     ["chat_id", "user_id"]⟩,
   ⟨"remove_group_admin", .removeGroupAdmin, postRest ["groups", chatArg, "admins", "remove"] (.body butChat),
     chatProp ++ [("user_id", PropKind.integer)], ["chat_id", "user_id"]⟩,
   ⟨"update_group_profile", .updateGroupProfile, patchRest ["groups", chatArg] (.body butChat),
     chatProp ++ [("title", PropKind.string), ("description", .string)], ["chat_id"]⟩,
   ⟨"update_group_settings", .updateGroupSettings, patchRest ["groups", chatArg, "settings"] (.body butChat),
     chatProp ++ [("all_can_pin_message", PropKind.boolean), ("only_owner_can_change_icon_title", .boolean),
       ("only_admin_can_add_member", .boolean), ("only_admin_can_call", .boolean),
       ("members_can_see_private_link", .boolean), ("join_request", .boolean), ("disable_forward", .boolean),
       ("comments", .boolean)], ["chat_id"]⟩,
   ⟨"get_invite_link", .getInviteLink, getRest ["groups", chatArg, "invite-link"], chatProp, ["chat_id"]⟩,
   ⟨"reset_invite_link", .resetInviteLink, postRest ["groups", chatArg, "invite-link"], chatProp, ["chat_id"]⟩,
   ⟨"list_join_requests", .listJoinRequests, getRest ["groups", chatArg, "join-requests"] (.query butChat),
     chatProp ++ [("limit", PropKind.integer)], ["chat_id"]⟩,
   ⟨"approve_join_requests", .approveJoinRequests,
     postRest ["groups", chatArg, "join-requests", "approve"] (.body butChat),
     chatProp ++ [("user_ids", PropKind.integers), ("show_history", .boolean)], ["chat_id", "user_ids"]⟩,
   ⟨"decline_join_requests", .declineJoinRequests,
     postRest ["groups", chatArg, "join-requests", "decline"] (.body butChat),
     chatProp ++ [("user_ids", PropKind.integers)], ["chat_id", "user_ids"]⟩,
   ⟨"delete_group", .deleteGroup, postRest ["groups", chatArg, "delete"] (.body butChat),
     chatProp ++ [("confirm_title", PropKind.string), ("for_all", .boolean)], ["chat_id", "confirm_title"]⟩,
   ⟨"transfer_group_ownership", .transferGroupOwnership, postRest ["groups", chatArg, "owner"] (.body butChat),
     chatProp ++ [("user_id", PropKind.integer), ("confirm_title", .string), ("confirm_user_id", .integer)],
     ["chat_id", "user_id", "confirm_title", "confirm_user_id"]⟩]

/-- `_max_r4_tools`. -/
def maxR4Tools : List McpTool :=
  [⟨"send_video_note", .sendVideoNote, .files ⟨"POST", ["messages", "send-video-note"], .nothing⟩,
     chatProp ++ [("reply_to_message_id", PropKind.integer), ("duration_ms", .integer)] ++ fileProps, ["chat_id"]⟩,
   ⟨"vote_poll", .votePoll, postRest ["messages", chatArg, messageArg, "vote"] (.body butMessage),
     msgProps ++ [("answer_ids", PropKind.integers), ("poll_id", .integer)], ["chat_id", "message_id", "answer_ids"]⟩,
   ⟨"get_reactions", .getReactions, getRest ["messages", chatArg, messageArg, "reactions"], msgProps,
     ["chat_id", "message_id"]⟩,
   ⟨"import_contacts", .importContacts, postRest ["contacts", "import"] (.body allArgs),
     [("contacts", .objects), ("refresh", .boolean)], ["contacts"]⟩,
   ⟨"remove_contact", .removeContact, postRest ["contacts", userArg, "remove"], [("user_id", .integer)], ["user_id"]⟩,
   ⟨"delete_dialog", .deleteDialog, postRest ["chats", chatArg, "delete"] (.body butChat),
     chatProp ++ [("confirm_user_id", PropKind.integer), ("for_all", .boolean)], ["chat_id", "confirm_user_id"]⟩,
   ⟨"list_folders", .listFolders, getRest ["folders"], [], []⟩,
   ⟨"create_folder", .createFolder, postRest ["folders"] (.body allArgs),
     [("title", .string), ("chat_ids", .integers)], ["title"]⟩,
   ⟨"update_folder", .updateFolder, patchRest ["folders", folderArg] (.body (.clean ["folder_id"])),
     [("folder_id", .string), ("title", .string), ("chat_ids", .integers)], ["folder_id"]⟩,
   ⟨"delete_folder", .deleteFolder, postRest ["folders", folderArg, "delete"] (.body (.clean ["folder_id"])),
     [("folder_id", .string), ("confirm_title", .string)], ["folder_id", "confirm_title"]⟩]

/-- `_max_r5_tools`. -/
def maxR5Tools : List McpTool :=
  [⟨"press_button", .pressButton, postRest ["messages", chatArg, messageArg, "press"] (.body butMessage),
     msgProps ++ [("row", PropKind.integer), ("column", .integer)], ["chat_id", "message_id", "row", "column"]⟩,
   ⟨"start_bot", .startBot, postRest ["bots", "start"] (.body allArgs),
     [("bot_id", .integer), ("start_payload", .string)], ["bot_id"]⟩,
   ⟨"get_bot_info", .getBotInfo, getRest ["bots", "info"] (.query allArgs),
     [("bot_id", .integer), ("chat_id", .integer)], []⟩,
   ⟨"get_message_link", .getMessageLink, getRest ["messages", chatArg, messageArg, "link"], msgProps,
     ["chat_id", "message_id"]⟩,
   ⟨"get_poll_voters", .getPollVoters, getRest ["messages", chatArg, messageArg, "voters"] (.query butMessage),
     msgProps ++ [("answer_id", PropKind.integer), ("limit", .integer)], ["chat_id", "message_id", "answer_id"]⟩,
   ⟨"transcribe_voice", .transcribeVoice, postRest ["messages", chatArg, messageArg, "transcribe"] (.body butMessage),
     msgProps ++ [("index", PropKind.integer)], ["chat_id", "message_id"]⟩,
   ⟨"search_chat_messages", .searchChatMessages, getRest ["messages", chatArg, "search"] (.query butChat),
     chatProp ++ [("query", PropKind.string), ("limit", .integer), ("marker", .integer)], ["chat_id", "query"]⟩,
   ⟨"get_post_stats", .getPostStats, getRest ["messages", chatArg, "stats"] (.query butChat),
     chatProp ++ [("message_ids", PropKind.integers)], ["chat_id", "message_ids"]⟩]

/-- `ACCOUNT_TOOLS`. -/
def accountTools : List McpTool := stdioTools ++ maxGroupTools ++ maxR4Tools ++ maxR5Tools

/-- `RW_TOOLS`. -/
def rwTools : List McpTool :=
  [⟨"reachable_contacts", .reachableContacts, getRest ["reachable"] (.query allArgs),
     [("q", PropKind.string)] ++ pageProps, []⟩,
   ⟨"send_to_person", .sendToPerson, postRest ["messages", "to-person"] (.body allArgs),
     [("person_id", .integer), ("text", .string)], ["person_id", "text"]⟩,
   ⟨"contact_by_phone", .contactByPhone, postRest ["contacts", "by-phone"] (.body allArgs),
     [("phone", .string), ("first_name", .string), ("last_name", .string), ("refresh", .boolean)], ["phone"]⟩,
   ⟨"create_upload", .sendFile, .createUpload, [], []⟩]

/-! ## The tools of the owner -/

def personProp : List (String × PropKind) := [("person_id", .integer)]

/-- `OWNER_TOOLS`. -/
def ownerTools : List McpTool :=
  [⟨"find_person", .findPerson, getRest ["people"] (.query allArgs),
     [("q", PropKind.string), ("tag", .string), ("platform", .string)] ++ pageProps, []⟩,
   ⟨"get_person", .getPerson, getRest ["people", personArg], personProp, ["person_id"]⟩,
   ⟨"person_accounts", .getPerson, .personAccounts ⟨"GET", ["people", personArg], .nothing⟩, personProp,
     ["person_id"]⟩,
   ⟨"person_messages", .personMessages, getRest ["people", personArg, "messages"] (.query (.clean ["person_id"])),
     personProp ++ [("account", PropKind.string), ("chat_id", .integer), ("date_from", .string), ("date_to", .string)] ++
       pageProps, ["person_id"]⟩,
   ⟨"person_chats", .personChats, getRest ["people", personArg, "chats"], personProp, ["person_id"]⟩,
   ⟨"update_person", .updatePerson, patchRest ["people", personArg] (.body (.clean ["person_id"])),
     personProp ++ [("display_name", PropKind.string), ("tags", .strings), ("notes", .string)], ["person_id"]⟩,
   ⟨"merge_people", .mergePeople, postRest ["people", "merge"] (.body allArgs),
     [("from_id", .integer), ("to_id", .integer), ("reason", .string)], ["from_id", "to_id"]⟩,
   ⟨"split_person", .splitPerson, postRest ["people", "split"] (.body allArgs),
     [("identity_id", .integer), ("reason", .string)], ["identity_id"]⟩]

end

/-- The values of `BY_NAME`. -/
def allTools : List McpTool := accountTools ++ rwTools ++ ownerTools

/-- `BY_NAME.get`. -/
def byName (name : String) : Option McpTool := allTools.find? fun t => t.name = name

/-! ## Who sees which -/

/-- `Caller`, but for the base URL. -/
structure Caller where
  owner       : Bool
  accountId   : Option Nat
  callerAlias : Option String
  platform    : Platform
  mode        : Mode
deriving DecidableEq, Repr

/-- The routes of `invoke._routes`, under the prefix they are mounted at. -/
def platformTable : Platform → List (Route Convertor Tool)
  | .telegram => apiTable
  | .max => maxTable

def platformBase : Platform → List String
  | .telegram => apiBase
  | .max => maxBase

/-- `supported`. -/
def supported (tool : McpTool) (platform : Platform) : Bool :=
  (platformTable platform).any fun r => r.name = tool.route

/-- `SCHEDULED_TOOLS`. -/
def scheduledTools : List String := ["list_scheduled", "cancel_scheduled", "send_scheduled_now"]

/-- `visible`; `scheduled` is `max_settings.scheduled_enabled`. -/
def visible (scheduled : Bool) (caller : Caller) : List McpTool :=
  if caller.owner then ownerTools
  else
    let tools := if caller.mode ≠ .rw then accountTools.filter fun t => !t.isWrite else accountTools ++ rwTools
    let off := if caller.platform = .max ∧ scheduled = false then scheduledTools else []
    tools.filter fun t => supported t caller.platform && !off.contains t.name

theorem mem_allTools_of_visible {scheduled : Bool} {caller : Caller} {tool : McpTool}
    (h : tool ∈ visible scheduled caller) : tool ∈ allTools := by
  unfold visible at h
  split at h
  · exact List.mem_append_right _ h
  · have hmem := List.mem_of_mem_filter h
    refine List.mem_append_left _ ?_
    split at hmem
    · exact List.mem_append_left _ (List.mem_of_mem_filter hmem)
    · exact hmem

/-- Names are keys. -/
theorem allTools_nodup : (allTools.map McpTool.name).Nodup := by decide +kernel

end MyPerson.Mcp
