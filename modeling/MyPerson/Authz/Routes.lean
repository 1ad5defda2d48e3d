import MyPerson.Lib.Decimal
import MyPerson.Lib.RouteTable

/-!
# `Authz.Routes` — the routes of the two APIs

The leaf routers of `app/api` (Telegram) and of `app/max/api` (MAX) with their prefixes, in the order
in which `API_ROUTERS` and `MAX_API_ROUTERS` include them, and the flat table that
`app/authz/route_table.py` builds of them. A route name is the tool that the authorization checks.

## Contents
- `Tool`, the names; `maxOnlyTools`;
- `Convertor`, the parameters of path templates;
- the routers; `apiTable`, `maxTable` and `routeTable`.
-/

namespace MyPerson.Authz

open Lib

/-- The route names. -/
inductive Tool
  | adminListWriteLimits | adminGetWriteLimits | adminPatchWriteLimits | adminResetWriteLimits
  | adminCreateAccount | adminListAccounts | adminGetAccount | adminPatchAccount
  | adminDeleteAccount | adminAccountAudit | adminIsolationProbe | adminIsolationMeasureRaw
  | adminCreateAccountKey | adminListAccountKeys | adminCreateOwnerKey | adminListOwnerKeys
  | adminRevokeKey | authStatus | authMe | authLogin | authCode | authSession | authLogout
  | listChats | joinChatEndpoint | leaveChatEndpoint | resolveChatEndpoint | getChatDetail
  | updateChatSettings | listMembers | markRead | archiveChat | getMyRights | listContacts
  | downloadFile | uploadFile | listMessages | listScheduled | cancelScheduled | sendScheduledNow
  | getSingleMessage | sendMessage | forwardMessage | editMessage | sendFile | sendVoice
  | sendAlbum | sendPoll | deleteMessage | downloadMedia | pinMessage | unpinMessage
  | reactToMessage | findPerson | getPerson | personMessages | personChats | updatePerson
  | mergePeople | splitPerson | reachableContacts | sendToPerson | contactByPhone | searchGlobal
  | snapshotChatMembers | snapshotImportMembers | listChatSnapshots | getSnapshotMembers
  | listUsers | resolveUser | resolveById | blockUser | unblockUser | streamMessages
  | triggerBackfill | syncStatus | syncChats | availableTools | authQrStart | authQrStatus
  | deleteDialog | importContacts | removeContact | searchChatMessages | getPostStats
  | sendVideoNote | votePoll | getReactions | pressButton | getPollVoters | getMessageLink
  | transcribeVoice | createGroup | addGroupMembers | removeGroupMembers | setGroupAdmin
  | removeGroupAdmin | updateGroupProfile | updateGroupSettings | getInviteLink | resetInviteLink
  | listJoinRequests | approveJoinRequests | declineJoinRequests | deleteGroup
  | transferGroupOwnership | listInviteLinks | createInviteLink | revokeInviteLinks | listFolders
  | createFolder | updateFolder | deleteFolder | startBot | getBotInfo | maxUnsupported
deriving DecidableEq, Repr

/-! ## `app/authz/tool_catalog.py` -/

def groupWriteTools : List Tool :=
  [.createGroup, .addGroupMembers, .removeGroupMembers, .setGroupAdmin, .removeGroupAdmin,
   .updateGroupProfile, .updateGroupSettings, .resetInviteLink, .approveJoinRequests,
   .declineJoinRequests, .deleteGroup]

def groupReadTools : List Tool :=
  [.getInviteLink, .listJoinRequests]

def maxR4WriteTools : List Tool :=
  [.sendVideoNote, .votePoll, .importContacts, .removeContact, .deleteDialog, .createFolder,
   .updateFolder, .deleteFolder]

def maxR4ReadTools : List Tool :=
  [.getReactions, .listFolders]

def maxR5WriteTools : List Tool :=
  [.transferGroupOwnership, .createInviteLink, .revokeInviteLinks, .pressButton, .startBot]

def maxR5ReadTools : List Tool :=
  [.listInviteLinks, .getBotInfo, .getMessageLink, .getPollVoters, .transcribeVoice,
   .searchChatMessages, .getPostStats]

/-- `MAX_ONLY_TOOLS`: routes that only the MAX router has. -/
def maxOnlyTools : List Tool :=
  [.authQrStart, .authQrStatus] ++ groupWriteTools ++ groupReadTools ++ maxR4WriteTools ++
    maxR4ReadTools ++ maxR5WriteTools ++ maxR5ReadTools

/-! ## Path templates -/

inductive Convertor
  /-- `{name}`: any text without a slash. -/
  | str
  /-- `{name:sint}` of `app/max/api/groups.py`: `-?[0-9]+`. -/
  | sint
deriving DecidableEq, Repr

/-- `int()` refuses longer texts with a `ValueError`. -/
def digits (x : List Char) : Bool := !x.isEmpty && x.all Char.isDigit && x.length ≤ Decimal.maxStrDigits

/-- The text matches the convertor's expression and `convert` takes it. -/
def Convertor.accepts : Convertor → List Char → Bool
  | .str, x => !x.isEmpty
  | .sint, '-' :: x => digits x
  | .sint, x => digits x

/-- `str.split("/")`. -/
def segments (path : List Char) : List (List Char) := path.splitOn '/'

/-- A static segment of a template is written as it is. -/
instance : Coe String (Seg Convertor) := ⟨.lit⟩

def accountId : Seg Convertor := .param .str
def keyId : Seg Convertor := .param .str
def chatId : Seg Convertor := .param .str
def messageId : Seg Convertor := .param .str
def userId : Seg Convertor := .param .str
def personId : Seg Convertor := .param .str
def snapshotId : Seg Convertor := .param .str
def folderId : Seg Convertor := .param .str
def token : Seg Convertor := .param .str

/-- `{chat_id:sint}`. -/
def chatIdInt : Seg Convertor := .param .sint

/-- A route of a router; its path, with the router's prefix, as `compile_path` cuts it: a parameter is
    a whole segment in every route. -/
structure RouteDef where
  methods : List String
  path    : List (Seg Convertor)
  name    : Tool

/-! ## `app/api` -/

/-- `app/api/write_limits_admin.py`. -/
def writeLimitsRouter : List RouteDef :=
  [⟨["GET"], ["accounts", "write-limits"], .adminListWriteLimits⟩,
   ⟨["GET"], ["accounts", accountId, "write-limits"], .adminGetWriteLimits⟩,
   ⟨["PATCH"], ["accounts", accountId, "write-limits"], .adminPatchWriteLimits⟩,
   ⟨["DELETE"], ["accounts", accountId, "write-limits"], .adminResetWriteLimits⟩]

/-- `app/api/accounts.py`. -/
def accountsRouter : List RouteDef :=
  [⟨["POST"], ["accounts"], .adminCreateAccount⟩,
   ⟨["GET"], ["accounts"], .adminListAccounts⟩,
   ⟨["GET"], ["accounts", accountId], .adminGetAccount⟩,
   ⟨["PATCH"], ["accounts", accountId], .adminPatchAccount⟩,
   ⟨["DELETE"], ["accounts", accountId], .adminDeleteAccount⟩,
   ⟨["GET"], ["accounts", accountId, "audit"], .adminAccountAudit⟩]

/-- `app/api/admin_isolation.py`. -/
def adminIsolationRouter : List RouteDef :=
  [⟨["POST"], ["admin", "isolation", "probe"], .adminIsolationProbe⟩,
   ⟨["POST"], ["admin", "isolation", "measure_raw"], .adminIsolationMeasureRaw⟩]

/-- `app/api/admin_keys.py`. -/
def adminKeysRouter : List RouteDef :=
  [⟨["POST"], ["accounts", accountId, "keys"], .adminCreateAccountKey⟩,
   ⟨["GET"], ["accounts", accountId, "keys"], .adminListAccountKeys⟩,
   ⟨["POST"], ["owner-keys"], .adminCreateOwnerKey⟩,
   ⟨["GET"], ["owner-keys"], .adminListOwnerKeys⟩,
   ⟨["DELETE"], ["keys", keyId], .adminRevokeKey⟩]

/-- `app/api/auth.py`. -/
def authRouter : List RouteDef :=
  [⟨["GET"], ["auth", "status"], .authStatus⟩,
   ⟨["GET"], ["auth", "me"], .authMe⟩,
   ⟨["POST"], ["auth", "login"], .authLogin⟩,
   ⟨["POST"], ["auth", "code"], .authCode⟩,
   ⟨["POST"], ["auth", "session"], .authSession⟩,
   ⟨["POST"], ["auth", "logout"], .authLogout⟩]

/-- `app/api/chats.py`. -/
def chatsRouter : List RouteDef :=
  [⟨["GET"], ["chats"], .listChats⟩,
   ⟨["POST"], ["chats", "join"], .joinChatEndpoint⟩,
   ⟨["POST"], ["chats", "leave"], .leaveChatEndpoint⟩,
   ⟨["POST"], ["chats", "resolve"], .resolveChatEndpoint⟩,
   ⟨["GET"], ["chats", chatId], .getChatDetail⟩,
   ⟨["PATCH"], ["chats", chatId], .updateChatSettings⟩,
   ⟨["GET"], ["chats", chatId, "members"], .listMembers⟩,
   ⟨["POST"], ["chats", chatId, "read"], .markRead⟩,
   ⟨["POST"], ["chats", chatId, "archive"], .archiveChat⟩,
   ⟨["GET"], ["chats", chatId, "my_rights"], .getMyRights⟩]

/-- `app/api/contacts.py`. -/
def contactsRouter : List RouteDef :=
  [⟨["GET"], ["contacts"], .listContacts⟩]

/-- `app/api/files.py`. -/
def filesRouter : List RouteDef :=
  [⟨["GET"], ["files", token], .downloadFile⟩,
   ⟨["PUT"], ["uploads", token], .uploadFile⟩]

/-- `app/api/messages.py`. -/
def messagesRouter : List RouteDef :=
  [⟨["GET"], ["messages"], .listMessages⟩,
   ⟨["GET"], ["messages", "scheduled"], .listScheduled⟩,
   ⟨["DELETE"], ["messages", "scheduled", chatId, messageId], .cancelScheduled⟩,
   ⟨["POST"], ["messages", "scheduled", chatId, messageId, "send-now"], .sendScheduledNow⟩,
   ⟨["GET"], ["messages", chatId, messageId], .getSingleMessage⟩,
   ⟨["POST"], ["messages"], .sendMessage⟩,
   ⟨["POST"], ["messages", "forward"], .forwardMessage⟩,
   ⟨["POST"], ["messages", "edit"], .editMessage⟩,
   ⟨["POST"], ["messages", "send-file"], .sendFile⟩,
   ⟨["POST"], ["messages", "send-voice"], .sendVoice⟩,
   ⟨["POST"], ["messages", "album"], .sendAlbum⟩,
   ⟨["POST"], ["messages", "poll"], .sendPoll⟩,
   ⟨["DELETE"], ["messages", chatId, messageId], .deleteMessage⟩,
   ⟨["GET"], ["messages", chatId, messageId, "media"], .downloadMedia⟩,
   ⟨["POST"], ["messages", chatId, messageId, "pin"], .pinMessage⟩,
   ⟨["POST"], ["messages", chatId, messageId, "unpin"], .unpinMessage⟩,
   ⟨["POST"], ["messages", chatId, messageId, "react"], .reactToMessage⟩]

/-- `app/api/people.py`. -/
def peopleRouter : List RouteDef :=
  [⟨["GET"], ["people"], .findPerson⟩,
   ⟨["GET"], ["people", personId], .getPerson⟩,
   ⟨["GET"], ["people", personId, "messages"], .personMessages⟩,
   ⟨["GET"], ["people", personId, "chats"], .personChats⟩,
   ⟨["PATCH"], ["people", personId], .updatePerson⟩,
   ⟨["POST"], ["people", "merge"], .mergePeople⟩,
   ⟨["POST"], ["people", "split"], .splitPerson⟩]

/-- `app/api/reach.py`. -/
def reachRouter : List RouteDef :=
  [⟨["GET"], ["reachable"], .reachableContacts⟩,
   ⟨["POST"], ["messages", "to-person"], .sendToPerson⟩,
   ⟨["POST"], ["contacts", "by-phone"], .contactByPhone⟩]

/-- `app/api/search.py`. -/
def searchRouter : List RouteDef :=
  [⟨["GET"], ["search", "global"], .searchGlobal⟩]

/-- `app/api/snapshots.py`. -/
def snapshotsRouter : List RouteDef :=
  [⟨["POST"], ["snapshots", "chat", chatId], .snapshotChatMembers⟩,
   ⟨["POST"], ["snapshots", "import"], .snapshotImportMembers⟩,
   ⟨["GET"], ["snapshots", "chat", chatId], .listChatSnapshots⟩,
   ⟨["GET"], ["snapshots", snapshotId, "members"], .getSnapshotMembers⟩]

/-- `app/api/users.py`. -/
def usersRouter : List RouteDef :=
  [⟨["GET"], ["users"], .listUsers⟩,
   ⟨["POST"], ["users", "resolve"], .resolveUser⟩,
   ⟨["POST"], ["users", "resolve_by_id"], .resolveById⟩,
   ⟨["POST"], ["users", userId, "block"], .blockUser⟩,
   ⟨["POST"], ["users", userId, "unblock"], .unblockUser⟩]

/-- `app/api/stream.py`. -/
def streamRouter : List RouteDef :=
  [⟨["GET"], ["stream", "messages"], .streamMessages⟩]

/-- `app/api/sync.py`. -/
def syncRouter : List RouteDef :=
  [⟨["POST"], ["sync", "backfill"], .triggerBackfill⟩,
   ⟨["GET"], ["sync", "status"], .syncStatus⟩,
   ⟨["POST"], ["sync", "chats"], .syncChats⟩]

/-- `app/api/tools.py`. -/
def toolsRouter : List RouteDef :=
  [⟨["GET"], ["tools"], .availableTools⟩]

/-- `API_ROUTERS`. -/
def apiRouters : List (List RouteDef) :=
  [writeLimitsRouter, accountsRouter, adminIsolationRouter, adminKeysRouter, authRouter,
   chatsRouter, contactsRouter, filesRouter, messagesRouter, peopleRouter, reachRouter,
   searchRouter, snapshotsRouter, usersRouter, streamRouter, syncRouter, toolsRouter]

/-! ## `app/max/api` -/

/-- `app/max/api/auth.py`. -/
def maxAuthRouter : List RouteDef :=
  [⟨["GET"], ["auth", "status"], .authStatus⟩,
   ⟨["GET"], ["auth", "me"], .authMe⟩,
   ⟨["POST"], ["auth", "qr"], .authQrStart⟩,
   ⟨["GET"], ["auth", "qr"], .authQrStatus⟩,
   ⟨["GET"], ["auth", "qr.png"], .authQrStatus⟩,
   ⟨["POST"], ["auth", "login"], .authLogin⟩,
   ⟨["POST"], ["auth", "code"], .authCode⟩,
   ⟨["POST"], ["auth", "session"], .authSession⟩,
   ⟨["POST"], ["auth", "logout"], .authLogout⟩]

/-- `app/max/api/chats.py`. -/
def maxChatsRouter : List RouteDef :=
  [⟨["POST"], ["chats", "join"], .joinChatEndpoint⟩,
   ⟨["POST"], ["chats", "resolve"], .resolveChatEndpoint⟩,
   ⟨["GET"], ["chats"], .listChats⟩,
   ⟨["GET"], ["chats", chatId], .getChatDetail⟩,
   ⟨["PATCH"], ["chats", chatId], .updateChatSettings⟩,
   ⟨["POST"], ["chats", chatId, "read"], .markRead⟩,
   ⟨["GET"], ["chats", chatId, "members"], .listMembers⟩,
   ⟨["POST"], ["chats", "leave"], .leaveChatEndpoint⟩,
   ⟨["GET"], ["chats", chatId, "my_rights"], .getMyRights⟩,
   ⟨["POST"], ["chats", chatId, "delete"], .deleteDialog⟩]

/-- `app/max/api/contacts.py`. -/
def maxContactsRouter : List RouteDef :=
  [⟨["GET"], ["contacts"], .listContacts⟩,
   ⟨["POST"], ["contacts", "import"], .importContacts⟩,
   ⟨["POST"], ["contacts", userId, "remove"], .removeContact⟩]

/-- `app/max/api/messages.py`. -/
def maxMessagesRouter : List RouteDef :=
  [⟨["GET"], ["messages"], .listMessages⟩,
   ⟨["GET"], ["messages", chatId, "search"], .searchChatMessages⟩,
   ⟨["GET"], ["messages", chatId, "stats"], .getPostStats⟩,
   ⟨["GET"], ["messages", chatId, messageId], .getSingleMessage⟩,
   ⟨["GET"], ["messages", chatId, messageId, "media"], .downloadMedia⟩,
   ⟨["POST"], ["messages"], .sendMessage⟩,
   ⟨["GET"], ["messages", "scheduled"], .listScheduled⟩,
   ⟨["DELETE"], ["messages", "scheduled", chatId, messageId], .cancelScheduled⟩,
   ⟨["POST"], ["messages", "scheduled", chatId, messageId, "send-now"], .sendScheduledNow⟩,
   ⟨["POST"], ["messages", "send-file"], .sendFile⟩,
   ⟨["POST"], ["messages", "send-voice"], .sendVoice⟩,
   ⟨["POST"], ["messages", "send-video-note"], .sendVideoNote⟩,
   ⟨["POST"], ["messages", "album"], .sendAlbum⟩,
   ⟨["POST"], ["messages", "poll"], .sendPoll⟩,
   ⟨["POST"], ["messages", "forward"], .forwardMessage⟩,
   ⟨["POST"], ["messages", "edit"], .editMessage⟩,
   ⟨["DELETE"], ["messages", chatId, messageId], .deleteMessage⟩,
   ⟨["POST"], ["messages", chatId, messageId, "react"], .reactToMessage⟩,
   ⟨["POST"], ["messages", chatId, messageId, "vote"], .votePoll⟩,
   ⟨["POST"], ["messages", chatId, messageId, "pin"], .pinMessage⟩,
   ⟨["POST"], ["messages", chatId, messageId, "unpin"], .unpinMessage⟩,
   ⟨["GET"], ["messages", chatId, messageId, "reactions"], .getReactions⟩,
   ⟨["POST"], ["messages", chatId, messageId, "press"], .pressButton⟩,
   ⟨["GET"], ["messages", chatId, messageId, "voters"], .getPollVoters⟩,
   ⟨["GET"], ["messages", chatId, messageId, "link"], .getMessageLink⟩,
   ⟨["POST"], ["messages", chatId, messageId, "transcribe"], .transcribeVoice⟩]

/-- `app/max/api/search.py`. -/
def maxSearchRouter : List RouteDef :=
  [⟨["GET"], ["search", "global"], .searchGlobal⟩]

/-- `app/max/api/users.py`. -/
def maxUsersRouter : List RouteDef :=
  [⟨["GET"], ["users"], .listUsers⟩,
   ⟨["POST"], ["users", "resolve"], .resolveUser⟩,
   ⟨["POST"], ["users", "resolve_by_id"], .resolveById⟩,
   ⟨["POST"], ["users", userId, "block"], .blockUser⟩,
   ⟨["POST"], ["users", userId, "unblock"], .unblockUser⟩]

/-- `app/max/api/stream.py`. -/
def maxStreamRouter : List RouteDef :=
  [⟨["GET"], ["stream", "messages"], .streamMessages⟩]

/-- `app/max/api/sync.py`. -/
def maxSyncRouter : List RouteDef :=
  [⟨["POST"], ["sync", "backfill"], .triggerBackfill⟩,
   ⟨["POST"], ["sync", "chats"], .syncChats⟩,
   ⟨["GET"], ["sync", "status"], .syncStatus⟩]

/-- `app/max/api/groups.py`. -/
def maxGroupsRouter : List RouteDef :=
  [⟨["POST"], ["groups"], .createGroup⟩,
   ⟨["POST"], ["groups", chatIdInt, "members"], .addGroupMembers⟩,
   ⟨["POST"], ["groups", chatIdInt, "members", "remove"], .removeGroupMembers⟩,
   ⟨["POST"], ["groups", chatIdInt, "admins"], .setGroupAdmin⟩,
   ⟨["POST"], ["groups", chatIdInt, "admins", "remove"], .removeGroupAdmin⟩,
   ⟨["PATCH"], ["groups", chatIdInt], .updateGroupProfile⟩,
   ⟨["PATCH"], ["groups", chatIdInt, "settings"], .updateGroupSettings⟩,
   ⟨["GET"], ["groups", chatIdInt, "invite-link"], .getInviteLink⟩,
   ⟨["POST"], ["groups", chatIdInt, "invite-link"], .resetInviteLink⟩,
   ⟨["GET"], ["groups", chatIdInt, "join-requests"], .listJoinRequests⟩,
   ⟨["POST"], ["groups", chatIdInt, "join-requests", "approve"], .approveJoinRequests⟩,
   ⟨["POST"], ["groups", chatIdInt, "join-requests", "decline"], .declineJoinRequests⟩,
   ⟨["POST"], ["groups", chatIdInt, "delete"], .deleteGroup⟩,
   ⟨["POST"], ["groups", chatIdInt, "owner"], .transferGroupOwnership⟩,
   ⟨["GET"], ["groups", chatIdInt, "invite-links"], .listInviteLinks⟩,
   ⟨["POST"], ["groups", chatIdInt, "invite-links"], .createInviteLink⟩,
   ⟨["POST"], ["groups", chatIdInt, "invite-links", "revoke"], .revokeInviteLinks⟩]

/-- `app/max/api/folders.py`. -/
def maxFoldersRouter : List RouteDef :=
  [⟨["GET"], ["folders"], .listFolders⟩,
   ⟨["POST"], ["folders"], .createFolder⟩,
   ⟨["PATCH"], ["folders", folderId], .updateFolder⟩,
   ⟨["POST"], ["folders", folderId, "delete"], .deleteFolder⟩]

/-- `app/max/api/bots.py`. -/
def maxBotsRouter : List RouteDef :=
  [⟨["POST"], ["bots", "start"], .startBot⟩,
   ⟨["GET"], ["bots", "info"], .getBotInfo⟩]

/-- `app/max/api/router.py`. -/
def unsupportedRouter : List RouteDef :=
  [⟨["GET", "POST", "PUT", "PATCH", "DELETE"], ["_unsupported"], .maxUnsupported⟩]

/-- `MAX_API_ROUTERS`. -/
def maxApiRouters : List (List RouteDef) :=
  [maxAuthRouter, maxChatsRouter, maxContactsRouter, maxMessagesRouter, maxSearchRouter,
   maxUsersRouter, maxStreamRouter, maxSyncRouter, toolsRouter, maxGroupsRouter,
   maxFoldersRouter, maxBotsRouter, reachRouter, unsupportedRouter]

/-! ## The table -/

/-- The segments of `/api/v1` and of `/api/v1/_max`. -/
def apiBase : List String := ["", "api", "v1"]
def maxBase : List String := apiBase ++ ["_max"]

/-- The entries of one source of `RouteTable`: the routes of the routers, under a prefix. -/
def entries (base : List String) (routers : List (List RouteDef)) : List (Route Convertor Tool) :=
  routers.flatten.map fun r => ⟨r.methods, literals base ++ r.path, r.name⟩

def apiTable : List (Route Convertor Tool) := entries apiBase apiRouters

/-- The MAX router, mounted. -/
def maxTable : List (Route Convertor Tool) := entries maxBase maxApiRouters

/-- `app.state.route_table`. -/
def routeTable : List (Route Convertor Tool) := apiTable ++ maxTable

/-- `RouteTable.resolve`. -/
def resolveIn (table : List (Route Convertor Tool)) (method : String) (path : List Char) : Option Tool :=
  resolve Convertor.accepts table method (segments path)

/-- `verify_route_table`: the service starts with this table. -/
example : resolveIn routeTable "POST" "/api/v1/messages".toList = some .sendMessage ∧
    resolveIn routeTable "GET" "/api/v1/messages".toList = some .listMessages := by decide +kernel

end MyPerson.Authz
