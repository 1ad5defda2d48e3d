import MyPerson.Authz.Routes
import MyPerson.WriteLimits.Basic

/-!
# `Authz.Policy` — may the account use the tool?

The categories of `app/authz/tool_catalog.py` and `authorize` of `app/authz/policy.py`: the account's
policy for a tool first, then its mode, then the old guards of messenger writes.

## Contents
- the categories; `toolIsWrite`;
- `Access`, what the database says about accounts; `authorize`;
- `authorize_write`: what is true of an account whose messenger write is allowed.
-/

namespace MyPerson.Authz

open WriteLimits (Platform)

/-! ## Categories -/

/-- `WRITE_MESSENGER_TOOLS`. -/
def writeMessengerTools : List Tool :=
  [.sendMessage, .sendFile, .sendVoice, .sendAlbum, .sendPoll, .forwardMessage, .editMessage,
   .deleteMessage, .pinMessage, .unpinMessage, .reactToMessage, .cancelScheduled, .sendScheduledNow,
   .joinChatEndpoint, .leaveChatEndpoint, .archiveChat, .updateChatSettings, .markRead,
   .blockUser, .unblockUser, .sendToPerson, .contactByPhone] ++
    groupWriteTools ++ maxR4WriteTools ++ maxR5WriteTools

/-- `WRITE_DB_TOOLS`. -/
def writeDbTools : List Tool :=
  [.snapshotChatMembers, .snapshotImportMembers, .syncChats, .triggerBackfill, .uploadFile, .updatePerson,
   .mergePeople, .splitPerson]

/-- `MANAGE_SESSION_TOOLS`. -/
def manageSessionTools : List Tool :=
  [.authLogin, .authCode, .authSession, .authLogout, .authQrStart, .authQrStatus]

/-- `READ_ONLY_TOOLS`. -/
def readOnlyTools : List Tool :=
  [.authMe, .authStatus, .listChats, .getChatDetail, .listMembers, .getMyRights, .resolveChatEndpoint,
   .listMessages, .getSingleMessage, .listScheduled, .downloadMedia, .listUsers, .listContacts, .resolveUser,
   .resolveById, .searchGlobal, .syncStatus, .streamMessages, .listChatSnapshots, .getSnapshotMembers,
   .downloadFile, .availableTools, .findPerson, .getPerson, .personMessages, .personChats,
   .reachableContacts] ++ groupReadTools ++ maxR4ReadTools ++ maxR5ReadTools

/-- `WRITE_TOOLS`. -/
def writeTools : List Tool := writeMessengerTools ++ writeDbTools ++ manageSessionTools

/-- `tool_is_write`; `none` is its `KeyError`. -/
def toolIsWrite (tool : Tool) : Option Bool :=
  if tool ∈ writeMessengerTools then some true
  else if tool ∈ readOnlyTools ∨ tool ∈ writeDbTools ∨ tool ∈ manageSessionTools then some false
  else none

/-! ## `app/authz/policy.py` -/

inductive Mode
  | rw | ro
deriving DecidableEq, Repr

inductive Effect
  | allow | deny
deriving DecidableEq, Repr

/-- `write_chat_ids` and `write_rate_per_hour` of an account; `none` is off. -/
structure LegacyGuards where
  writeChatIds     : Option (List Int)
  writeRatePerHour : Option Int

/-- What `authorize` reads: modes, policies, guards, and the successful messenger writes of the last
    hour in the audit log. -/
structure Access where
  accountMode    : Nat → Option Mode
  toolPolicy     : Nat → Tool → Option Effect
  guards         : Nat → Option LegacyGuards
  writesLastHour : Nat → Nat

/-- `_get_account_mode`. -/
def Access.mode (acc : Access) (accountId : Nat) : Mode := (acc.accountMode accountId).getD .rw

/-- `AuthContext`. -/
structure AuthContext where
  accountId    : Option Nat
  sessionAlias : Option String
  platform     : Platform
  owner        : Bool
deriving DecidableEq, Repr

structure Decision where
  allowed : Bool
  status  : Nat
  reason  : Option String
deriving DecidableEq, Repr

def allow : Decision := ⟨true, 200, none⟩

def refuse (status : Nat) (reason : String) : Decision := ⟨false, status, some reason⟩

def LegacyGuards.rate (guards : LegacyGuards) (writesLastHour : Nat) : Decision :=
  match guards.writeRatePerHour with
  | some rate =>
      if rate ≤ writesLastHour then refuse 429 ("write rate limit " ++ toString rate ++ "/h reached") else allow
  | none => allow

/-- The guards of messenger writes; a chat that is not known yet is not checked. -/
def LegacyGuards.check (guards : LegacyGuards) (writesLastHour : Nat) (chatExternalId : Option Int) : Decision :=
  match chatExternalId, guards.writeChatIds with
  | some chat, some chats =>
      if chat ∈ chats then guards.rate writesLastHour
      else refuse 403 ("chat " ++ toString chat ++ " is not in write_chat_ids")
  | _, _ => guards.rate writesLastHour

def authorize (acc : Access) (ctx : AuthContext) (tool : Tool) (chatExternalId : Option Int) (isWrite : Bool) :
    Decision :=
  match isWrite, ctx.accountId with
  | true, some accountId =>
      let effect := acc.toolPolicy accountId tool
      if effect = some .deny then refuse 403 "denied by account policy"
      else if effect ≠ some .allow ∧ acc.mode accountId = .ro then refuse 403 "read-only account"
      else if tool ∉ writeMessengerTools then allow
      else match acc.guards accountId with
        | some guards => guards.check (acc.writesLastHour accountId) chatExternalId
        | none => allow
  | _, _ => allow

/-! ## What is allowed -/

/-- The account may write with the tool: nothing denies it, and a read-only account has it allowed. -/
def Access.Permits (acc : Access) (accountId : Nat) (tool : Tool) : Prop :=
  acc.toolPolicy accountId tool ≠ some .deny ∧
    (acc.accountMode accountId = some .ro → acc.toolPolicy accountId tool = some .allow)

/-- **An allowed write is permitted.** -/
theorem authorize_write {acc : Access} {ctx : AuthContext} {tool : Tool} {chatExternalId : Option Int}
    {accountId : Nat} (hacc : ctx.accountId = some accountId)
    (h : (authorize acc ctx tool chatExternalId true).allowed = true) : acc.Permits accountId tool := by
  unfold authorize at h
  rw [hacc] at h
  by_cases hdeny : acc.toolPolicy accountId tool = some .deny
  · simp only [hdeny, if_true] at h
    cases h
  · refine ⟨hdeny, fun hmode => ?_⟩
    by_contra hallow
    have hro : acc.mode accountId = .ro := by
      unfold Access.mode
      rw [hmode]
      rfl
    simp only [if_neg hdeny] at h
    rw [if_pos ⟨hallow, hro⟩] at h
    cases h

theorem toolIsWrite_messenger {tool : Tool} (h : tool ∈ writeMessengerTools) : toolIsWrite tool = some true :=
  if_pos h

/-- Every messenger write is in the catalog. -/
theorem writeMessengerTools_subset {tool : Tool} (h : tool ∈ writeMessengerTools) : tool ∈ writeTools :=
  List.mem_append_left _ (List.mem_append_left _ h)

end MyPerson.Authz
