import MyPerson.WriteLimits.Basic
import Mathlib.Data.List.Dedup

/-!
# `Isolation.Legacy` — the shared legacy tables and who owns their chats

`tg_*`, `max_*`, `chat_access`, `mig_membership` and the other tables that `isolation_copy.py` reads, with the
rules of its step C. A chat of MAX goes to the MAX account; a supergroup or channel to its members, or to the
accounts that left a trace of it; the messages of a private chat or basic group go one by one, by rule D.

## Contents
- `Legacy`, the tables, and `Legacy.Valid`, what their keys promise;
- `Ctx`, the accounts and options of a run;
- `ownerD`, `candidatesBy`, `takes`, and `Wants`: whose row a message becomes;
- `accountOf` and the platform of an owner.
-/

namespace MyPerson.Isolation

open WriteLimits (Platform)

/-! ## Tables -/

/-- `chat_type`; `personal` is the text `private`. -/
inductive ChatType
  | personal | group | supergroup | channel
deriving DecidableEq, Repr

structure LegacyChat where
  id        : Int
  chatType  : ChatType
  updatedAt : Option Nat
deriving DecidableEq, Repr

/-- `chat_type IN ('private', 'group')`. -/
def LegacyChat.isPrivate (c : LegacyChat) : Bool :=
  c.chatType == .personal || c.chatType == .group

/-- `raw_data`: its key `out`, and the rest. -/
structure Raw where
  out  : Option Bool
  rest : String
deriving DecidableEq, Repr

/-- A row of `tg_messages` or `max_messages`; only the latter has `deleted_at`. -/
structure LegacyMessage where
  id                   : Int
  messageId            : Int
  chatId               : Int
  fromUserId           : Option Int
  senderChatId         : Option Int
  replyToMessageId     : Option Int
  forwardFromChatId    : Option Int
  forwardFromMessageId : Option Int
  messageType          : Option String
  text                 : Option String
  textHtml             : Option String
  tgDate               : Nat
  isEdited             : Option Bool
  editDate             : Option Nat
  views                : Option Int
  rawData              : Option Raw
  deletedAt            : Option Nat
deriving DecidableEq, Repr

/-- `deleted_at` as the statement of the platform reads it. -/
def LegacyMessage.deleted (m : LegacyMessage) : Platform → Option Nat
  | .telegram => none
  | .max => m.deletedAt

/-- `raw_data->>'out'`. -/
def LegacyMessage.rawOut (m : LegacyMessage) : Option Bool := m.rawData.bind Raw.out

/-- A row of `tg_media` or `max_media`; only the latter has `attach_index`. -/
structure LegacyMedia where
  id           : Int
  messagePk    : Int
  attachIndex  : Option Int
  fileId       : Option String
  fileUniqueId : Option String
  fileType     : String
  fileName     : Option String
  fileSize     : Option Int
  mimeType     : Option String
  localPath    : Option String
deriving DecidableEq, Repr

/-- `attach_index` of the new row. -/
def LegacyMedia.attach (d : LegacyMedia) : Platform → Int
  | .telegram => 0
  | .max => d.attachIndex.getD 0

/-- The columns of `audit_logs` that step C reads. -/
structure AuditLog where
  tool      : String
  aliasName : String
  chatId    : Int
deriving DecidableEq, Repr

/-- What the copy reads. `membership` and `access` are pairs of account and chat, `watch` is `watch_chat_ids` of
    the accounts; `members` are the member records with the account of their snapshot, `registry` the registered
    users with the account of each source. -/
structure Legacy where
  chats      : Platform → List LegacyChat
  messages   : Platform → List LegacyMessage
  media      : Platform → List LegacyMedia
  users      : Platform → List Int
  membership : List (Int × Int)
  access     : List (Int × Int)
  watch      : List (Int × Int)
  audit      : List AuditLog
  members    : List (Option Int × Int)
  registry   : List (Int × Option Int)

def Legacy.empty : Legacy :=
  ⟨fun _ => [], fun _ => [], fun _ => [], fun _ => [], [], [], [], [], [], []⟩

/-- The row of a chat. -/
def Legacy.chatOf (L : Legacy) (p : Platform) (id : Int) : Option LegacyChat :=
  (L.chats p).find? fun c => c.id = id

/-- The chat exists and is a private chat or a basic group. -/
def Legacy.privateChat (L : Legacy) (id : Int) : Bool :=
  (L.chatOf .telegram id).any LegacyChat.isPrivate

/-! ## The run's context -/

/-- An account, its `external_user_id` as step A leaves it. -/
structure Account where
  id             : Int
  platform       : Platform
  aliasName      : String
  externalUserId : Int
deriving DecidableEq, Repr

/-- `Ctx` with its options. `open_ctx` looks `low` and `high` up among the Telegram accounts and `max` among the
    MAX accounts. -/
structure Ctx where
  accounts  : List Account
  low       : Int
  high      : Int
  max       : Option Int
  splitDate : Nat
  splitId   : Int
  unique    : (accounts.map Account.id).Nodup
  lowHere   : ∃ a ∈ accounts, a.id = low ∧ a.platform = .telegram
  highHere  : ∃ a ∈ accounts, a.id = high ∧ a.platform = .telegram
  maxHere   : ∀ id, max = some id → ∃ a ∈ accounts, a.id = id ∧ a.platform = .max

def Ctx.accountOf (ctx : Ctx) (id : Int) : Option Account :=
  ctx.accounts.find? fun a => a.id = id

/-- `OWNER_D`. -/
def ownerD (ctx : Ctx) (m : LegacyMessage) : Int :=
  if m.tgDate < ctx.splitDate then ctx.high
  else if m.messageId < ctx.splitId then ctx.low
  else ctx.high

/-! ## Step C: owners -/

/-- A row of `mig_chat_owner`; its three columns are the key. -/
structure Owner where
  platform : Platform
  chat     : Int
  account  : Int
deriving DecidableEq, Repr

/-- The statements of `step_c_owners`, by the `rule` they write. -/
inductive Rule
  | max | member | access | ownMessage | watch | audit | ruleD
deriving DecidableEq, Repr

def allRules : List Rule := [.max, .member, .access, .ownMessage, .watch, .audit, .ruleD]

def readTools : List String :=
  ["list_messages", "get_chat_detail", "download_media", "trigger_backfill", "backfill_history"]

/-- `no_member`: the supergroups and channels that no account is a member of. -/
def noMember (L : Legacy) : List Int :=
  ((L.chats .telegram).filter fun c => !c.isPrivate && !L.membership.any fun mm => mm.2 == c.id).map LegacyChat.id

def telegramAccounts (ctx : Ctx) : List Account :=
  ctx.accounts.filter fun a => a.platform = .telegram

/-- What one statement of `step_c_owners` selects. -/
def candidatesBy (ctx : Ctx) (L : Legacy) : Rule → List Owner
  | .max =>
      match ctx.max with
      | none => []
      | some account => (L.chats .max).map fun c => ⟨.max, c.id, account⟩
  | .member =>
      (L.chats .telegram).flatMap fun c =>
        (L.membership.filter fun mm => mm.2 = c.id).map fun mm => ⟨.telegram, c.id, mm.1⟩
  | .access =>
      (L.access.filter fun ca => ca.2 ∈ noMember L).map fun ca => ⟨.telegram, ca.2, ca.1⟩
  | .ownMessage =>
      (L.messages .telegram).flatMap fun m =>
        ((telegramAccounts ctx).filter fun a => m.fromUserId = some a.externalUserId ∧ m.chatId ∈ noMember L).map
          fun a => ⟨.telegram, m.chatId, a.id⟩
  | .watch =>
      (noMember L).flatMap fun id =>
        ((telegramAccounts ctx).filter fun a => L.watch.contains (a.id, id)).map fun a => ⟨.telegram, id, a.id⟩
  | .audit =>
      L.audit.flatMap fun l =>
        ((telegramAccounts ctx).filter fun a =>
          a.aliasName = l.aliasName ∧ l.tool ∈ readTools ∧ l.chatId ∈ noMember L).map
          fun a => ⟨.telegram, l.chatId, a.id⟩
  | .ruleD =>
      ((L.messages .telegram).filter fun m => L.privateChat m.chatId).map
        fun m => ⟨.telegram, m.chatId, ownerD ctx m⟩

/-- What several statements select together. -/
def candidates (ctx : Ctx) (L : Legacy) (rules : List Rule) : List Owner :=
  rules.flatMap (candidatesBy ctx L)

/-- The condition of step G on a message and an owner of its chat: a private message goes by rule D. -/
def takes (ctx : Ctx) (L : Legacy) (p : Platform) (m : LegacyMessage) (account : Int) : Bool :=
  match p with
  | .telegram => (L.chatOf .telegram m.chatId).any fun c => !c.isPrivate || account == ownerD ctx m
  | .max => true

/-- The account is to have a row for the message. -/
structure Wants (ctx : Ctx) (L : Legacy) (p : Platform) (m : LegacyMessage) (account : Int) : Prop where
  message : m ∈ L.messages p
  owner   : ⟨p, m.chatId, account⟩ ∈ candidates ctx L allRules
  takes   : takes ctx L p m account = true

/-- The keys of the legacy tables. The last line is more than the schema says for `tg_media`. -/
structure Legacy.Valid (ctx : Ctx) (L : Legacy) : Prop where
  messageIds : ∀ p, ((L.messages p).map LegacyMessage.id).Nodup
  messageKeys : ∀ p, ((L.messages p).map fun m => (m.chatId, m.messageId)).Nodup
  chatExists : ∀ p, ∀ m ∈ L.messages p, (L.chatOf p m.chatId).isSome
  membership : ∀ mm ∈ L.membership, ∃ a ∈ telegramAccounts ctx, a.id = mm.1
  access : ∀ ca ∈ L.access, ∃ a ∈ telegramAccounts ctx, a.id = ca.1
  mediaKeys : ∀ p, ∀ d ∈ L.media p, ∀ d' ∈ L.media p,
    d.messagePk = d'.messagePk → d.attach p = d'.attach p → d = d'

/-! ## Accounts of owners -/

variable {ctx : Ctx} {L : Legacy} {p : Platform} {m m' : LegacyMessage} {a a' : Int}

theorem Ctx.accountOf_eq {acc : Account} (h : acc ∈ ctx.accounts) : ctx.accountOf acc.id = some acc := by
  have hsome : (ctx.accountOf acc.id).isSome := by
    rw [accountOf, List.find?_isSome]
    exact ⟨acc, h, by simp⟩
  obtain ⟨acc', hacc'⟩ := Option.isSome_iff_exists.mp hsome
  have hid : acc'.id = acc.id := by simpa using List.find?_some hacc'
  have heq : acc' = acc := List.inj_on_of_nodup_map ctx.unique (List.mem_of_find?_eq_some hacc') h hid
  rw [hacc', heq]

/-- The account exists and is of the platform. -/
def Ctx.AccountOn (ctx : Ctx) (p : Platform) (id : Int) : Prop :=
  ∃ acc, ctx.accountOf id = some acc ∧ acc.platform = p

theorem Ctx.AccountOn.of_mem {acc : Account} (h : acc ∈ ctx.accounts) (hp : acc.platform = p) :
    ctx.AccountOn p acc.id :=
  ⟨acc, ctx.accountOf_eq h, hp⟩

/-- An account is of one platform. -/
theorem Ctx.AccountOn.unique {p' : Platform} (h : ctx.AccountOn p a) (h' : ctx.AccountOn p' a) : p = p' := by
  obtain ⟨acc, hacc, rfl⟩ := h
  obtain ⟨acc', hacc', rfl⟩ := h'
  rw [hacc] at hacc'
  cases hacc'
  rfl

theorem accountOn_telegram {acc : Account} (h : acc ∈ telegramAccounts ctx) : ctx.AccountOn .telegram acc.id := by
  obtain ⟨hmem, hp⟩ := List.mem_filter.mp h
  exact .of_mem hmem (by simpa using hp)

theorem accountOn_ownerD (m : LegacyMessage) : ctx.AccountOn .telegram (ownerD ctx m) := by
  obtain ⟨low, hlow, hlowId, hlowOn⟩ := ctx.lowHere
  obtain ⟨high, hhigh, hhighId, hhighOn⟩ := ctx.highHere
  have hl : ctx.AccountOn .telegram ctx.low := hlowId ▸ Ctx.AccountOn.of_mem hlow hlowOn
  have hh : ctx.AccountOn .telegram ctx.high := hhighId ▸ Ctx.AccountOn.of_mem hhigh hhighOn
  unfold ownerD
  split
  · exact hh
  · split
    · exact hl
    · exact hh

/-- A candidate names an account of the chat's platform. -/
theorem accountOn_candidate (hL : L.Valid ctx) {o : Owner} {rules : List Rule}
    (h : o ∈ candidates ctx L rules) : ctx.AccountOn o.platform o.account := by
  obtain ⟨rule, -, h⟩ := List.mem_flatMap.mp h
  cases rule with
  | max =>
      simp only [candidatesBy] at h
      split at h
      · cases h
      · rename_i account hmax
        obtain ⟨c, -, rfl⟩ := List.mem_map.mp h
        obtain ⟨acc, hacc, rfl, hp⟩ := ctx.maxHere account hmax
        exact .of_mem hacc hp
  | member =>
      obtain ⟨c, -, h⟩ := List.mem_flatMap.mp h
      obtain ⟨mm, hmm, rfl⟩ := List.mem_map.mp h
      obtain ⟨acc, hacc, hid⟩ := hL.membership mm (List.mem_filter.mp hmm).1
      exact hid ▸ accountOn_telegram hacc
  | access =>
      obtain ⟨ca, hca, rfl⟩ := List.mem_map.mp h
      obtain ⟨acc, hacc, hid⟩ := hL.access ca (List.mem_filter.mp hca).1
      exact hid ▸ accountOn_telegram hacc
  | ownMessage =>
      obtain ⟨m, -, h⟩ := List.mem_flatMap.mp h
      obtain ⟨acc, hacc, rfl⟩ := List.mem_map.mp h
      exact accountOn_telegram (List.mem_filter.mp hacc).1
  | watch =>
      obtain ⟨id, -, h⟩ := List.mem_flatMap.mp h
      obtain ⟨acc, hacc, rfl⟩ := List.mem_map.mp h
      exact accountOn_telegram (List.mem_filter.mp hacc).1
  | audit =>
      obtain ⟨l, -, h⟩ := List.mem_flatMap.mp h
      obtain ⟨acc, hacc, rfl⟩ := List.mem_map.mp h
      exact accountOn_telegram (List.mem_filter.mp hacc).1
  | ruleD =>
      obtain ⟨m, -, rfl⟩ := List.mem_map.mp h
      exact accountOn_ownerD m

theorem Wants.accountOn (hL : L.Valid ctx) (h : Wants ctx L p m a) : ctx.AccountOn p a :=
  accountOn_candidate hL h.owner

/-! ## Messages by their keys -/

theorem Legacy.Valid.eq_of_id (hL : L.Valid ctx) (h : m ∈ L.messages p) (h' : m' ∈ L.messages p)
    (hid : m.id = m'.id) : m = m' :=
  List.inj_on_of_nodup_map (hL.messageIds p) h h' hid

theorem Legacy.Valid.eq_of_key (hL : L.Valid ctx) (h : m ∈ L.messages p) (h' : m' ∈ L.messages p)
    (hchat : m.chatId = m'.chatId) (hmessage : m.messageId = m'.messageId) : m = m' :=
  List.inj_on_of_nodup_map (hL.messageKeys p) h h' (Prod.ext hchat hmessage)

/-! ## Private messages -/

/-- Each message of a private chat or basic group goes to the account of rule D, and to no other. -/
theorem wants_private (hm : m ∈ L.messages .telegram) (hprivate : L.privateChat m.chatId = true) :
    Wants ctx L .telegram m a ↔ a = ownerD ctx m := by
  obtain ⟨c, hc, hcp⟩ := (Option.any_eq_true _ _).mp hprivate
  have htakes : takes ctx L .telegram m a = true ↔ a = ownerD ctx m := by
    simp [takes, hc, hcp]
  constructor
  · exact fun h => htakes.mp h.takes
  · rintro rfl
    refine ⟨hm, ?_, htakes.mpr rfl⟩
    refine List.mem_flatMap.mpr ⟨.ruleD, by simp [allRules], ?_⟩
    exact List.mem_map.mpr ⟨m, List.mem_filter.mpr ⟨hm, hprivate⟩, rfl⟩

end MyPerson.Isolation
