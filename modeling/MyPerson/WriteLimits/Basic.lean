import Mathlib.Data.List.Sort
import Mathlib.Data.List.Basic

/-!
# `WriteLimits.Basic` — settings, windows and counters of the write limits

The data and the pure parts of `app/authz/write_limits.py`: limits of an account and where they come
from, the windows, the queries over `write_events` (each a function of the table as one statement
sees it), the refusals with their bodies and texts. Times are microseconds, the resolution of
`datetime`.
-/

namespace MyPerson.WriteLimits

/-- The kinds of write events. -/
inductive Kind
  | send | action | lookup | groupCreate | groupInvite | chatJoin | contactImport
deriving DecidableEq, Repr

abbrev Time := Int

/-- `timedelta(seconds=n)`. -/
def seconds (n : Nat) : Time := n * 1000000

/-- `math.ceil((...).total_seconds())`. -/
def ceilSeconds (d : Time) : Int := (d + 999999) / 1000000

def maxWaitSec : Nat := 15

def retention : Time := seconds (25 * 3600)

def lookupDefault : Nat := 20

/-! ## Settings -/

structure Limits where
  enabled             : Bool := true
  perMinute           : Option Nat := some 5
  perHour             : Option Nat := some 20
  perDay              : Option Nat := some 100
  newDialogsPerDay    : Option Nat := some 10
  minIntervalSec      : Option Nat := some 3
  jitterSec           : Option Nat := some 2
  actionsPerHour      : Option Nat := some 60
  phoneLookupsPerDay  : Option Nat := some lookupDefault
  groupsCreatedPerDay : Option Nat := some 3
  groupInvitesPerDay  : Option Nat := some 30
  chatsJoinedPerDay   : Option Nat := some 5
  contactsImportedPerDay : Option Nat := some 50
deriving DecidableEq, Repr

def defaultLimits : Limits := {}

/-- Every limit off, lookups at their default. -/
def noLimits : Limits where
  perMinute := none
  perHour := none
  perDay := none
  newDialogsPerDay := none
  minIntervalSec := none
  jitterSec := none
  actionsPerHour := none
  groupsCreatedPerDay := none
  groupInvitesPerDay := none
  chatsJoinedPerDay := none
  contactsImportedPerDay := none

inductive Platform
  | telegram | max
deriving DecidableEq, Repr

def Platform.text : Platform → String
  | .telegram => "telegram"
  | .max => "max"

/-- `PLATFORM_DEFAULTS`: Telegram writes without limits unless the account has its own row. -/
def platformDefaults : Platform → Option Limits
  | .max => some defaultLimits
  | .telegram => none

/-- Where the limits in force come from: the account's own row, the platform default, nothing. -/
inductive Source
  | account | default | none
deriving DecidableEq, Repr

structure Effective where
  accountId : Nat
  aliasName : String
  platform  : Platform
  limits    : Option Limits
  source    : Source
deriving DecidableEq, Repr

/-- An `accounts` row joined with the account's own `account_write_limits` row. -/
structure AccountRow where
  aliasName : String
  platform  : Platform
  own       : Option Limits
deriving DecidableEq, Repr

/-- `effective(db, account_id)`. -/
def effective (accounts : Nat → Option AccountRow) (accountId : Nat) : Option Effective :=
  (accounts accountId).map fun row =>
    match row.own with
    | some own => ⟨accountId, row.aliasName, row.platform, some own, .account⟩
    | none =>
        match platformDefaults row.platform with
        | some limits => ⟨accountId, row.aliasName, row.platform, some limits, .default⟩
        | none => ⟨accountId, row.aliasName, row.platform, none, .none⟩

theorem effective_accountId {accounts : Nat → Option AccountRow} {a : Nat} {eff : Effective}
    (h : effective accounts a = some eff) : eff.accountId = a := by
  obtain ⟨row, -, rfl⟩ := Option.map_eq_some_iff.mp h
  split
  · rfl
  · split <;> rfl

/-! ## Windows -/

inductive WindowName
  | perMinute | perHour | perDay | newDialogsPerDay | actionsPerHour | phoneLookupsPerDay
  | groupsCreatedPerDay | groupInvitesPerDay | chatsJoinedPerDay | contactsImportedPerDay
deriving DecidableEq, Repr

def WindowName.text : WindowName → String
  | .perMinute => "per_minute"
  | .perHour => "per_hour"
  | .perDay => "per_day"
  | .newDialogsPerDay => "new_dialogs_per_day"
  | .actionsPerHour => "actions_per_hour"
  | .phoneLookupsPerDay => "phone_lookups_per_day"
  | .groupsCreatedPerDay => "groups_created_per_day"
  | .groupInvitesPerDay => "group_invites_per_day"
  | .chatsJoinedPerDay => "chats_joined_per_day"
  | .contactsImportedPerDay => "contacts_imported_per_day"

/-- `getattr(limits, w.name)`. -/
def Limits.get (l : Limits) : WindowName → Option Nat
  | .perMinute => l.perMinute
  | .perHour => l.perHour
  | .perDay => l.perDay
  | .newDialogsPerDay => l.newDialogsPerDay
  | .actionsPerHour => l.actionsPerHour
  | .phoneLookupsPerDay => l.phoneLookupsPerDay
  | .groupsCreatedPerDay => l.groupsCreatedPerDay
  | .groupInvitesPerDay => l.groupInvitesPerDay
  | .chatsJoinedPerDay => l.chatsJoinedPerDay
  | .contactsImportedPerDay => l.contactsImportedPerDay

structure Window where
  name           : WindowName
  kind           : Kind
  seconds        : Nat
  newDialogsOnly : Bool := false
  noun           : String := "sends"
deriving DecidableEq, Repr

/-- `WINDOWS`, in the order they are checked. -/
def windows : List Window := [
  { name := .perMinute, kind := .send, seconds := 60 },
  { name := .perHour, kind := .send, seconds := 3600 },
  { name := .perDay, kind := .send, seconds := 86400 },
  { name := .newDialogsPerDay, kind := .send, seconds := 86400, newDialogsOnly := true,
    noun := "new dialogs" },
  { name := .actionsPerHour, kind := .action, seconds := 3600, noun := "actions" },
  { name := .phoneLookupsPerDay, kind := .lookup, seconds := 86400, noun := "phone lookups" },
  { name := .groupsCreatedPerDay, kind := .groupCreate, seconds := 86400, noun := "groups created" },
  { name := .groupInvitesPerDay, kind := .groupInvite, seconds := 86400, noun := "group invites" },
  { name := .chatsJoinedPerDay, kind := .chatJoin, seconds := 86400, noun := "chats joined" },
  { name := .contactsImportedPerDay, kind := .contactImport, seconds := 86400,
    noun := "contacts imported" }]

/-- The window's length as time. -/
def Window.width (w : Window) : Time := WriteLimits.seconds w.seconds

/-- No window looks back further than the events are kept. -/
theorem Window.width_le_retention {w : Window} (hw : w ∈ windows) : w.width ≤ retention := by
  have hall : ∀ w ∈ windows, w.width ≤ retention := by decide
  exact hall w hw

/-- `_SPAN`. -/
def spanText : Nat → String
  | 60 => "minute"
  | 3600 => "hour"
  | 86400 => "24 hours"
  | _ => ""

/-! ## The table and its queries -/

/-- A `write_events` row; `atTime` is its column `at`, the planned time of the write. -/
structure WriteEvent where
  id        : Nat
  accountId : Nat
  kind      : Kind
  tool      : String
  chatId    : Option Int
  newDialog : Bool
  atTime    : Time
deriving DecidableEq, Repr

/-- The row belongs to the window `w` of account `a` (whatever its time). -/
def matchesWindow (a : Nat) (w : Window) (e : WriteEvent) : Bool :=
  e.accountId == a && e.kind == w.kind && (!w.newDialogsOnly || e.newDialog)

/-- The condition of `_events`. -/
def eventsCond (a : Nat) (w : Window) (since : Time) (e : WriteEvent) : Bool :=
  matchesWindow a w e && decide (since < e.atTime)

/-- `_count`. -/
def count (rows : List WriteEvent) (a : Nat) (w : Window) (now : Time) : Nat :=
  (rows.filter (eventsCond a w (now - w.width))).length

/-- `_retry_after`: seconds until the window holds `limit - n` events. -/
def retryAfter (rows : List WriteEvent) (a : Nat) (w : Window) (now : Time) (used limit n : Nat) : Nat :=
  let times := ((rows.filter (eventsCond a w (now - w.width))).map (·.atTime)).insertionSort (· ≤ ·)
  match times[used + n - limit - 1]? with
  | none => w.seconds
  | some at_ => (max 1 (ceilSeconds (at_ + w.width - now))).toNat

/-- A send of the account. -/
def isSend (a : Nat) (e : WriteEvent) : Bool := e.accountId == a && e.kind == .send

/-- A send of the account to the chat. -/
def isSendTo (a : Nat) (chatId : Int) (e : WriteEvent) : Bool := isSend a e && e.chatId == some chatId

/-- `_last_send`. -/
def lastSend (rows : List WriteEvent) (a : Nat) : Option Time :=
  ((rows.filter (isSend a)).map (·.atTime)).max?

/-- `_sent_to`. -/
def sentTo (rows : List WriteEvent) (a : Nat) (chatId : Int) : Bool := rows.any (isSendTo a chatId)

/-- The purge at the start of every critical section. -/
def purge (rows : List WriteEvent) (a : Nat) (now : Time) : List WriteEvent :=
  rows.filter fun e => !(e.accountId == a && decide (e.atTime < now - retention))

/-- A stored message, of either storage mode. -/
structure Message where
  accountId : Nat
  platform  : Platform
  chatId    : Int
deriving DecidableEq, Repr

/-- `_has_history`: the account's own tables in the new mode, else the platform's shared table. -/
def hasHistory (newMode : Bool) (messages : List Message) (eff : Effective) (chatId : Int) : Bool :=
  messages.any fun m => m.chatId == chatId &&
    (if newMode then m.accountId == eff.accountId else m.platform == eff.platform)

/-! ## What a call needs -/

/-- The `needs` of a call, a dictionary: events of each kind, every kind once. -/
structure Needs where
  entries : List (Kind × Nat)
  nodup   : (entries.map Prod.fst).Nodup

/-- `needs.get(kind, 0)`. -/
def Needs.get (needs : Needs) (kind : Kind) : Nat := (needs.entries.lookup kind).getD 0

/-- The kinds of the rows to store, one row for each event. -/
def Needs.kinds (needs : Needs) : List Kind := needs.entries.flatMap fun p => List.replicate p.2 p.1

def Needs.one (kind : Kind) : Needs := ⟨[(kind, 1)], by simp⟩

@[simp] theorem Needs.kinds_one (kind : Kind) : (Needs.one kind).kinds = [kind] := rfl

@[simp] theorem Needs.get_one (kind : Kind) : (Needs.one kind).get kind = 1 := by
  simp [Needs.one, Needs.get]

theorem count_kinds_aux (kind : Kind) : ∀ entries : List (Kind × Nat), (entries.map Prod.fst).Nodup →
    (entries.flatMap fun p => List.replicate p.2 p.1).count kind = (entries.lookup kind).getD 0 := by
  intro entries
  induction entries with
  | nil => intro _; rfl
  | cons p rest ih =>
      intro hnd
      obtain ⟨hp, hrest⟩ := List.nodup_cons.mp hnd
      rw [List.flatMap_cons, List.count_append, ih hrest, List.count_replicate, List.lookup_cons]
      by_cases hk : kind = p.1
      · subst hk
        have hnone : rest.lookup p.1 = none := by
          rw [List.lookup_eq_none_iff]
          intro q hq
          have hne : p.1 ≠ q.1 := fun h => hp (h ▸ List.mem_map_of_mem hq)
          simpa using hne
        simp [hnone]
      · have hne : (p.1 == kind) = false := by simpa using fun h => hk h.symm
        have hne' : (kind == p.1) = false := by simpa using hk
        simp [hne, hne']

/-- A call stores as many rows of a kind as it needs. -/
theorem Needs.count_kinds (needs : Needs) (kind : Kind) : needs.kinds.count kind = needs.get kind :=
  count_kinds_aux kind needs.entries needs.nodup

/-! ## Refusals -/

/-- A full window: its limit, the events in it, the wait (`none`: waiting does not help) and the
    number of events the call needs of it. -/
structure Full where
  window  : Window
  limit   : Nat
  used    : Nat
  waitFor : Option Nat
  n       : Nat
deriving DecidableEq, Repr

/-- The JSON body of a refusal. -/
inductive Body
  | window (limit : WindowName) (max used remaining requested : Nat) (retryAfter : Option Nat)
      (also : List WindowName) (tool aliasName : String) (platform : Platform) (message : String)
  | minInterval (max queuedWaitSec retryAfter : Nat) (tool aliasName : String) (platform : Platform)
      (message : String)
  | disabled (reason tool aliasName : String) (platform : Platform) (message : String)
deriving DecidableEq, Repr

/-- `Body.error`: the `error` field. -/
def Body.error : Body → String
  | .window .. => "rate limit"
  | .minInterval .. => "rate limit"
  | .disabled .. => "writes disabled"

structure WriteLimited where
  status     : Nat
  body       : Body
  retryAfter : Option Nat
deriving DecidableEq, Repr

/-- `_refusal`. -/
def refusal (eff : Effective) (tool : String) (f : Full) (also : List WindowName) : WriteLimited :=
  let w := f.window
  let name := w.name.text
  let span := spanText w.seconds
  let message :=
    if f.limit = 0 then
      s!"{w.noun} of account '{eff.aliasName}' are off: {name} = 0"
    else match f.waitFor with
      | none => s!"{f.n} {w.noun} never fit write limit {name} = {f.limit} of account '{eff.aliasName}'"
      | some wait =>
          if f.n > 1 then
            s!"write limit {name} of account '{eff.aliasName}': {f.used} of {f.limit} {w.noun} in the last " ++
            s!"{span}, {f.n} more do not fit; retry in {wait} s"
          else
            s!"write limit {name} of account '{eff.aliasName}' reached: {f.used} of {f.limit} {w.noun} " ++
            s!"in the last {span}; retry in {wait} s"
  ⟨429, .window w.name f.limit f.used (f.limit - f.used) f.n f.waitFor also tool eff.aliasName eff.platform
    message, f.waitFor⟩

/-- `g` decides over `f`: it waits longer, or waiting for it does not help and for `f` it does. -/
def decidesOver (g f : Full) : Bool :=
  match f.waitFor, g.waitFor with
  | none, _ => false
  | some _, none => true
  | some a, some b => decide (a < b)

/-- The full window the refusal names: the first one with the longest wait. -/
def decisive : List Full → Option Full
  | []      => none
  | f :: fs => some (fs.foldl (fun best g => if decidesOver g best then g else best) f)

/-- The end of `_check_windows`: no full window, no refusal. -/
def refuseFull (eff : Effective) (tool : String) (full : List Full) : Option WriteLimited :=
  (decisive full).map fun f =>
    refusal eff tool f ((full.filter fun g => g.window ≠ f.window).map (·.window.name))

theorem refuseFull_eq_none {eff : Effective} {tool : String} {full : List Full} :
    refuseFull eff tool full = none ↔ full = [] := by
  cases full <;> simp [refuseFull, decisive]

/-- The limit and the number of events a window is checked for; `none`: the window is skipped. -/
def checked (limits : Limits) (needs : Needs) (newDialog : Bool) (w : Window) : Option (Nat × Nat) :=
  match limits.get w.name with
  | none => none
  | some limit =>
      if needs.get w.kind = 0 ∨ (w.newDialogsOnly = true ∧ newDialog = false) then none
      else some (limit, needs.get w.kind)

/-- One pass of the loop of `_check_windows`, over one table. -/
def checkWindow (rows : List WriteEvent) (a : Nat) (limits : Limits) (needs : Needs) (now : Time)
    (newDialog : Bool) (w : Window) : Option Full :=
  (checked limits needs newDialog w).bind fun (limit, n) =>
    let used := count rows a w now
    if used + n > limit then
      some ⟨w, limit, used, if n > limit then none else some (retryAfter rows a w now used limit n), n⟩
    else none

/-- `_check_windows`, over one table. -/
def checkWindows (rows : List WriteEvent) (eff : Effective) (limits : Limits) (tool : String)
    (needs : Needs) (now : Time) (newDialog : Bool) : Option WriteLimited :=
  refuseFull eff tool (windows.filterMap (checkWindow rows eff.accountId limits needs now newDialog))

/-- `_disabled`. -/
def disabled (eff : Effective) (tool : String) : WriteLimited :=
  ⟨403, .disabled "write limits: enabled = false" tool eff.aliasName eff.platform
    s!"writes of account '{eff.aliasName}' are stopped (write limits enabled = false)", none⟩

/-- The refusal of a send that would wait longer than `maxWaitSec`. -/
def queued (eff : Effective) (tool : String) (minInterval : Nat) (wait : Time) : WriteLimited :=
  let retry := (max 1 (ceilSeconds (wait - seconds maxWaitSec))).toNat
  let queuedWait := (ceilSeconds wait).toNat
  ⟨429, .minInterval minInterval queuedWait retry tool eff.aliasName eff.platform
    (s!"sends of account '{eff.aliasName}' are queued for {queuedWait} s " ++
     s!"(min_interval {minInterval} s, wait limit {maxWaitSec} s); " ++
     s!"retry in {retry} s"), some retry⟩

end MyPerson.WriteLimits
