import MyPerson.Lib.Run
import MyPerson.Lib.Timeline

/-!
# `Telegram.Backfill` — the history of one chat and its cursors

`app/services/backfill_service.py` for one chat of one account. The chat's messages are their ids; Telegram
gives a chat ascending positive ones. A backfill runs to its end, its stores succeed, and it moves the
chat's row in `tg_sync_state` or `sync_state`. The time of the last backfill is not kept: nothing reads it.

## Contents
- the state, `upsertMessage`;
- the pages of a run; `runBackwardFill`, `runForwardFill`, `runBackfillNew`;
- `step`; what the cursors of a row say, `CursorsEnclose`.
-/

namespace MyPerson.Telegram.Backfill

open Lib

/-- The id of a message is its place in the chat. -/
def idOf (id : Nat) : Int := id

/-! ## The state -/

/-- A row of `tg_sync_state`, or of `sync_state` with its `*_external_id`. -/
structure SyncState where
  oldest       : Option Nat := none
  newest       : Option Nat := none
  fullySynced  : Bool := false
  totalSynced  : Nat := 0
deriving DecidableEq, Repr

structure State where
  /-- `STORAGE_MODE=new`. -/
  newMode     : Bool
  /-- The chat on the server. -/
  history     : List Nat
  /-- The messages in our table of the mode. -/
  stored      : List Nat
  /-- `tg_chats.last_message_id`. -/
  lastMessage : Option Nat
  syncState   : Option SyncState
deriving DecidableEq, Repr

/-- Before anything is known of the chat. -/
def initial (newMode : Bool) : State := ⟨newMode, [], [], none, none⟩

/-- The chat's row, as `_run_backfill` creates it when there is none. -/
def State.row (s : State) : SyncState := s.syncState.getD {}

/-- `upsert_message` of a server message; the legacy one moves the chat's last message too. -/
def upsertMessage (s : State) (id : Nat) : State :=
  { s with
    stored := id :: s.stored
    lastMessage := if s.newMode = false ∧ s.lastMessage.all (· ≤ id) then some id else s.lastMessage }

/-! ## Pages -/

/-- The batches of a backward run from `offset_id`, each one newest first, and whether the last one was empty. -/
def fetchBackward (history : List Nat) (limit : Nat) (offset : Option Nat) : List (List Nat) × Bool :=
  let read := readDown idOf history 100 limit limit (offset.map fun o => idOf o - 1)
  (read.1.map List.reverse, read.2)

/-- The batches of a forward run from `min_id`, each one oldest first. -/
def fetchForward (history : List Nat) (limit minId : Nat) : List (List Nat) :=
  readUp idOf history 100 limit limit (idOf minId + 1)

/-! ## The legacy tables -/

/-- `if oldest_id == 0 or msg.id < oldest_id: oldest_id = msg.id` -/
def oldestSeen (oldest id : Nat) : Nat := if oldest = 0 ∨ id < oldest then id else oldest

/-- `if msg.id > newest_id_seen: newest_id_seen = msg.id` -/
def newestSeen (newest id : Nat) : Nat := if id > newest then id else newest

/-- `x or None` -/
def orNone (n : Nat) : Option Nat := if n = 0 then none else some n

/-- `_run_backward_fill` -/
def runBackwardFill (s : State) (limit : Nat) : State :=
  let maxId := s.row.oldest.getD 0
  let fetched := fetchBackward s.history limit (orNone maxId)
  let messages := fetched.1.flatten
  let s' := messages.foldl upsertMessage s
  let oldestId := messages.foldl oldestSeen maxId
  { s' with
    syncState := some
      { oldest := (orNone oldestId).or s.row.oldest
        newest :=
          if s.row.newest = none ∨ s'.lastMessage.any (s.row.newest.getD 0 < ·) then s'.lastMessage
          else s.row.newest
        fullySynced := fetched.2 || s.row.fullySynced
        totalSynced := s.row.totalSynced + messages.length } }

/-- `_run_forward_fill`; `oldest` and `fullySynced` stay. -/
def runForwardFill (s : State) (limit : Nat) : State :=
  let minId := s.row.newest.getD 0
  let messages := (fetchForward s.history limit minId).flatten
  let s' := messages.foldl upsertMessage s
  { s' with
    syncState := some
      { s.row with
        newest := orNone (max (s.row.newest.getD 0) (messages.foldl newestSeen minId))
        totalSynced := s.row.totalSynced + messages.length } }

/-! ## The account's own tables -/

/-- `min([i for i in (oldest, *ids) if i])` -/
def lowest (oldest : Option Nat) (ids : List Nat) : Option Nat :=
  ((oldest.toList ++ ids).filter (· ≠ 0)).min?

/-- `max([i for i in (newest, *ids) if i])` -/
def highest (newest : Option Nat) (ids : List Nat) : Option Nat :=
  ((newest.toList ++ ids).filter (· ≠ 0)).max?

/-- `_run_backfill_new` backward. -/
def runBackfillNewBackward (s : State) (limit : Nat) : State :=
  let fetched := fetchBackward s.history limit (s.row.oldest.bind orNone)
  let s' := fetched.1.flatten.foldl upsertMessage s
  { s' with
    syncState := some
      { oldest := fetched.1.foldl lowest s.row.oldest
        newest := fetched.1.foldl highest s.row.newest
        -- the field is only written when a batch was empty
        fullySynced := fetched.2 || s.row.fullySynced
        totalSynced := s.row.totalSynced + fetched.1.flatten.length } }

/-- `_run_backfill_new` forward: of the cursors only the newest is written. -/
def runBackfillNewForward (s : State) (limit : Nat) : State :=
  let batches := fetchForward s.history limit (s.row.newest.getD 0)
  let s' := batches.flatten.foldl upsertMessage s
  { s' with
    syncState := some
      { s.row with
        newest := batches.foldl highest s.row.newest
        totalSynced := s.row.totalSynced + batches.flatten.length } }

/-! ## Runs -/

inductive Op
  /-- The server gets a message; without an `event` of it we were down. -/
  | post (id : Nat)
  /-- A live event of a message of the server. -/
  | event (id : Nat)
  | backward (limit : Nat)
  | forward (limit : Nat)
deriving DecidableEq, Repr

def step (s : State) : Op → Option State
  | .post id =>
      if 0 < id ∧ ∀ old ∈ s.history, old < id then some { s with history := s.history ++ [id] } else none
  | .event id => if id ∈ s.history then some (upsertMessage s id) else none
  | .backward limit => some (if s.newMode then runBackfillNewBackward s limit else runBackwardFill s limit)
  | .forward limit => some (if s.newMode then runBackfillNewForward s limit else runForwardFill s limit)

/-- What a row says of the chat: all between its cursors is stored, and when it is fully synced all below
    its newest cursor. -/
def CursorsEnclose (s : State) : Prop :=
  ∀ row, s.syncState = some row → ∀ newest, row.newest = some newest →
    (∀ oldest, row.oldest = some oldest → ∀ id ∈ s.history, oldest ≤ id → id ≤ newest → id ∈ s.stored) ∧
      (row.fullySynced = true → ∀ id ∈ s.history, id < newest → id ∈ s.stored)

end MyPerson.Telegram.Backfill
