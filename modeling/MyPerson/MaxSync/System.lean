import MyPerson.Lib.Run
import MyPerson.Lib.Timeline
import MyPerson.MaxIngest.System

/-!
# `MaxSync.System` — catch-up, backfills and live messages of one MAX session

`app/max/sync.py` and the live path of `app/max/ingest.py` with the tables of `STORAGE_MODE=new`, cut at
their awaits, next to a server whose histories grow and a connection that comes and goes. A chat is named by
the internal id of its row. A store and its move of the cursor are one transaction, hence one step. The listing
of the chats, the order of the candidates and the limit of chats a pass are left open: a pass may take any
candidates.

## Contents
- `Cursor`, `advance`: the row of `sync_state` and `NewMaxStore._advance`;
- `Job`, `jobStep`: the seed of a chat, `_forward` and `_backward`;
- `Phase`, `Action`, `step`: a pass of `catch_up`, the backfills, the frames and the connection.
-/

namespace MyPerson.MaxSync

open Lib Repo MaxIngest

/-! ## Cursors -/

/-- A message at the end of a cursor. -/
structure Mark where
  time : Int
  id   : Int
deriving DecidableEq, Repr

/-- A row of `sync_state`. -/
structure Cursor where
  newest : Option Mark
  oldest : Option Mark
deriving DecidableEq, Repr

/-- `NewMaxStore._advance`. -/
def advance (row : Option Cursor) (m : Mark) : Cursor :=
  match row with
  | none => ⟨some m, some m⟩
  | some cursor =>
      match cursor.newest with
      | none => { cursor with newest := some m }
      | some newest => if newest.time < m.time then { cursor with newest := some m } else cursor

/-- `NewMaxStore.move_oldest`. -/
def moveOldest (row : Option Cursor) (m : Mark) : Cursor :=
  match row with
  | none => ⟨none, some m⟩
  | some cursor =>
      match cursor.oldest with
      | none => { cursor with oldest := some m }
      | some oldest => if m.time < oldest.time then { cursor with oldest := some m } else cursor

/-! ## Jobs on one chat -/

def pageSize : Nat := 100

/-- `_page`: with a cursor the message at the cursor comes back too. -/
def pageOf (remaining : Nat) (hasCursor : Bool) : Nat := min pageSize (remaining + if hasCursor then 1 else 0)

/-- The limit of `_forward` in a catch-up. -/
def catchupLimit : Nat := 10000

/-- Where a seed, `_forward` or `_backward` stands. -/
inductive Job
  /-- The seed of a chat without a row, before its page. -/
  | seed
  | seedStore (page left : List Msg)
  /-- `_forward` before it reads the cursor. -/
  | forwardRead (limit : Nat)
  | forward (limit stored : Nat) (cursor : Int) (seenAtCursor : List Int)
  | forwardStore (limit stored : Nat) (left newer : List Msg)
  /-- `_backward` before it reads the cursor; with `days`, the time it stops at. -/
  | backwardRead (limit : Nat) (stop : Option Int)
  | backward (limit stored : Nat) (stop cursor : Option Int)
  /-- `past`: the page reached past `days`. -/
  | backwardStore (limit stored : Nat) (stop : Option Int) (left inRange : List Msg) (past : Bool)
  /-- `tail`: a seed is stored, or the last page of `_forward` showed nothing newer. -/
  | ended (tail : Bool)
deriving DecidableEq

/-- `while stored < limit` of `_forward`. -/
def forwardLoop (limit stored : Nat) (cursor : Int) (seenAtCursor : List Int) : Job :=
  if stored < limit then .forward limit stored cursor seenAtCursor else .ended false

/-- `while stored < limit` of `_backward`. -/
def backwardLoop (limit stored : Nat) (stop cursor : Option Int) : Job :=
  if stored < limit then .backward limit stored stop cursor else .ended false

/-- The messages of a page that `_forward` has not seen. -/
def newerThan (cursor : Int) (seenAtCursor : List Int) (page : List Msg) : List Msg :=
  page.filter fun m => cursor < m.time || (m.time == cursor && !seenAtCursor.contains m.id)

/-- The messages of a page that are older than the cursor of `_backward`. -/
def olderThan (cursor : Option Int) (page : List Msg) : List Msg :=
  page.filter fun m => cursor.all fun t => m.time < t

/-- The newest of them that `days` and the limit allow. -/
def inRangeOf (stop : Option Int) (remaining : Nat) (older : List Msg) : List Msg :=
  (sortByTimeDesc Msg.time (older.filter fun m => stop.all fun t => t ≤ m.time)).take remaining

/-! ## The session -/

structure Config where
  /-- The chats the account has on the server. -/
  chats : List Nat
  /-- `MAX_CATCHUP_SEED`. -/
  seed  : Nat

inductive Conn
  | down | connecting | up
deriving DecidableEq, Repr

/-- `sync_chats` at work: what it has seen of each chat, and a page it has to store. -/
structure Listing where
  shown : Nat → Option (Option Msg)
  page  : List (Nat × Option Msg)

/-- Where a pass of `catch_up` stands; a chat to do comes with `state is None`. -/
inductive Phase
  | listing (l : Listing)
  /-- The chats are listed, or the listing failed (`chats_fresh`). -/
  | listed (fresh : Bool)
  /-- The candidates are read. -/
  | read (fresh : Bool) (noTail : List Nat) (todo : List (Nat × Bool))
  | chats (todo : List (Nat × Bool))
  | job (chat : Nat) (job : Job) (todo : List (Nat × Bool))
  /-- Between two passes. -/
  | asleep

/-- The task of `catchup_loop`, and the connection it was spawned in. -/
structure CatchUp where
  gen   : Nat
  phase : Phase

structure Backfill where
  chat : Nat
  job  : Job

structure State where
  /-- The messages of each chat on the server, in its order. -/
  history    : Nat → List Msg
  conn       : Conn
  /-- How many connections there have been. -/
  gen        : Nat
  identityOk : Bool
  /-- Frames under way. -/
  stream     : Nat → List Msg
  /-- Frames at the lock of their chat; the first one holds it. -/
  queue      : Nat → List Msg
  /-- What the holder has decided about the cursor. -/
  decided    : Nat → Option Bool
  caughtUp   : List Nat
  store      : Store
  cursors    : Table Nat Cursor
  /-- The first `newest_time_ms` of each row. -/
  born       : Nat → Option Int
  catchup    : Option CatchUp
  backfills  : Nat → Option Backfill

abbrev State.newest (s : State) (c : Nat) : Option Mark := (s.cursors c).bind Cursor.newest

/-- What a stored row has besides the message. -/
structure Rest where
  receivedAt : Time
  newUser    : Nat
  chatType   : ChatType

/-- `store_message`: the message and its stub rows, then the cursor. -/
def State.storeMessage (s : State) (c : Nat) (m : Msg) (rest : Rest) (advanceCursor : Bool) : State :=
  let row := normalizeMessage m rest.receivedAt false
  let stored := { s with
    store := upsertMessage (ensureRows s.store c rest.chatType row.senderExternalId rest.newUser) c row }
  if advanceCursor then
    { stored with
      cursors := Function.update s.cursors c (some (advance (s.cursors c) ⟨m.time, m.id⟩))
      born := if (s.newest c).isNone then Function.update s.born c (some m.time) else s.born }
  else stored

/-- `_move_oldest`. -/
def State.moveOldest (s : State) (c : Nat) (m : Mark) : State :=
  { s with cursors := Function.update s.cursors c (some (MaxSync.moveOldest (s.cursors c) m)) }

/-- What a job waits for. -/
inductive JobAction
  /-- The cursor is read, or the loop goes on. -/
  | next
  /-- The server answers with a page. -/
  | fetch (page : List Msg)
  /-- `_store` of the next message. -/
  | store (rest : Rest)
  /-- `_move_oldest`. -/
  | move

/-- A step of a job. `fetch_history` answers with the messages asked for, in any order. -/
def jobStep (cfg : Config) (s : State) (c : Nat) : Job → JobAction → Option (State × Job)
  | .seed, .fetch page =>
      if page.Perm (newestUpTo Msg.time (s.history c) none cfg.seed) then
        some (s, if page.isEmpty then .ended true else .seedStore page page)
      else none
  | .seedStore page (m :: left), .store rest => some (s.storeMessage c m rest true, .seedStore page left)
  | .seedStore page [], .move =>
      (sortByTime Msg.time page).head?.map fun m =>
        (s.moveOldest c ⟨m.time, m.id⟩, .ended true)
  | .forwardRead limit, .next =>
      (s.newest c).map fun newest => (s, forwardLoop limit 0 newest.time [newest.id])
  | .forward limit stored cursor seen, .fetch page =>
      if page.Perm (oldestFrom Msg.time (s.history c) cursor (pageOf (limit - stored) true)) then
        let newer := newerThan cursor seen page
        some (s,
          if newer.isEmpty then .ended true
          else .forwardStore limit stored ((sortByTime Msg.time newer).take (limit - stored)) newer)
      else none
  | .forwardStore limit stored (m :: left) newer, .store rest =>
      some (s.storeMessage c m rest true, .forwardStore limit (stored + 1) left newer)
  | .forwardStore limit stored [] newer, .next =>
      (sortByTime Msg.time newer).getLast?.map fun newest =>
        (s, forwardLoop limit stored newest.time
          ((newer.filter fun m => m.time == newest.time).map Msg.id))
  | .backwardRead limit stop, .next =>
      some (s, backwardLoop limit 0 stop (((s.cursors c).bind Cursor.oldest).map Mark.time))
  | .backward limit stored stop cursor, .fetch page =>
      if page.Perm (newestUpTo Msg.time (s.history c) cursor (pageOf (limit - stored) cursor.isSome)) then
        let older := olderThan cursor page
        let inRange := inRangeOf stop (limit - stored) older
        some (s,
          if inRange.isEmpty then .ended false
          else .backwardStore limit stored stop inRange inRange (inRange.length < older.length))
      else none
  | .backwardStore limit stored stop (m :: left) inRange past, .store rest =>
      some (s.storeMessage c m rest true, .backwardStore limit stored stop left inRange past)
  | .backwardStore limit stored stop [] inRange past, .move =>
      inRange.getLast?.map fun m =>
        (s.moveOldest c ⟨m.time, m.id⟩,
          if past then .ended false
          else backwardLoop limit (stored + inRange.length) stop (some m.time))
  | _, _ => none

/-! ## The chat list -/

/-- `upsert_chat` of a listed chat: the last message moves forward only. -/
def upsertChat (chats : Table Nat Chat) (chatType : ChatType) (listed : Nat × Option Msg) : Table Nat Chat :=
  let lastId := listed.2.map Msg.id
  let lastAt := listed.2.map fun m => msToDt m.time
  match chats listed.1 with
  | none => Function.update chats listed.1 (some ⟨chatType, lastId, lastAt⟩)
  | some chat =>
      if lastId.any fun new => chat.lastMessageExternalId.all fun old => old < new then
        Function.update chats listed.1 (some { chat with lastMessageExternalId := lastId, lastMessageAt := lastAt })
      else chats

/-- The listing as a pass starts: a chat without messages has nothing to show. -/
def State.newListing (s : State) : Listing :=
  ⟨fun c => if (s.history c).isEmpty then some none else none, []⟩

/-- `_catchup_candidates`: nothing newer than the cursor is known of the chat. -/
def State.noTail (s : State) (c : Nat) : Bool :=
  match s.store.chats c with
  | none => false
  | some chat =>
      match chat.lastMessageAt, s.newest c with
      | none, _ => true
      | some last, some newest => dtToMs last ≤ newest.time
      | some _, none => false

/-- A chat with a tail, or never synced. -/
def State.candidate (s : State) (c : Nat) : Bool := (s.store.chats c).isSome && !s.noTail c

/-! ## Steps -/

inductive Action
  /-- A new message on the server. -/
  | grow (c : Nat) (m : Msg)
  | drop
  /-- The supervisor starts over: `caught_up` and `identity_ok` are reset. -/
  | reset
  | connect
  | identify
  /-- `on_authorized`: a new catch-up takes the place of the old one. -/
  | authorize
  /-- The task of the next frame of a chat starts. -/
  | arrive (c : Nat)
  /-- `store_message` looks whether the chat is caught up. -/
  | decide (c : Nat)
  | commit (c : Nat) (rest : Rest)
  /-- `fetch_chats` answers with some of the chats. -/
  | list (cs : List Nat)
  | storeList (chatType : ChatType)
  /-- `sync_chats` ends, or fails. -/
  | endList (fresh : Bool)
  /-- The chats are read; some may be inactive, and only some of the candidates come next. -/
  | candidates (inactive todo : List Nat)
  | markNoTail
  | nextChat
  | job (a : JobAction)
  /-- The chat failed. -/
  | skip
  /-- `caught_up.add`. -/
  | mark
  | endPass
  | wake
  | cancel
  | backfill (i c : Nat) (forward : Bool) (limit : Nat) (stop : Option Int)
  | backfillJob (i : Nat) (a : JobAction)
  | backfillEnd (i : Nat)

/-- A page comes over the connection of the task. -/
def JobAction.online (a : JobAction) (s : State) (gen : Nat) : Bool :=
  match a with
  | .fetch _ => s.conn == .up && gen == s.gen
  | _ => true

def State.setPhase (s : State) (t : CatchUp) (phase : Phase) : State :=
  { s with catchup := some { t with phase } }

/-- The steps of the server, the connection and the frames. -/
def liveStep (cfg : Config) (s : State) : Action → Option State
  | .grow c m =>
      if c ∈ cfg.chats ∧ ∀ old ∈ s.history c, old.time ≤ m.time ∧ old.id ≠ m.id then
        some { s with
          history := Function.update s.history c (s.history c ++ [m])
          stream := if s.conn = .up then Function.update s.stream c (s.stream c ++ [m]) else s.stream }
      else none
  | .drop => some { s with conn := .down, stream := fun _ => [] }
  | .reset =>
      if s.conn = .down then
        some { s with conn := .connecting, gen := s.gen + 1, caughtUp := [], identityOk := false }
      else none
  | .connect => if s.conn = .connecting then some { s with conn := .up } else none
  | .identify => if s.conn = .up then some { s with identityOk := true } else none
  | .authorize =>
      if s.conn = .up ∧ s.identityOk = true then
        some { s with catchup := some ⟨s.gen, .listing s.newListing⟩ }
      else none
  | .arrive c =>
      match s.stream c with
      | [] => none
      | m :: rest =>
          if s.identityOk then
            some { s with
              stream := Function.update s.stream c rest
              queue := Function.update s.queue c (s.queue c ++ [m]) }
          else some { s with stream := Function.update s.stream c rest }
  | .decide c =>
      if (s.queue c).isEmpty || (s.decided c).isSome then none
      else some { s with decided := Function.update s.decided c (some (s.caughtUp.contains c)) }
  | .commit c rest =>
      match s.queue c, s.decided c with
      | m :: left, some advanceCursor =>
          some { s.storeMessage c m rest advanceCursor with
            queue := Function.update s.queue c left
            decided := Function.update s.decided c none }
      | _, _ => none
  | _ => none

/-- The steps of `catchup_loop`. -/
def catchupStep (cfg : Config) (s : State) (t : CatchUp) : Action → Option State
  | .list cs =>
      match t.phase with
      | .listing l =>
          if s.conn = .up ∧ t.gen = s.gen ∧ l.page = [] then
            some (s.setPhase t (.listing
              ⟨fun c => if c ∈ cs then some (s.history c).getLast? else l.shown c,
                cs.map fun c => (c, (s.history c).getLast?)⟩))
          else none
      | _ => none
  | .storeList chatType =>
      match t.phase with
      | .listing l =>
          some { s.setPhase t (.listing { l with page := [] }) with
            store := { s.store with
              chats := l.page.foldl (fun chats listed => upsertChat chats chatType listed) s.store.chats } }
      | _ => none
  | .endList fresh =>
      match t.phase with
      | .listing l =>
          if fresh = true → l.page = [] ∧ ∀ c ∈ cfg.chats, (l.shown c).isSome = true then
            some (s.setPhase t (.listed fresh))
          else none
      | _ => none
  | .candidates inactive todo =>
      match t.phase with
      | .listed fresh =>
          if ∀ c ∈ todo, s.candidate c = true ∧ c ∉ inactive then
            some (s.setPhase t (.read fresh (cfg.chats.filter fun c => s.noTail c && !inactive.contains c)
              (todo.map fun c => (c, (s.cursors c).isNone))))
          else none
      | _ => none
  | .markNoTail =>
      match t.phase with
      | .read fresh noTail todo =>
          some { s.setPhase t (.chats todo) with
            caughtUp := if fresh then noTail ++ s.caughtUp else s.caughtUp }
      | _ => none
  | .nextChat =>
      match t.phase with
      | .chats ((c, isNew) :: todo) =>
          some (s.setPhase t (.job c (if isNew then .seed else .forwardRead catchupLimit) todo))
      | _ => none
  | .job a =>
      match t.phase with
      | .job c job todo =>
          if a.online s t.gen then
            (jobStep cfg s c job a).map fun r => r.1.setPhase t (.job c r.2 todo)
          else none
      | _ => none
  | .skip =>
      match t.phase with
      | .job _ _ todo => some (s.setPhase t (.chats todo))
      | _ => none
  | .mark =>
      match t.phase with
      | .job c (.ended _) todo => some { s.setPhase t (.chats todo) with caughtUp := c :: s.caughtUp }
      | _ => none
  | .endPass =>
      match t.phase with
      | .chats [] => some (s.setPhase t .asleep)
      | _ => none
  | .wake =>
      match t.phase with
      | .asleep => some (s.setPhase t (.listing s.newListing))
      | _ => none
  | .cancel => some { s with catchup := none }
  | _ => none

/-- The steps of the backfills. -/
def backfillStep (cfg : Config) (s : State) : Action → Option State
  | .backfill i c forward limit stop =>
      if (s.backfills i).isNone then
        some { s with
          backfills := Function.update s.backfills i
            (some ⟨c, if forward then .forwardRead limit else .backwardRead limit stop⟩) }
      else none
  | .backfillJob i a =>
      match s.backfills i with
      | some b =>
          (jobStep cfg s b.chat b.job a).map fun r =>
            { r.1 with backfills := Function.update s.backfills i (some { b with job := r.2 }) }
      | none => none
  | .backfillEnd i => some { s with backfills := Function.update s.backfills i none }
  | _ => none

def step (cfg : Config) (s : State) (a : Action) : Option State :=
  match a with
  | .grow .. | .drop | .reset | .connect | .identify | .authorize | .arrive _ | .decide _ | .commit .. =>
      liveStep cfg s a
  | .backfill .. | .backfillJob .. | .backfillEnd _ => backfillStep cfg s a
  | _ => s.catchup.bind fun t => catchupStep cfg s t a

/-- No connection yet, and nothing known of any chat. -/
def start (accountUser : Option Int) : State where
  history _ := []
  conn := .down
  gen := 0
  identityOk := false
  stream _ := []
  queue _ := []
  decided _ := none
  caughtUp := []
  store := ⟨accountUser, fun _ => none, fun _ => none, fun _ => none, fun _ => none⟩
  cursors _ := none
  born _ := none
  catchup := none
  backfills _ := none

end MyPerson.MaxSync
