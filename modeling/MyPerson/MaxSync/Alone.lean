import MyPerson.MaxSync.System

/-!
# `MaxSync.Alone` — the calls on one chat, with stores that may fail

The seed of `catch_up`, `_forward` and `_backward` of `app/max/sync.py` on one chat, in both storage modes:
one call at a time, with live messages and lost connections in between. A store is one step, because each
store may fail on its own (`_store` logs it and goes on); so is a page, and the move of the oldest cursor.
The server's times are positive, as milliseconds since 1970 are.

## Contents
- `State`, a store, `_move_oldest`, `_finish_backfill`;
- `Job`, the calls;
- `step`, and what a step of a call can do.
-/

namespace MyPerson.MaxSync.Alone

open Lib Repo MaxIngest

/-! ## The chat -/

/-- Where a call stands; compare `MaxSync.Job`. -/
inductive Job
  | seedStore (page left : List Msg)
  /-- The cursor is `None` when the row has no `newest_time_ms`. -/
  | forward (limit stored : Nat) (cursor : Option Int) (seenAtCursor : List Int)
  | forwardStore (limit stored : Nat) (left newer : List Msg)
  | backward (limit stored : Nat) (stop cursor : Option Int)
  /-- `past`: the page reached past `days`. -/
  | backwardStore (limit stored : Nat) (stop : Option Int) (left inRange : List Msg) (past : Bool)
deriving DecidableEq, Repr

structure Call where
  job      : Job
  /-- `newest_time_ms` when the call began. -/
  previous : Option Int
  /-- A call of `catch_up`, not a backfill. -/
  catchUp  : Bool
deriving DecidableEq, Repr

structure State where
  /-- `STORAGE_MODE=new`. -/
  newMode     : Bool
  history     : List Msg
  /-- The ids in the messages table. -/
  stored      : List Int
  /-- The row of the chat in `sync_state`, or `max_sync_state`. -/
  row         : Option Cursor
  fullySynced : Bool
  caughtUp    : Bool
  call        : Option Call
  /-- Messages above the cursor of their call whose store failed and has not succeeded since. -/
  missed      : List Msg
  /-- The last `catch_up` of the chat raised. -/
  raised      : Bool
deriving DecidableEq, Repr

/-- Before anything is known of the chat. -/
def initial (newMode : Bool) : State := ⟨newMode, [], [], none, false, false, none, [], false⟩

abbrev State.newest (s : State) : Option Mark := s.row.bind Cursor.newest

abbrev State.oldest (s : State) : Option Mark := s.row.bind Cursor.oldest

abbrev State.newestTime (s : State) : Option Int := s.newest.map Mark.time

/-- A store: the message and the cursor in one transaction, or nothing. -/
def State.store (s : State) (m : Msg) (previous : Option Int) (advanceCursor ok : Bool) : State :=
  if ok then
    { s with
      stored := m.id :: s.stored
      row := if advanceCursor then some (advance s.row ⟨m.time, m.id⟩) else s.row
      missed := s.missed.filter fun x => x.id ≠ m.id }
  else if previous.all (· < m.time) then { s with missed := m :: s.missed }
  else s

/-- `_move_oldest`; the legacy one raises without a row. -/
def State.moveOldest (s : State) (m : Mark) : Option State :=
  if s.newMode = false ∧ s.row = none then none
  else some { s with row := some (MaxSync.moveOldest s.row m) }

/-- `_finish_backfill`. -/
def State.finish (s : State) (fullySynced : Option Bool) : State :=
  { s with fullySynced := if s.row.isSome then fullySynced.getD s.fullySynced else s.fullySynced }

/-- The call returns; a chat that `catch_up` is through with is caught up. -/
def State.done (s : State) (call : Call) : State :=
  { s with
    call := none
    caughtUp := s.caughtUp || call.catchUp
    raised := s.raised && !call.catchUp }

/-- The call raises; a backfill only logs it. -/
def State.fail (s : State) (call : Call) : State :=
  { s with
    call := none
    raised := s.raised || call.catchUp }

def State.goOn (s : State) (call : Call) (job : Job) : State := { s with call := some { call with job } }

/-! ## Calls -/

/-- `while stored < limit` of `_forward`. -/
def forwardLoop (s : State) (call : Call) (limit stored : Nat) (cursor : Option Int) (seenAtCursor : List Int) :
    State :=
  if stored < limit then s.goOn call (.forward limit stored cursor seenAtCursor) else (s.finish none).done call

/-- `while stored < limit` of `_backward`. -/
def backwardLoop (s : State) (call : Call) (limit stored : Nat) (stop cursor : Option Int) : State :=
  if stored < limit then s.goOn call (.backward limit stored stop cursor) else (s.finish (some false)).done call

/-- `_forward` reads the row. -/
def State.startForward (s : State) (cursor : Cursor) (limit : Nat) (catchUp : Bool) : State :=
  forwardLoop s ⟨.forward limit 0 none [], s.newestTime, catchUp⟩ limit 0 (cursor.newest.map Mark.time)
    (cursor.newest.map Mark.id).toList

/-- `_backward` reads the row; an oldest time of 0 counts as none. -/
def State.startBackward (s : State) (limit : Nat) (stop : Option Int) : State :=
  backwardLoop s ⟨.backward limit 0 stop none, s.newestTime, false⟩ limit 0 stop
    ((s.oldest.map Mark.time).filter (· ≠ 0))

/-- A page of `_forward`. A row without `newest_time_ms` asks from now on, and `m.time > None` raises. -/
def State.forwardPage (s : State) (call : Call) (limit stored : Nat) (cursor : Option Int) (seenAtCursor : List Int)
    (page : List Msg) : State :=
  match cursor with
  | none => if page.isEmpty then (s.finish none).done call else s.fail call
  | some cursor =>
      let newer := newerThan cursor seenAtCursor page
      if newer.isEmpty then (s.finish none).done call
      else s.goOn call (.forwardStore limit stored ((sortByTime Msg.time newer).take (limit - stored)) newer)

/-- A page of `_backward`. -/
def State.backwardPage (s : State) (call : Call) (limit stored : Nat) (stop cursor : Option Int) (page : List Msg) :
    State :=
  let older := olderThan cursor page
  let inRange := inRangeOf stop (limit - stored) older
  if older.isEmpty then (s.finish (some true)).done call
  else if inRange.isEmpty then (s.finish (some false)).done call
  else s.goOn call (.backwardStore limit stored stop inRange inRange (inRange.length < older.length))

/-- The next message to store, and the call after it. -/
def Job.pending : Job → Option (Msg × (Bool → Job))
  | .seedStore page (m :: left) => some (m, fun _ => .seedStore page left)
  | .forwardStore limit stored (m :: left) newer =>
      some (m, fun ok => .forwardStore limit (stored + ok.toNat) left newer)
  | .backwardStore limit stored stop (m :: left) inRange past =>
      some (m, fun ok => .backwardStore limit (stored + ok.toNat) stop left inRange past)
  | _ => none

/-- `_store` of the next message. -/
def State.storeNext (s : State) (ok : Bool) : Option State :=
  s.call.bind fun call => call.job.pending.map fun p =>
    { s.store p.1 call.previous true ok with call := some { call with job := p.2 ok } }

/-- The server answers with a page; without a `from_time`, its clock shows `now`. -/
def State.fetch (s : State) (now : Int) (page : List Msg) : Option State :=
  s.call.bind fun call =>
    match call.job with
    | .forward limit stored cursor seen =>
        if page.Perm (oldestFrom Msg.time s.history (cursor.getD now) (pageOf (limit - stored) true)) then
          some (s.forwardPage call limit stored cursor seen page)
        else none
    | .backward limit stored stop cursor =>
        if page.Perm (newestUpTo Msg.time s.history cursor (pageOf (limit - stored) cursor.isSome)) then
          some (s.backwardPage call limit stored stop cursor page)
        else none
    | _ => none

/-- After the last store of a page. -/
def State.endPage (s : State) : Option State :=
  s.call.bind fun call =>
    match call.job with
    | .seedStore page [] =>
        (sortByTime Msg.time page).head?.map fun oldest =>
          match s.moveOldest ⟨oldest.time, oldest.id⟩ with
          | none => s.fail call
          | some moved => moved.done call
    | .forwardStore limit stored [] newer =>
        (sortByTime Msg.time newer).getLast?.map fun newest =>
          forwardLoop s call limit stored (some newest.time)
            ((newer.filter fun m => m.time == newest.time).map Msg.id)
    | .backwardStore limit stored stop [] inRange past =>
        inRange.getLast?.map fun oldest =>
          match s.moveOldest ⟨oldest.time, oldest.id⟩ with
          | none => s.fail call
          | some moved =>
              if past then (moved.finish (some false)).done call
              else backwardLoop moved call limit stored stop (some oldest.time)
    | _ => none

/-! ## Steps -/

inductive Action
  /-- A new message on the server. -/
  | post (m : Msg)
  /-- The connection is lost, and the call with it. -/
  | drop
  /-- A live message, or an edit of one. -/
  | live (m : Msg) (ok : Bool)
  /-- `catch_up` of a chat without a row: the page of the seed. -/
  | seed (page : List Msg)
  /-- `catch_up` of a chat with a row. -/
  | catchUp
  | forward (limit : Nat)
  | backward (limit : Nat) (stop : Option Int)
  | fetch (now : Int) (page : List Msg)
  | store (ok : Bool)
  | next
deriving DecidableEq, Repr

/-- The seed stores the page it got; an empty one ends it. -/
def State.startSeed (s : State) (page : List Msg) : State :=
  let call : Call := ⟨.seedStore page page, s.newestTime, true⟩
  if page.isEmpty then s.done call else s.goOn call call.job

def step (seedSize : Nat) (s : State) : Action → Option State
  | .post m =>
      if 0 < m.time ∧ ∀ old ∈ s.history, old.time ≤ m.time ∧ old.id ≠ m.id then
        some { s with history := s.history ++ [m] }
      else none
  | .drop => some { s with caughtUp := false, call := none }
  | .live m ok => if m ∈ s.history then some (s.store m s.newestTime s.caughtUp ok) else none
  | .seed page =>
      if s.call = none ∧ s.row = none ∧ page.Perm (newestUpTo Msg.time s.history none seedSize) then
        some (s.startSeed page)
      else none
  | .catchUp => if s.call = none then s.row.map fun cursor => s.startForward cursor catchupLimit true else none
  -- `start_backfill` asks for a newest time
  | .forward limit =>
      if s.call = none ∧ s.newest ≠ none then s.row.map fun cursor => s.startForward cursor limit false else none
  | .backward limit stop => if s.call = none then some (s.startBackward limit stop) else none
  | .fetch now page => s.fetch now page
  | .store ok => s.storeNext ok
  | .next => s.endPage

/-! ## What a step of a call can do -/

variable {s t : State} {now : Int} {page : List Msg} {ok : Bool}

theorem storeNext_cases (h : s.storeNext ok = some t) :
    ∃ call m after, s.call = some call ∧ call.job.pending = some (m, after) ∧
      t = { s.store m call.previous true ok with call := some { call with job := after ok } } := by
  obtain ⟨call, hcall, h⟩ := Option.bind_eq_some_iff.mp h
  obtain ⟨⟨m, after⟩, hpending, rfl⟩ := Option.map_eq_some_iff.mp h
  exact ⟨call, m, after, hcall, hpending, rfl⟩

theorem fetch_cases (h : s.fetch now page = some t) :
    ∃ call, s.call = some call ∧
      ((∃ limit stored cursor seen, call.job = .forward limit stored cursor seen ∧
          page.Perm (oldestFrom Msg.time s.history (cursor.getD now) (pageOf (limit - stored) true)) ∧
          t = s.forwardPage call limit stored cursor seen page) ∨
        ∃ limit stored stop cursor, call.job = .backward limit stored stop cursor ∧
          page.Perm (newestUpTo Msg.time s.history cursor (pageOf (limit - stored) cursor.isSome)) ∧
          t = s.backwardPage call limit stored stop cursor page) := by
  obtain ⟨call, hcall, h⟩ := Option.bind_eq_some_iff.mp h
  refine ⟨call, hcall, ?_⟩
  cases hjob : call.job with
  | forward limit stored cursor seen =>
      rw [hjob] at h
      obtain ⟨hpage, heq⟩ := Option.ite_none_right_eq_some.mp h
      exact Or.inl ⟨limit, stored, cursor, seen, rfl, hpage, (Option.some.inj heq).symm⟩
  | backward limit stored stop cursor =>
      rw [hjob] at h
      obtain ⟨hpage, heq⟩ := Option.ite_none_right_eq_some.mp h
      exact Or.inr ⟨limit, stored, stop, cursor, rfl, hpage, (Option.some.inj heq).symm⟩
  | _ =>
      rw [hjob] at h
      cases h

/-- The end of a page. -/
inductive PageEnd (s : State) (call : Call) : State → Prop
  | seed {page : List Msg} {oldest : Msg} {moved : State} (hjob : call.job = .seedStore page [])
      (hmove : s.moveOldest ⟨oldest.time, oldest.id⟩ = some moved) : PageEnd s call (moved.done call)
  | forward {limit stored : Nat} {newer : List Msg} {newest : Msg}
      (hjob : call.job = .forwardStore limit stored [] newer)
      (hnewest : (sortByTime Msg.time newer).getLast? = some newest) :
      PageEnd s call (forwardLoop s call limit stored (some newest.time)
        ((newer.filter fun m => m.time == newest.time).map Msg.id))
  | backward {limit stored : Nat} {stop : Option Int} {inRange : List Msg} {past : Bool} {oldest : Msg} {moved : State}
      (hjob : call.job = .backwardStore limit stored stop [] inRange past) (holdest : inRange.getLast? = some oldest)
      (hmove : s.moveOldest ⟨oldest.time, oldest.id⟩ = some moved) :
      PageEnd s call (if past then (moved.finish (some false)).done call
        else backwardLoop moved call limit stored stop (some oldest.time))
  | raises (hmode : s.newMode = false) (hrow : s.row = none)
      (hjob : (∃ page, call.job = .seedStore page []) ∨
        ∃ limit stored stop inRange past, call.job = .backwardStore limit stored stop [] inRange past) :
      PageEnd s call (s.fail call)

theorem moveOldest_none {m : Mark} (h : s.moveOldest m = none) : s.newMode = false ∧ s.row = none := by
  unfold State.moveOldest at h
  split at h
  · assumption
  · cases h

theorem moveOldest_some {m : Mark} (h : s.moveOldest m = some t) :
    t = { s with row := some (MaxSync.moveOldest s.row m) } := by
  unfold State.moveOldest at h
  split at h
  · cases h
  · exact (Option.some.inj h).symm

theorem endPage_cases (h : s.endPage = some t) : ∃ call, s.call = some call ∧ PageEnd s call t := by
  obtain ⟨call, hcall, h⟩ := Option.bind_eq_some_iff.mp h
  refine ⟨call, hcall, ?_⟩
  split at h
  · rename_i page hjob
    obtain ⟨oldest, -, rfl⟩ := Option.map_eq_some_iff.mp h
    cases hmove : s.moveOldest ⟨oldest.time, oldest.id⟩ with
    | none => exact .raises (moveOldest_none hmove).1 (moveOldest_none hmove).2 (Or.inl ⟨page, hjob⟩)
    | some moved => exact .seed hjob hmove
  · rename_i limit stored newer hjob
    obtain ⟨newest, hnewest, rfl⟩ := Option.map_eq_some_iff.mp h
    exact .forward hjob hnewest
  · rename_i limit stored stop inRange past hjob
    obtain ⟨oldest, holdest, rfl⟩ := Option.map_eq_some_iff.mp h
    cases hmove : s.moveOldest ⟨oldest.time, oldest.id⟩ with
    | none =>
        exact .raises (moveOldest_none hmove).1 (moveOldest_none hmove).2
          (Or.inr ⟨limit, stored, stop, inRange, past, hjob⟩)
    | some moved => exact .backward hjob holdest hmove
  · cases h

end MyPerson.MaxSync.Alone
