import MyPerson.Lib.Dict
import MyPerson.Lib.Run
import MyPerson.Lib.Table
import MyPerson.WriteLimits.Basic

/-!
# `Stream.Manager` — the SSE fan-out

`app/services/stream_service.py` and `app/max/stream.py`, with the two `GET /stream/messages` endpoints and the
calls of `broadcast` in the Telegram handlers and in the MAX ingest. A queue is an object: `_queues` refers to
it, `_accounts` is keyed by `id(queue)`, its address, which is given out again once the object is gone.
`broadcast` has no `await`, so a call is one step. `dumps` is `json.dumps` of an event.

## Contents
- `StreamManager`: `subscribe`, `unsubscribe`, `broadcast`;
- where an event goes (`Origin.address`), what a request subscribes to (`Request.address`);
- `State`, `step`.
-/

namespace MyPerson.Stream

open Lib
open WriteLimits (Platform)

variable {Data Payload : Type*}

/-! ## The manager -/

/-- `asyncio.Queue(maxsize=100)`. -/
def maxsize : Nat := 100

/-- A queue object, by the number of the `subscribe` that made it. -/
abbrev Ref := Nat

structure Queue (Payload : Type*) where
  /-- `id(queue)`. -/
  id    : Nat
  items : List Payload
deriving DecidableEq, Repr

structure StreamManager where
  /-- `_queues`. -/
  queues   : List Ref
  /-- `_accounts`: id(queue) → account. -/
  accounts : List (Nat × Option Int)
deriving DecidableEq, Repr

namespace StreamManager

/-- `__init__`. -/
def init : StreamManager := ⟨[], []⟩

def subscribe (m : StreamManager) (r : Ref) (id : Nat) (accountId : Option Int) : StreamManager where
  queues := m.queues ++ [r]
  accounts := Dict.set id accountId m.accounts

def unsubscribe (m : StreamManager) (r : Ref) (id : Nat) : StreamManager where
  queues := if r ∈ m.queues then m.queues.erase r else m.queues
  accounts := Dict.erase id m.accounts

/-- `self._accounts.get(id(q)) == account_id`; a missing key reads as `None`. -/
def serves (m : StreamManager) (q : Queue Payload) (accountId : Option Int) : Bool :=
  (Dict.get q.id m.accounts).getD none == accountId

/-- One turn of the first loop of `broadcast`, on the heap and on `dead`. -/
def offer (m : StreamManager) (accountId : Option Int) (payload : Payload)
    (acc : Table Ref (Queue Payload) × List Ref) (r : Ref) : Table Ref (Queue Payload) × List Ref :=
  match acc.1 r with
  | none => acc
  | some q =>
      if m.serves q accountId then
        if q.items.length < maxsize then
          (Function.update acc.1 r (some { q with items := q.items ++ [payload] }), acc.2)
        else (acc.1, acc.2 ++ [r])  -- QueueFull
      else acc

/-- One turn of the second loop. -/
def drop (heap : Table Ref (Queue Payload)) (m : StreamManager) (r : Ref) : StreamManager :=
  match heap r with
  | none => m
  | some q => m.unsubscribe r q.id

def broadcast (dumps : Data → Payload) (m : StreamManager) (heap : Table Ref (Queue Payload)) (data : Data)
    (accountId : Option Int) : StreamManager × Table Ref (Queue Payload) :=
  if m.queues.isEmpty then (m, heap)
  else
    let (heap, dead) := m.queues.foldl (m.offer accountId (dumps data)) (heap, [])
    (dead.foldl (drop heap) m, heap)

end StreamManager

/-! ### What a broadcast does -/

namespace StreamManager

variable {m : StreamManager} {heap : Table Ref (Queue Payload)} {accountId : Option Int} {payload : Payload}

/-- The queue after a broadcast that it is served. -/
def accept (m : StreamManager) (accountId : Option Int) (payload : Payload) (q : Queue Payload) : Queue Payload :=
  if m.serves q accountId && decide (q.items.length < maxsize) then { q with items := q.items ++ [payload] } else q

/-- The broadcast finds the queue full. -/
def overflows (m : StreamManager) (accountId : Option Int) (q : Queue Payload) : Bool :=
  m.serves q accountId && decide (maxsize ≤ q.items.length)

@[simp] theorem accept_id (q : Queue Payload) : (m.accept accountId payload q).id = q.id := by
  unfold accept
  split <;> rfl

theorem offer_some {acc : Table Ref (Queue Payload) × List Ref} {r : Ref} {q : Queue Payload} (h : acc.1 r = some q) :
    m.offer accountId payload acc r =
      (Function.update acc.1 r (some (m.accept accountId payload q)),
        acc.2 ++ if m.overflows accountId q then [r] else []) := by
  have hsame : Function.update acc.1 r (some q) = acc.1 := by rw [← h, Function.update_eq_self]
  unfold offer accept overflows
  rw [h]
  by_cases hserves : m.serves q accountId = true
  · by_cases hroom : q.items.length < maxsize
    · simp [hserves, hroom]
    · simp [hserves, hroom, hsame, Nat.le_of_not_lt hroom]
  · simp [hserves, hsame]

theorem offer_none {acc : Table Ref (Queue Payload) × List Ref} {r : Ref} (h : acc.1 r = none) :
    m.offer accountId payload acc r = acc := by
  unfold offer
  rw [h]

/-- **The first loop.** Each queue in the list is offered the payload; `dead` gets those that overflow. -/
theorem foldl_offer {l : List Ref} (hnodup : l.Nodup) (heap : Table Ref (Queue Payload)) (dead : List Ref) :
    l.foldl (m.offer accountId payload) (heap, dead) =
      (fun r => if r ∈ l then (heap r).map (m.accept accountId payload) else heap r,
        dead ++ l.filter fun r => (heap r).any (m.overflows accountId)) := by
  induction l generalizing heap dead with
  | nil => simp
  | cons r l ih =>
      obtain ⟨hnot, hnodup⟩ := List.nodup_cons.mp hnodup
      rw [List.foldl_cons]
      cases hq : heap r with
      | none =>
          rw [offer_none hq, ih hnodup heap dead]
          refine Prod.ext (funext fun r' => ?_) (by simp [hq])
          by_cases hr : r' = r
          · subst hr
            simp [hnot, hq]
          · simp [hr]
      | some q =>
          rw [offer_some hq, ih hnodup]
          -- the other queues of the list are as they were
          have hother : ∀ r' ∈ l, Function.update heap r (some (m.accept accountId payload q)) r' = heap r' :=
            fun r' hr' => Function.update_of_ne (fun heq : r' = r => hnot (heq ▸ hr')) _ _
          refine Prod.ext (funext fun r' => ?_) ?_
          · by_cases hr : r' = r
            · subst hr
              simp [hnot, hq]
            · simp [hr]
          · have hfilter : (l.filter fun r' => (Function.update heap r (some (m.accept accountId payload q)) r').any
                (m.overflows accountId)) = l.filter fun r' => (heap r').any (m.overflows accountId) :=
              List.filter_congr fun r' hr' => by rw [hother r' hr']
            show (dead ++ _) ++ List.filter _ l = _
            rw [hfilter, List.filter_cons, hq, Option.any_some]
            by_cases hover : m.overflows accountId q = true
            · simp [hover]
            · simp [hover]

/-- What it means that the queues `gone` were unsubscribed. -/
structure Removed (heap : Table Ref (Queue Payload)) (gone : List Ref) (m m' : StreamManager) : Prop where
  queues   : ∀ r, r ∈ m'.queues ↔ r ∈ m.queues ∧ r ∉ gone
  accounts : ∀ e, e ∈ m'.accounts ↔ e ∈ m.accounts ∧ ∀ r ∈ gone, ∀ q, heap r = some q → q.id ≠ e.1
  nodup    : m'.queues.Nodup
  keys     : (m'.accounts.map Prod.fst).Nodup

theorem Removed.refl (heap : Table Ref (Queue Payload)) (hnodup : m.queues.Nodup)
    (hkeys : (m.accounts.map Prod.fst).Nodup) : Removed heap [] m m :=
  ⟨fun r => by simp, fun e => by simp, hnodup, hkeys⟩

theorem removed_unsubscribe {r : Ref} {q : Queue Payload} (hq : heap r = some q) (hnodup : m.queues.Nodup)
    (hkeys : (m.accounts.map Prod.fst).Nodup) : Removed heap [r] m (m.unsubscribe r q.id) where
  queues r' := by
    show r' ∈ (if r ∈ m.queues then m.queues.erase r else m.queues) ↔ _
    split
    · rw [hnodup.mem_erase_iff, List.mem_singleton]
      exact and_comm
    · rename_i hnot
      refine ⟨fun h => ⟨h, fun heq => hnot (List.mem_singleton.mp heq ▸ h)⟩, And.left⟩
  accounts e := by
    show e ∈ m.accounts.filter _ ↔ _
    rw [List.mem_filter, decide_eq_true_eq]
    refine and_congr_right fun _ => ⟨fun hne r' hr' q' hq' => ?_, fun h => ?_⟩
    · rw [List.mem_singleton.mp hr', hq] at hq'
      exact Option.some.inj hq' ▸ Ne.symm hne
    · exact Ne.symm (h r (List.mem_singleton_self r) q hq)
  nodup := by
    show (if r ∈ m.queues then m.queues.erase r else m.queues).Nodup
    split
    · exact hnodup.erase r
    · exact hnodup
  keys := hkeys.sublist (List.filter_sublist.map Prod.fst)

theorem Removed.trans {gone gone' : List Ref} {m₁ m₂ m₃ : StreamManager} (h : Removed heap gone m₁ m₂)
    (h' : Removed heap gone' m₂ m₃) : Removed heap (gone ++ gone') m₁ m₃ where
  queues r := by
    rw [h'.queues, h.queues, List.mem_append, not_or, and_assoc]
  accounts e := by
    rw [h'.accounts, h.accounts, and_assoc]
    refine and_congr_right fun _ => ⟨fun hboth r hr => ?_, fun hall => ⟨fun r hr => ?_, fun r hr => ?_⟩⟩
    · exact (List.mem_append.mp hr).elim (hboth.1 r) (hboth.2 r)
    · exact hall r (List.mem_append_left _ hr)
    · exact hall r (List.mem_append_right _ hr)
  nodup := h'.nodup
  keys := h'.keys

/-- **The second loop.** -/
theorem removed_foldl_drop (heap : Table Ref (Queue Payload)) (dead : List Ref) (hdead : ∀ r ∈ dead, (heap r).isSome = true)
    (hnodup : m.queues.Nodup) (hkeys : (m.accounts.map Prod.fst).Nodup) :
    Removed heap dead m (dead.foldl (drop heap) m) := by
  induction dead generalizing m with
  | nil => exact .refl heap hnodup hkeys
  | cons r dead ih =>
      obtain ⟨q, hq⟩ := Option.isSome_iff_exists.mp (hdead r List.mem_cons_self)
      have hfirst : Removed heap [r] m (drop heap m r) := by
        rw [show drop heap m r = m.unsubscribe r q.id by rw [drop, hq]]
        exact removed_unsubscribe hq hnodup hkeys
      exact hfirst.trans (ih (fun r' hr' => hdead r' (List.mem_cons_of_mem r hr')) hfirst.nodup hfirst.keys)

/-- The queues that a broadcast drops. -/
def dead (m : StreamManager) (heap : Table Ref (Queue Payload)) (accountId : Option Int) : List Ref :=
  m.queues.filter fun r => (heap r).any (m.overflows accountId)

/-- **What `broadcast` does**: every queue of the manager takes the payload if it can, and the ones that cannot
    are unsubscribed. -/
theorem broadcast_spec (dumps : Data → Payload) (heap : Table Ref (Queue Payload)) (data : Data)
    (accountId : Option Int) (hnodup : m.queues.Nodup)
    (hkeys : (m.accounts.map Prod.fst).Nodup) :
    (m.broadcast dumps heap data accountId).2 =
        (fun r => if r ∈ m.queues then (heap r).map (m.accept accountId (dumps data)) else heap r) ∧
      Removed heap (m.dead heap accountId) m (m.broadcast dumps heap data accountId).1 := by
  unfold broadcast
  split
  · rename_i hempty
    rw [List.isEmpty_iff] at hempty
    refine ⟨funext fun r => ?_, ?_⟩
    · rw [hempty, if_neg List.not_mem_nil]
    · rw [dead, hempty]
      exact .refl heap hnodup hkeys
  · rw [foldl_offer hnodup heap [], List.nil_append]
    refine ⟨rfl, ?_⟩
    -- the second loop reads the ids on the heap that the first one has left
    have hold : ∀ r ∈ m.dead heap accountId, (heap r).isSome = true := fun r hr =>
      Option.isSome_of_any (List.mem_filter.mp hr).2
    have hdrop := removed_foldl_drop (m := m)
      (fun r => if r ∈ m.queues then (heap r).map (m.accept accountId (dumps data)) else heap r)
      (m.dead heap accountId) (fun r hr => by
        obtain ⟨q, hq⟩ := Option.isSome_iff_exists.mp (hold r hr)
        simp only [hq, Option.map_some]
        split <;> rfl) hnodup hkeys
    refine ⟨hdrop.queues, fun e => (hdrop.accounts e).trans (and_congr_right fun _ => ?_), hdrop.nodup, hdrop.keys⟩
    refine forall₂_congr fun r hr => ?_
    obtain ⟨q, hq⟩ := Option.isSome_iff_exists.mp (hold r hr)
    simp only [hq, (List.mem_filter.mp hr).1, if_true, Option.map_some, Option.some.injEq, forall_eq', accept_id]

end StreamManager

/-! ## Who talks to which manager -/

inductive Feed
  | streamManager | maxStreamManager
deriving DecidableEq, Repr

/-- The session that an event comes from. -/
structure Origin where
  platform  : Platform
  accountId : Int
deriving DecidableEq, Repr

/-- `request.state`, as the middleware has left it. -/
structure Request where
  platform  : Platform
  accountId : Option Int
deriving DecidableEq, Repr

/-- The manager and the account of the `broadcast` of an event: `register_handlers` and `MaxIngest._broadcast`. -/
def Origin.address (newMode : Bool) (o : Origin) : Feed × Option Int :=
  match o.platform with
  | .telegram => (.streamManager, if newMode then some o.accountId else none)
  | .max => if newMode then (.streamManager, some o.accountId) else (.maxStreamManager, none)

/-- The manager and the account that `stream_messages` subscribes to. -/
def Request.address (newMode : Bool) (r : Request) : Feed × Option Int :=
  match r.platform with
  | .telegram => (.streamManager, if newMode then r.accountId else none)
  | .max => (if newMode then .streamManager else .maxStreamManager, if newMode then r.accountId else none)

/-! ## The system -/

inductive Event (Payload : Type*)
  | message (data : Payload)
  | ping
deriving DecidableEq, Repr

/-- An `event_generator`. -/
structure Generator (Payload : Type*) where
  request : Request
  running : Bool
  yielded : List (Event Payload)
deriving DecidableEq, Repr

structure State (Payload : Type*) where
  managers : Feed → StreamManager
  heap     : Table Ref (Queue Payload)
  /-- By the queue that each one has subscribed. -/
  gens     : Table Ref (Generator Payload)
  next     : Ref

def State.init : State Payload := ⟨fun _ => .init, fun _ => none, fun _ => none, 0⟩

/-- The object is still referred to, so its address is taken. -/
def State.holds (s : State Payload) (r : Ref) : Bool :=
  (s.gens r).any Generator.running || [Feed.streamManager, .maxStreamManager].any fun f => r ∈ (s.managers f).queues

def State.taken (s : State Payload) (id : Nat) : Bool :=
  (List.range s.next).any fun r => s.holds r && (s.heap r).any fun q => q.id == id

inductive Action (Data : Type*)
  /-- A generator starts; its queue gets the address `id`. -/
  | subscribe (request : Request) (id : Nat)
  | emit (origin : Origin) (data : Data)
  /-- `queue.get()` returns. -/
  | message (r : Ref)
  /-- `wait_for` gives up. -/
  | timeout (r : Ref)
  /-- The client is gone. -/
  | cancel (r : Ref)
deriving DecidableEq, Repr

def step (newMode : Bool) (dumps : Data → Payload) (s : State Payload) : Action Data → Option (State Payload)
  | .subscribe request id =>
      if s.taken id then none
      else
        let (feed, accountId) := request.address newMode
        some
          { managers := Function.update s.managers feed ((s.managers feed).subscribe s.next id accountId)
            heap := Function.update s.heap s.next (some ⟨id, []⟩)
            gens := Function.update s.gens s.next (some ⟨request, true, []⟩)
            next := s.next + 1 }
  | .emit origin data =>
      let (feed, accountId) := origin.address newMode
      let (m, heap) := (s.managers feed).broadcast dumps s.heap data accountId
      some { s with managers := Function.update s.managers feed m, heap := heap }
  | .message r =>
      match s.gens r, s.heap r with
      | some g, some q =>
          match g.running, q.items with
          | true, data :: items =>
              some
                { s with
                  heap := Function.update s.heap r (some { q with items := items })
                  gens := Function.update s.gens r (some { g with yielded := g.yielded ++ [.message data] }) }
          | _, _ => none
      | _, _ => none
  | .timeout r =>
      match s.gens r with
      | some g =>
          if g.running then
            some { s with gens := Function.update s.gens r (some { g with yielded := g.yielded ++ [.ping] }) }
          else none
      | none => none
  | .cancel r =>
      match s.gens r, s.heap r with
      | some g, some q =>
          if g.running then
            let feed := (g.request.address newMode).1
            some
              { s with
                managers := Function.update s.managers feed ((s.managers feed).unsubscribe r q.id)
                gens := Function.update s.gens r (some { g with running := false }) }
          else none
      | _, _ => none

/-! ### What a step does -/

variable {newMode : Bool} {dumps : Data → Payload} {s t : State Payload} {r : Ref}

theorem step_subscribe {request : Request} {id : Nat}
    (h : step newMode dumps s (.subscribe request id) = some t) :
    s.taken id = false ∧
      t = { managers := Function.update s.managers (request.address newMode).1
              ((s.managers (request.address newMode).1).subscribe s.next id (request.address newMode).2)
            heap := Function.update s.heap s.next (some ⟨id, []⟩)
            gens := Function.update s.gens s.next (some ⟨request, true, []⟩)
            next := s.next + 1 } := by
  simp only [step] at h
  split at h
  · cases h
  · rename_i hfree
    exact ⟨Bool.eq_false_iff.mpr hfree, (Option.some.inj h).symm⟩

theorem step_emit (newMode : Bool) (dumps : Data → Payload) (s : State Payload) (origin : Origin) (data : Data) :
    step newMode dumps s (.emit origin data) =
      some
        { s with
          managers := Function.update s.managers (origin.address newMode).1
            ((s.managers (origin.address newMode).1).broadcast dumps s.heap data (origin.address newMode).2).1
          heap := ((s.managers (origin.address newMode).1).broadcast dumps s.heap data (origin.address newMode).2).2 } :=
  rfl

theorem step_message (h : step newMode dumps s (.message r) = some t) :
    ∃ g q data items, s.gens r = some g ∧ s.heap r = some q ∧ g.running = true ∧ q.items = data :: items ∧
      t = { s with
            heap := Function.update s.heap r (some { q with items := items })
            gens := Function.update s.gens r (some { g with yielded := g.yielded ++ [.message data] }) } := by
  simp only [step] at h
  split at h
  · rename_i g q hg hq
    split at h
    · rename_i data items hrun hitems
      exact ⟨g, q, data, items, hg, hq, hrun, hitems, (Option.some.inj h).symm⟩
    · cases h
  · cases h

theorem step_timeout (h : step newMode dumps s (.timeout r) = some t) :
    ∃ g, s.gens r = some g ∧ g.running = true ∧
      t = { s with gens := Function.update s.gens r (some { g with yielded := g.yielded ++ [.ping] }) } := by
  simp only [step] at h
  split at h
  · rename_i g hg
    split at h
    · rename_i hrun
      exact ⟨g, hg, hrun, (Option.some.inj h).symm⟩
    · cases h
  · cases h

theorem step_cancel (h : step newMode dumps s (.cancel r) = some t) :
    ∃ g q, s.gens r = some g ∧ s.heap r = some q ∧ g.running = true ∧
      t = { s with
            managers := Function.update s.managers (g.request.address newMode).1
              ((s.managers (g.request.address newMode).1).unsubscribe r q.id)
            gens := Function.update s.gens r (some { g with running := false }) } := by
  simp only [step] at h
  split at h
  · rename_i g q hg hq
    split at h
    · rename_i hrun
      exact ⟨g, q, hg, hq, hrun, (Option.some.inj h).symm⟩
    · cases h
  · cases h

end MyPerson.Stream
