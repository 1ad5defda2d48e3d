import MyPerson.Lib.Mailbox
import MyPerson.Stream.Manager

/-!
# `Stream.Delivery` — what a stream delivers

Seen from one generator, every run of the fan-out is a run of a bounded mailbox: events that are addressed to its
account are offered, nothing else is. So a stream yields the events of its own account that were emitted since
it subscribed, in order, without a gap and without a repetition; it is cut off when 100 of them wait. Addresses of
queues that are gone may come back, which changes nothing: the registry has an entry for the queues that are
subscribed and for no others.

## Contents
- `Ok`: the registry and the queues agree; kept by every step;
- `box`, `view`, `step_box`: a step is what the mailbox does;
- `stream_delivers`, `stream_isolated`, `stream_dropped`, `registry_exact`.
-/

namespace MyPerson.Stream

open Lib
open WriteLimits (Platform)

variable {Data Payload : Type*} {newMode : Bool} {dumps : Data → Payload} {s t : State Payload}

/-! ## The registry -/

/-- A generator runs with the queue `r`, at `id`, for what its request subscribed to. -/
def At (newMode : Bool) (heap : Table Ref (Queue Payload)) (gens : Table Ref (Generator Payload)) (r : Ref)
    (feed : Feed) (id : Nat) (accountId : Option Int) : Prop :=
  ∃ g q, gens r = some g ∧ heap r = some q ∧ g.running = true ∧ g.request.address newMode = (feed, accountId) ∧
    q.id = id

/-- The entries of a manager are those of its queues, and these belong to running generators. -/
structure Registered (newMode : Bool) (heap : Table Ref (Queue Payload)) (gens : Table Ref (Generator Payload))
    (feed : Feed) (m : StreamManager) : Prop where
  queued : ∀ r ∈ m.queues, ∃ id accountId, At newMode heap gens r feed id accountId ∧ (id, accountId) ∈ m.accounts
  owned  : ∀ e ∈ m.accounts, ∃ r ∈ m.queues, At newMode heap gens r feed e.1 e.2
  nodup  : m.queues.Nodup
  keys   : (m.accounts.map Prod.fst).Nodup

/-- The objects in use have different addresses. -/
def Apart (newMode : Bool) (heap : Table Ref (Queue Payload)) (gens : Table Ref (Generator Payload)) : Prop :=
  ∀ r r' feed feed' id accountId accountId', At newMode heap gens r feed id accountId →
    At newMode heap gens r' feed' id accountId' → r = r'

structure Ok (newMode : Bool) (s : State Payload) : Prop where
  registered : ∀ feed, Registered newMode s.heap s.gens feed (s.managers feed)
  apart      : Apart newMode s.heap s.gens
  made       : ∀ r, r < s.next ↔ (s.gens r).isSome = true
  queues     : ∀ r, (s.gens r).isSome = true → (s.heap r).isSome = true

section

variable {heap heap' : Table Ref (Queue Payload)} {gens gens' : Table Ref (Generator Payload)} {feed : Feed}
  {m m' : StreamManager} {r r' : Ref} {id id' : Nat} {accountId accountId' : Option Int}

theorem At.unique (h : At newMode heap gens r feed id accountId) {feed' : Feed}
    (h' : At newMode heap gens r feed' id' accountId') : feed = feed' ∧ id = id' ∧ accountId = accountId' := by
  obtain ⟨g, q, hg, hq, -, haddr, rfl⟩ := h
  obtain ⟨g', q', hg', hq', -, haddr', rfl⟩ := h'
  obtain rfl := Option.some.inj (hg.symm.trans hg')
  obtain rfl := Option.some.inj (hq.symm.trans hq')
  have heq := haddr.symm.trans haddr'
  exact ⟨congrArg Prod.fst heq, rfl, congrArg Prod.snd heq⟩

theorem Registered.mono (h : Registered newMode heap gens feed m)
    (hat : ∀ r ∈ m.queues, ∀ id accountId, At newMode heap gens r feed id accountId →
      At newMode heap' gens' r feed id accountId) : Registered newMode heap' gens' feed m where
  queued r hr :=
    have ⟨id, accountId, h', hmem⟩ := h.queued r hr
    ⟨id, accountId, hat r hr id accountId h', hmem⟩
  owned e he :=
    have ⟨r, hr, h'⟩ := h.owned e he
    ⟨r, hr, hat r hr e.1 e.2 h'⟩
  nodup := h.nodup
  keys := h.keys

/-- The dictionary gives a subscribed queue its account. -/
theorem Registered.serves (h : Registered newMode heap gens feed m) (hr : r ∈ m.queues)
    (hat : At newMode heap gens r feed id accountId) {q : Queue Payload} (hq : q.id = id) :
    m.serves q accountId' = (accountId == accountId') := by
  obtain ⟨id', account, hat', hmem⟩ := h.queued r hr
  obtain ⟨-, rfl, rfl⟩ := hat'.unique hat
  unfold StreamManager.serves
  rw [hq, Dict.get_of_mem h.keys hmem]
  rfl

/-- Queues of running generators are taken out together with their own entries. -/
theorem Registered.removed (h : Registered newMode heap gens feed m) (hapart : Apart newMode heap gens)
    {gone : List Ref} (hrem : StreamManager.Removed heap gone m m')
    (hgone : ∀ r ∈ gone, ∃ feed id accountId, At newMode heap gens r feed id accountId) :
    Registered newMode heap gens feed m' where
  queued r hr := by
    obtain ⟨hr, hnot⟩ := (hrem.queues r).mp hr
    obtain ⟨id, accountId, hat, hmem⟩ := h.queued r hr
    refine ⟨id, accountId, hat, (hrem.accounts _).mpr ⟨hmem, fun r' hr' q hq heq => hnot ?_⟩⟩
    obtain ⟨feed', id', account', hat'⟩ := hgone r' hr'
    obtain ⟨g', q', hg', hq', hrun', haddr', hid'⟩ := hat'
    obtain rfl := Option.some.inj (hq'.symm.trans hq)
    exact hapart r r' _ _ _ _ _ hat ⟨g', q', hg', hq', hrun', haddr', heq⟩ ▸ hr'
  owned e he := by
    obtain ⟨he, hkept⟩ := (hrem.accounts e).mp he
    obtain ⟨r, hr, hat⟩ := h.owned e he
    refine ⟨r, (hrem.queues r).mpr ⟨hr, fun hmem => ?_⟩, hat⟩
    obtain ⟨g, q, -, hq, -, -, hid⟩ := hat
    exact hkept r hmem q hq hid
  nodup := hrem.nodup
  keys := hrem.keys

/-- A new queue at an address that no object in use has. -/
theorem Registered.subscribe (h : Registered newMode heap gens feed m)
    (hnew : At newMode heap gens r feed id accountId) (hnot : r ∉ m.queues)
    (hfree : ∀ r' ∈ m.queues, ∀ accountId', ¬ At newMode heap gens r' feed id accountId') :
    Registered newMode heap gens feed (m.subscribe r id accountId) := by
  have hkey : id ∉ m.accounts.map Prod.fst := by
    intro hmem
    obtain ⟨e, he, rfl⟩ := List.mem_map.mp hmem
    obtain ⟨r', hr', hat⟩ := h.owned e he
    exact hfree r' hr' e.2 hat
  have haccounts : (m.subscribe r id accountId).accounts = m.accounts ++ [(id, accountId)] :=
    Dict.set_of_not_mem hkey
  refine ⟨fun r' hr' => ?_, fun e he => ?_, ?_, ?_⟩
  · rw [haccounts]
    rcases List.mem_append.mp hr' with hr' | hr'
    · obtain ⟨id', account', hat, hmem⟩ := h.queued r' hr'
      exact ⟨id', account', hat, List.mem_append_left _ hmem⟩
    · rw [List.mem_singleton.mp hr']
      exact ⟨id, accountId, hnew, List.mem_append_right _ (List.mem_singleton_self _)⟩
  · rw [haccounts] at he
    rcases List.mem_append.mp he with he | he
    · obtain ⟨r', hr', hat⟩ := h.owned e he
      exact ⟨r', List.mem_append_left _ hr', hat⟩
    · rw [List.mem_singleton.mp he]
      exact ⟨r, List.mem_append_right _ (List.mem_singleton_self r), hnew⟩
  · exact List.nodup_append.mpr ⟨h.nodup, List.nodup_singleton r, fun a ha b hb heq =>
      hnot (List.mem_singleton.mp hb ▸ heq ▸ ha)⟩
  · rw [haccounts, List.map_append]
    refine List.nodup_append.mpr ⟨h.keys, List.nodup_singleton id, fun a ha b hb heq => hkey ?_⟩
    have hb : b = id := List.mem_singleton.mp hb
    exact hb ▸ heq ▸ ha

/-- The same generators, up to what they have yielded, and the same queues, up to what they hold. -/
structure Alike (heap : Table Ref (Queue Payload)) (gens : Table Ref (Generator Payload))
    (heap' : Table Ref (Queue Payload)) (gens' : Table Ref (Generator Payload)) : Prop where
  gens : ∀ r, (gens' r).map (fun g => (g.request, g.running)) = (gens r).map fun g => (g.request, g.running)
  heap : ∀ r, (heap' r).map Queue.id = (heap r).map Queue.id

theorem at_iff : At newMode heap gens r feed id accountId ↔
    ∃ request : Request, (gens r).map (fun g => (g.request, g.running)) = some (request, true) ∧
      (heap r).map Queue.id = some id ∧ request.address newMode = (feed, accountId) := by
  constructor
  · rintro ⟨g, q, hg, hq, hrun, haddr, rfl⟩
    exact ⟨g.request, by rw [hg, ← hrun]; rfl, by rw [hq]; rfl, haddr⟩
  · rintro ⟨request, hg, hq, haddr⟩
    obtain ⟨g, hrow, hcore⟩ := Option.map_eq_some_iff.mp hg
    obtain ⟨q, hq, hid⟩ := Option.map_eq_some_iff.mp hq
    have hrequest : g.request = request := congrArg Prod.fst hcore
    exact ⟨g, q, hrow, hq, congrArg Prod.snd hcore, hrequest ▸ haddr, hid⟩

theorem Alike.at_iff (h : Alike heap gens heap' gens') :
    At newMode heap' gens' r feed id accountId ↔ At newMode heap gens r feed id accountId := by
  rw [Stream.at_iff, Stream.at_iff, h.gens, h.heap]

theorem Alike.apart (h : Alike heap gens heap' gens') (hapart : Apart newMode heap gens) :
    Apart newMode heap' gens' :=
  fun r r' feed feed' id a a' hat hat' => hapart r r' feed feed' id a a' (h.at_iff.mp hat) (h.at_iff.mp hat')

theorem Alike.registered (h : Alike heap gens heap' gens') (hreg : Registered newMode heap gens feed m) :
    Registered newMode heap' gens' feed m :=
  hreg.mono fun _ _ _ _ => h.at_iff.mpr

theorem Alike.isSome_gens (h : Alike heap gens heap' gens') (r : Ref) : (gens' r).isSome = (gens r).isSome := by
  have hmap := congrArg Option.isSome (h.gens r)
  rwa [Option.isSome_map, Option.isSome_map] at hmap

theorem Alike.isSome_heap (h : Alike heap gens heap' gens') (r : Ref) : (heap' r).isSome = (heap r).isSome := by
  have hmap := congrArg Option.isSome (h.heap r)
  rwa [Option.isSome_map, Option.isSome_map] at hmap

end

/-! ## The steps -/

theorem ok_init : Ok newMode (State.init : State Payload) where
  registered _ :=
    { queued := fun _ h => absurd h List.not_mem_nil
      owned := fun _ h => absurd h List.not_mem_nil
      nodup := List.nodup_nil
      keys := List.nodup_nil }
  apart := by
    rintro _ _ _ _ _ _ _ ⟨_, _, hg, -⟩
    cases hg
  made r := ⟨fun h => absurd h (Nat.not_lt_zero r), fun h => by cases h⟩
  queues _ h := by cases h

/-- A step that leaves the managers alone. -/
theorem Ok.alike (h : Ok newMode s) (hsame : Alike s.heap s.gens t.heap t.gens) (hmanagers : t.managers = s.managers)
    (hnext : t.next = s.next) : Ok newMode t where
  registered feed := hmanagers ▸ hsame.registered (h.registered feed)
  apart := hsame.apart h.apart
  made r := by rw [hnext, hsame.isSome_gens, h.made]
  queues r hr := by
    rw [hsame.isSome_heap]
    exact h.queues r (hsame.isSome_gens r ▸ hr)

theorem alike_update_gens {r : Ref} {g : Generator Payload} (hg : s.gens r = some g) (event : Event Payload) :
    Alike s.heap s.gens s.heap
      (Function.update s.gens r (some { g with yielded := g.yielded ++ [event] })) where
  gens r' := by
    by_cases hr : r' = r
    · subst hr
      simp [hg]
    · simp [hr]
  heap _ := rfl

theorem alike_update_heap {r : Ref} {q : Queue Payload} (hq : s.heap r = some q) (items : List Payload) :
    Alike s.heap s.gens (Function.update s.heap r (some { q with items := items })) s.gens where
  gens _ := rfl
  heap r' := by
    by_cases hr : r' = r
    · subst hr
      simp [hq]
    · simp [hr]

theorem Alike.trans {heap heap' heap'' : Table Ref (Queue Payload)} {gens gens' gens'' : Table Ref (Generator Payload)}
    (h : Alike heap gens heap' gens') (h' : Alike heap' gens' heap'' gens'') : Alike heap gens heap'' gens'' :=
  ⟨fun r => (h'.gens r).trans (h.gens r), fun r => (h'.heap r).trans (h.heap r)⟩

theorem alike_accept (m : StreamManager) (accountId : Option Int) (payload : Payload)
    (heap : Table Ref (Queue Payload)) (gens : Table Ref (Generator Payload)) (l : List Ref) :
    Alike heap gens (fun r => if r ∈ l then (heap r).map (m.accept accountId payload) else heap r) gens where
  gens _ := rfl
  heap r := by
    show Option.map Queue.id (if r ∈ l then _ else _) = _
    split
    · rw [Option.map_map]
      exact congrArg (fun f => Option.map f (heap r)) (funext fun q => StreamManager.accept_id q)
    · rfl

/-- An address that is not taken is not the one of an object in use. -/
theorem Ok.not_at (h : Ok newMode s) {id : Nat} (hfree : s.taken id = false) (r : Ref) (feed : Feed)
    (accountId : Option Int) : ¬ At newMode s.heap s.gens r feed id accountId := by
  rintro ⟨g, q, hg, hq, hrun, -, hid⟩
  have hlt : r < s.next := (h.made r).mpr (by rw [hg]; rfl)
  have hnone := List.any_eq_false.mp hfree r (List.mem_range.mpr hlt)
  apply hnone
  simp [State.holds, hg, hq, hrun, hid]

theorem Ok.subscribe (h : Ok newMode s) {request : Request} {id : Nat}
    (hstep : step newMode dumps s (.subscribe request id) = some t) : Ok newMode t := by
  obtain ⟨hfree, rfl⟩ := step_subscribe hstep
  have hnone : s.gens s.next = none :=
    Option.not_isSome_iff_eq_none.mp fun hsome => Nat.lt_irrefl _ ((h.made s.next).mpr hsome)
  have hnew : At newMode (Function.update s.heap s.next (some ⟨id, []⟩))
      (Function.update s.gens s.next (some ⟨request, true, []⟩)) s.next (request.address newMode).1 id
      (request.address newMode).2 :=
    ⟨_, _, Function.update_self .., Function.update_self .., rfl, rfl, rfl⟩
  have hold : ∀ r feed id' a, r ≠ s.next → (At newMode (Function.update s.heap s.next (some ⟨id, []⟩))
      (Function.update s.gens s.next (some ⟨request, true, []⟩)) r feed id' a ↔ At newMode s.heap s.gens r feed id' a) := by
    intro r feed id' a hr
    rw [at_iff, at_iff, Function.update_of_ne hr, Function.update_of_ne hr]
  have hne : ∀ r feed id' a, At newMode s.heap s.gens r feed id' a → r ≠ s.next := by
    rintro r feed id' a ⟨g, q, hg, -⟩ rfl
    rw [hnone] at hg
    cases hg
  have hqueue : ∀ feed, ∀ r ∈ (s.managers feed).queues, r ≠ s.next := fun feed r hr =>
    have ⟨id', a, hat, _⟩ := (h.registered feed).queued r hr
    hne r feed id' a hat
  have hmono : ∀ feed, Registered newMode (Function.update s.heap s.next (some ⟨id, []⟩))
      (Function.update s.gens s.next (some ⟨request, true, []⟩)) feed (s.managers feed) := fun feed =>
    (h.registered feed).mono fun r hr id' a hat => (hold r feed id' a (hqueue feed r hr)).mpr hat
  refine ⟨fun feed => ?_, ?_, ?_, ?_⟩
  · by_cases hfeed : feed = (request.address newMode).1
    · subst hfeed
      simp only [Function.update_self]
      refine (hmono _).subscribe hnew (fun hmem => hqueue _ _ hmem rfl) fun r hr a hat => ?_
      exact h.not_at hfree r _ a ((hold r _ id a (hqueue _ r hr)).mp hat)
    · simp only [Function.update_of_ne hfeed]
      exact hmono feed
  · intro r r' feed feed' id' a a' hat hat'
    by_cases hr : r = s.next
    · by_cases hr' : r' = s.next
      · rw [hr, hr']
      · subst hr
        obtain ⟨-, rfl, -⟩ := hat.unique hnew
        exact absurd ((hold r' feed' _ a' hr').mp hat') (h.not_at hfree r' feed' a')
    · by_cases hr' : r' = s.next
      · subst hr'
        obtain ⟨-, rfl, -⟩ := hat'.unique hnew
        exact absurd ((hold r feed _ a hr).mp hat) (h.not_at hfree r feed a)
      · exact h.apart r r' feed feed' id' a a' ((hold r feed id' a hr).mp hat) ((hold r' feed' id' a' hr').mp hat')
  · intro r
    show r < s.next + 1 ↔ _
    by_cases hr : r = s.next
    · subst hr
      simp
    · simp only [Function.update_of_ne hr, ← h.made]
      exact Nat.lt_succ_iff_lt_or_eq.trans (or_iff_left hr)
  · intro r hsome
    by_cases hr : r = s.next
    · subst hr
      simp
    · simp only [Function.update_of_ne hr] at hsome ⊢
      exact h.queues r hsome

theorem Ok.emit (h : Ok newMode s) {origin : Origin} {data : Data}
    (hstep : step newMode dumps s (.emit origin data) = some t) : Ok newMode t := by
  obtain rfl := Option.some.inj ((step_emit ..).symm.trans hstep)
  have hreg := h.registered (origin.address newMode).1
  obtain ⟨hheap, hrem⟩ := StreamManager.broadcast_spec dumps s.heap data (origin.address newMode).2
    hreg.nodup hreg.keys
  have hsame : Alike s.heap s.gens
      ((s.managers (origin.address newMode).1).broadcast dumps s.heap data (origin.address newMode).2).2 s.gens :=
    hheap ▸ alike_accept _ _ _ _ _ _
  refine ⟨fun feed => ?_, hsame.apart h.apart, h.made, fun r hr => ?_⟩
  · by_cases hfeed : feed = (origin.address newMode).1
    · subst hfeed
      simp only [Function.update_self]
      refine hsame.registered (hreg.removed h.apart hrem fun r hr => ?_)
      obtain ⟨id, a, hat, -⟩ := hreg.queued r (List.mem_filter.mp hr).1
      exact ⟨_, id, a, hat⟩
    · simp only [Function.update_of_ne hfeed]
      exact hsame.registered (h.registered feed)
  · exact (hsame.isSome_heap r).trans (h.queues r hr)

theorem Ok.cancel (h : Ok newMode s) {r : Ref} (hstep : step newMode dumps s (.cancel r) = some t) :
    Ok newMode t := by
  obtain ⟨g, q, hg, hq, hrun, rfl⟩ := step_cancel hstep
  have hat : At newMode s.heap s.gens r (g.request.address newMode).1 q.id (g.request.address newMode).2 :=
    ⟨g, q, hg, hq, hrun, rfl, rfl⟩
  -- the other generators are as they were
  have hold : ∀ r' feed id a, r' ≠ r → (At newMode s.heap
      (Function.update s.gens r (some { g with running := false })) r' feed id a ↔ At newMode s.heap s.gens r' feed id a) := by
    intro r' feed id a hr
    rw [at_iff, at_iff, Function.update_of_ne hr]
  have hgone : ∀ r' feed id a, At newMode s.heap
      (Function.update s.gens r (some { g with running := false })) r' feed id a → r' ≠ r := by
    rintro r' feed id a ⟨g', q', hg', -, hrun', -⟩ rfl
    rw [Function.update_self] at hg'
    obtain rfl := Option.some.inj hg'
    cases hrun'
  refine ⟨fun feed => ?_, ?_, ?_, fun r' hr' => ?_⟩
  · by_cases hfeed : feed = (g.request.address newMode).1
    · subst hfeed
      simp only [Function.update_self]
      have hreg := h.registered (g.request.address newMode).1
      have hrem := StreamManager.removed_unsubscribe (m := s.managers (g.request.address newMode).1) hq hreg.nodup hreg.keys
      refine (hreg.removed h.apart hrem fun r' hr' => ?_).mono fun r' hr' id a hat' => ?_
      · rw [List.mem_singleton.mp hr']
        exact ⟨_, _, _, hat⟩
      · refine (hold r' _ id a fun heq => ?_).mpr hat'
        exact ((hrem.queues r').mp hr').2 (List.mem_singleton.mpr heq)
    · simp only [Function.update_of_ne hfeed]
      refine (h.registered feed).mono fun r' hr' id a hat' => (hold r' feed id a fun heq => ?_).mpr hat'
      subst heq
      exact hfeed (hat'.unique hat).1
  · intro r₁ r₂ feed feed' id a a' hat₁ hat₂
    exact h.apart r₁ r₂ feed feed' id a a' ((hold r₁ _ _ _ (hgone _ _ _ _ hat₁)).mp hat₁)
      ((hold r₂ _ _ _ (hgone _ _ _ _ hat₂)).mp hat₂)
  · intro r'
    by_cases hr : r' = r
    · subst hr
      simp [h.made, hg]
    · simp only [Function.update_of_ne hr]
      exact h.made r'
  · by_cases hr : r' = r
    · subst hr
      exact h.queues r' (by rw [hg]; rfl)
    · simp only [Function.update_of_ne hr] at hr'
      exact h.queues r' hr'

/-- **Every step keeps the registry in order.** -/
theorem Ok.step (h : Ok newMode s) {a : Action Data} (hstep : step newMode dumps s a = some t) : Ok newMode t := by
  cases a with
  | subscribe request id => exact h.subscribe hstep
  | emit origin data => exact h.emit hstep
  | message r =>
      obtain ⟨g, q, data, items, hg, hq, -, -, rfl⟩ := step_message hstep
      exact h.alike ((alike_update_heap hq items).trans
        (alike_update_gens (s := { s with heap := Function.update s.heap r (some { q with items := items }) }) hg _)) rfl rfl
  | timeout r =>
      obtain ⟨g, hg, -, rfl⟩ := step_timeout hstep
      exact h.alike (alike_update_gens hg .ping) rfl rfl
  | cancel r => exact h.cancel hstep

theorem ok_run (h : Run (Stream.step newMode dumps) Always State.init s) : Ok newMode s :=
  h.invariant (fun _ _ _ hok _ hstep => hok.step hstep) ok_init

/-! ## A generator is a mailbox -/

/-- What a stream has yielded besides pings. -/
def Generator.messages (g : Generator Payload) : List Payload :=
  g.yielded.filterMap fun
    | .message data => some data
    | .ping => none

/-- The mailbox of the generator `g` with the queue `q`. -/
def box (newMode : Bool) (s : State Payload) (r : Ref) (g : Generator Payload) (q : Queue Payload) : Mailbox Payload where
  isOpen := decide (r ∈ (s.managers (g.request.address newMode).1).queues)
  pending := q.items
  taken := g.messages

/-- What an action is to the mailbox of the generator `r`, if anything. -/
def view (newMode : Bool) (dumps : Data → Payload) (r : Ref) (request : Request) : Action Data → Option (Mailbox.Act Payload)
  | .emit origin data => if origin.address newMode = request.address newMode then some (.offer (dumps data)) else none
  | .message r' => if r' = r then some .take else none
  | .cancel r' => if r' = r then some .close else none
  | _ => none

/-- The mailbox after an action. -/
def seenBy (m : Mailbox Payload) : Option (Mailbox.Act Payload) → Mailbox Payload
  | none => m
  | some act => m.step maxsize act

section

variable {r : Ref} {g : Generator Payload} {q : Queue Payload}

/-- A queue that is subscribed somewhere is subscribed where its request belongs. -/
theorem Ok.feed_of_queued (hok : Ok newMode s) (hg : s.gens r = some g) {feed : Feed}
    (hr : r ∈ (s.managers feed).queues) : (g.request.address newMode).1 = feed := by
  obtain ⟨id, a, ⟨g', q', hg', -, -, haddr, -⟩, -⟩ := (hok.registered feed).queued r hr
  obtain rfl := Option.some.inj (hg.symm.trans hg')
  exact congrArg Prod.fst haddr

theorem Ok.serves (hok : Ok newMode s) (hg : s.gens r = some g) (hq : s.heap r = some q)
    (hr : r ∈ (s.managers (g.request.address newMode).1).queues) (accountId : Option Int) :
    (s.managers (g.request.address newMode).1).serves q accountId = ((g.request.address newMode).2 == accountId) := by
  obtain ⟨id, a, hat, -⟩ := (hok.registered _).queued r hr
  have ⟨g', q', hg', hq', _, haddr, hid⟩ := hat
  obtain rfl := Option.some.inj (hg.symm.trans hg')
  obtain rfl := Option.some.inj (hq.symm.trans hq')
  rw [(hok.registered _).serves hr hat hid, haddr]

/-- An event, seen from one generator. -/
theorem Ok.emit_box (hok : Ok newMode s) {origin : Origin} {data : Data}
    (hstep : Stream.step newMode dumps s (.emit origin data) = some t) (hg : s.gens r = some g) (hq : s.heap r = some q) :
    ∃ q', t.gens r = some g ∧ t.heap r = some q' ∧
      box newMode t r g q' = seenBy (box newMode s r g q) (view newMode dumps r g.request (.emit origin data)) := by
  obtain rfl := Option.some.inj ((step_emit ..).symm.trans hstep)
  have hreg := hok.registered (origin.address newMode).1
  obtain ⟨hheap, hrem⟩ := StreamManager.broadcast_spec dumps s.heap data (origin.address newMode).2
    hreg.nodup hreg.keys
  generalize hb : (s.managers (origin.address newMode).1).broadcast dumps s.heap data (origin.address newMode).2 = b
    at hheap hrem
  by_cases hmem : r ∈ (s.managers (origin.address newMode).1).queues
  · -- the manager of the event is the one of the generator
    have hfeed : (g.request.address newMode).1 = (origin.address newMode).1 := hok.feed_of_queued hg hmem
    have hserves := hok.serves hg hq (hfeed ▸ hmem) (origin.address newMode).2
    rw [hfeed] at hserves
    refine ⟨(s.managers (origin.address newMode).1).accept (origin.address newMode).2 (dumps data) q, hg, ?_, ?_⟩
    · exact (congrFun hheap r).trans (by rw [if_pos hmem, hq, Option.map_some])
    have hopen : (box newMode s r g q).isOpen = true := decide_eq_true (hfeed ▸ hmem)
    have hdead : r ∈ (s.managers (origin.address newMode).1).dead s.heap (origin.address newMode).2 ↔
        (s.managers (origin.address newMode).1).overflows (origin.address newMode).2 q = true := by
      rw [StreamManager.dead, List.mem_filter, and_iff_right hmem, hq, Option.any_some]
    have hkept : r ∈ b.1.queues ↔
        ¬ (s.managers (origin.address newMode).1).overflows (origin.address newMode).2 q = true := by
      rw [hrem.queues, hdead, and_iff_right hmem]
    have hbox : ∀ q', box newMode
        { s with managers := Function.update s.managers (origin.address newMode).1 b.1, heap := b.2 } r g q' =
        ⟨decide (r ∈ b.1.queues), q'.items, g.messages⟩ := by
      intro q'
      simp only [box, hfeed, Function.update_self]
    rw [hbox]
    by_cases haddr : origin.address newMode = g.request.address newMode
    · have hyes : (s.managers (origin.address newMode).1).serves q (origin.address newMode).2 = true := by
        rw [hserves, haddr, beq_self_eq_true]
      simp only [view, if_pos haddr, seenBy]
      by_cases hroom : q.items.length < maxsize
      · rw [Mailbox.step_offer_room hopen hroom]
        have hstay : r ∈ b.1.queues := hkept.mpr (by simp [StreamManager.overflows, hroom])
        simp [StreamManager.accept, hyes, hroom, hstay, box, hfeed, hmem]
      · rw [Mailbox.step_offer_full hopen hroom]
        have hdrop : r ∉ b.1.queues := fun hstay =>
          hkept.mp hstay (by simp [StreamManager.overflows, hyes, Nat.le_of_not_lt hroom])
        simp [StreamManager.accept, hroom, hdrop, box]
    · -- another account of the same manager
      have hno : (s.managers (origin.address newMode).1).serves q (origin.address newMode).2 = false := by
        rw [hserves, beq_eq_false_iff_ne]
        exact fun heq => haddr (Prod.ext hfeed.symm heq.symm)
      have hstay : r ∈ b.1.queues := hkept.mpr (by simp [StreamManager.overflows, hno])
      simp [view, if_neg haddr, seenBy, StreamManager.accept, hno, hstay, box, hfeed, hmem]
  · refine ⟨q, hg, ?_, ?_⟩
    · exact (congrFun hheap r).trans ((if_neg hmem).trans hq)
    by_cases hfeed : (g.request.address newMode).1 = (origin.address newMode).1
    · -- the queue is subscribed no more
      have hgone : r ∉ b.1.queues := fun hr => hmem ((hrem.queues r).mp hr).1
      have hclosed : (box newMode s r g q).isOpen = false := decide_eq_false (hfeed ▸ hmem)
      have hbox : box newMode
          { s with managers := Function.update s.managers (origin.address newMode).1 b.1, heap := b.2 } r g q =
          box newMode s r g q := by
        simp [box, hfeed, hgone, hmem]
      rw [hbox]
      simp only [view]
      split
      · exact (Mailbox.step_offer_closed hclosed).symm
      · rfl
    · have haddr : origin.address newMode ≠ g.request.address newMode := fun heq => hfeed (heq ▸ rfl)
      simp [view, if_neg haddr, seenBy, box, Function.update_of_ne hfeed]

/-- **One step, seen from one generator, is what its mailbox does.** -/
theorem Ok.step_box (hok : Ok newMode s) {a : Action Data} (hstep : Stream.step newMode dumps s a = some t)
    (hg : s.gens r = some g) (hq : s.heap r = some q) :
    ∃ g' q', t.gens r = some g' ∧ t.heap r = some q' ∧ g'.request = g.request ∧
      box newMode t r g' q' = seenBy (box newMode s r g q) (view newMode dumps r g.request a) := by
  cases a with
  | subscribe request id =>
      obtain ⟨hfree, rfl⟩ := step_subscribe hstep
      have hne : r ≠ s.next := ((hok.made r).mpr (by rw [hg]; rfl)).ne
      refine ⟨g, q, ?_, ?_, rfl, ?_⟩
      · exact (Function.update_of_ne hne _ _).trans hg
      · exact (Function.update_of_ne hne _ _).trans hq
      · by_cases hfeed : (g.request.address newMode).1 = (request.address newMode).1
        · simp [box, view, seenBy, hfeed, StreamManager.subscribe, hne]
        · simp [box, view, seenBy, Function.update_of_ne hfeed]
  | emit origin data =>
      obtain ⟨q', hg', hq', hbox⟩ := hok.emit_box hstep hg hq
      exact ⟨g, q', hg', hq', rfl, hbox⟩
  | message r' =>
      obtain ⟨g', q', data, items, hg', hq', -, hitems, rfl⟩ := step_message hstep
      by_cases hr : r = r'
      · subst hr
        obtain rfl := Option.some.inj (hg.symm.trans hg')
        obtain rfl := Option.some.inj (hq.symm.trans hq')
        refine ⟨_, _, Function.update_self .., Function.update_self .., rfl, ?_⟩
        simp [box, view, seenBy, Mailbox.step, hitems, Generator.messages]
      · refine ⟨g, q, ?_, ?_, rfl, ?_⟩
        · exact (Function.update_of_ne hr _ _).trans hg
        · exact (Function.update_of_ne hr _ _).trans hq
        · simp [box, view, seenBy, Ne.symm hr]
  | timeout r' =>
      obtain ⟨g', hg', -, rfl⟩ := step_timeout hstep
      by_cases hr : r = r'
      · subst hr
        obtain rfl := Option.some.inj (hg.symm.trans hg')
        refine ⟨_, q, Function.update_self .., hq, rfl, ?_⟩
        simp [box, view, seenBy, Generator.messages]
      · refine ⟨g, q, ?_, hq, rfl, rfl⟩
        exact (Function.update_of_ne hr _ _).trans hg
  | cancel r' =>
      obtain ⟨g', q', hg', hq', hrun, rfl⟩ := step_cancel hstep
      by_cases hr : r = r'
      · subst hr
        obtain rfl := Option.some.inj (hg.symm.trans hg')
        obtain rfl := Option.some.inj (hq.symm.trans hq')
        refine ⟨_, q, Function.update_self .., hq, rfl, ?_⟩
        have hgone : r ∉ ((s.managers (g.request.address newMode).1).unsubscribe r q.id).queues := by
          have hreg := hok.registered (g.request.address newMode).1
          rw [(StreamManager.removed_unsubscribe hq hreg.nodup hreg.keys).queues]
          simp
        simp [box, view, seenBy, Mailbox.step, hgone, Generator.messages]
      · refine ⟨g, q, ?_, hq, rfl, ?_⟩
        · exact (Function.update_of_ne hr _ _).trans hg
        have hreg := hok.registered (g'.request.address newMode).1
        have hother := (StreamManager.removed_unsubscribe hq' hreg.nodup hreg.keys).queues r
        by_cases hfeed : (g.request.address newMode).1 = (g'.request.address newMode).1
        · simp [box, view, seenBy, hfeed, Ne.symm hr, hother, hr]
        · simp [box, view, seenBy, Ne.symm hr, Function.update_of_ne hfeed]

/-- **A whole run, seen from one generator.** -/
theorem exec_box {as : List (Action Data)} (hok : Ok newMode s) (hrun : exec (step newMode dumps) s as = some t)
    (hg : s.gens r = some g) (hq : s.heap r = some q) :
    ∃ g' q', t.gens r = some g' ∧ t.heap r = some q' ∧ g'.request = g.request ∧
      box newMode t r g' q' = (box newMode s r g q).run maxsize (as.filterMap (view newMode dumps r g.request)) := by
  induction as generalizing s g q with
  | nil =>
      obtain rfl := Option.some.inj hrun
      exact ⟨g, q, hg, hq, rfl, rfl⟩
  | cons a as ih =>
      obtain ⟨s', hstep, hrest⟩ := Option.bind_eq_some_iff.mp hrun
      obtain ⟨g₁, q₁, hg₁, hq₁, hrequest, hbox⟩ := hok.step_box hstep hg hq
      obtain ⟨g', q', hg', hq', hrequest', hbox'⟩ := ih (hok.step hstep) hrest hg₁ hq₁
      refine ⟨g', q', hg', hq', hrequest'.trans hrequest, ?_⟩
      rw [hbox', hbox, hrequest, List.filterMap_cons]
      cases view newMode dumps r g.request a <;> rfl

end

/-! ## Delivery -/

/-- The events among the actions that are addressed to a request, as the stream sends them. -/
def addressed (newMode : Bool) (dumps : Data → Payload) (request : Request) (as : List (Action Data)) : List Payload :=
  as.filterMap fun
    | .emit origin data => if origin.address newMode = request.address newMode then some (dumps data) else none
    | _ => none

theorem offered_view (r : Ref) (request : Request) (as : List (Action Data)) :
    Mailbox.offered (as.filterMap (view newMode dumps r request)) = addressed newMode dumps request as := by
  unfold Mailbox.offered addressed
  rw [List.filterMap_filterMap]
  refine List.filterMap_congr fun a _ => ?_
  cases a with
  | emit origin data =>
      simp only [view]
      split <;> rfl
  | message r' =>
      simp only [view]
      split <;> rfl
  | cancel r' =>
      simp only [view]
      split <;> rfl
  | subscribe _ _ => rfl
  | timeout _ => rfl

/-- Events are addressed to the requests of their account; without accounts, to those of their platform. -/
theorem address_eq_iff (origin : Origin) (request : Request) :
    origin.address newMode = request.address newMode ↔
      if newMode then request.accountId = some origin.accountId else request.platform = origin.platform := by
  obtain ⟨platform, account⟩ := origin
  obtain ⟨platform', account'⟩ := request
  cases newMode <;> cases platform <;> cases platform' <;>
    simp [Origin.address, Request.address, eq_comm]

section

variable {s₀ s₁ : State Payload} {request : Request} {id : Nat} {as : List (Action Data)}

/-- A generator that has just started, with its empty mailbox. -/
theorem subscribed (h₀ : Run (step newMode dumps) Always State.init s₀)
    (h₁ : step newMode dumps s₀ (.subscribe request id) = some s₁) :
    Ok newMode s₁ ∧ s₁.gens s₀.next = some ⟨request, true, []⟩ ∧ s₁.heap s₀.next = some ⟨id, []⟩ ∧
      box newMode s₁ s₀.next ⟨request, true, []⟩ ⟨id, []⟩ = ⟨true, [], []⟩ := by
  refine ⟨(ok_run h₀).step h₁, ?_⟩
  obtain ⟨-, rfl⟩ := step_subscribe h₁
  refine ⟨Function.update_self .., Function.update_self .., ?_⟩
  simp [box, StreamManager.subscribe, Generator.messages]

/-- **Every stream delivers the events addressed to it.** Whatever other streams come and go and whichever
    addresses are used again: what a stream has yielded, with what waits in its queue, are the first events
    addressed to it since it subscribed, in order; and all of them as long as its queue is subscribed. -/
theorem stream_delivers (h₀ : Run (step newMode dumps) Always State.init s₀)
    (h₁ : step newMode dumps s₀ (.subscribe request id) = some s₁) (h : exec (step newMode dumps) s₁ as = some t) :
    ∃ g q, t.gens s₀.next = some g ∧ t.heap s₀.next = some q ∧ q.items.length ≤ maxsize ∧
      g.messages ++ q.items <+: addressed newMode dumps request as ∧
      (s₀.next ∈ (t.managers (request.address newMode).1).queues →
        g.messages ++ q.items = addressed newMode dumps request as) := by
  obtain ⟨hok, hg, hq, hbox⟩ := subscribed h₀ h₁
  obtain ⟨g', q', hg', hq', hrequest, hrun⟩ := exec_box hok h hg hq
  rw [hbox] at hrun
  have hseen : g'.messages ++ q'.items = (box newMode t s₀.next g' q').seen := rfl
  have hpending : q'.items = (box newMode t s₀.next g' q').pending := rfl
  obtain ⟨n, hfirst, hall⟩ := Mailbox.run_kept maxsize
    (as.filterMap (view newMode dumps s₀.next request)) (m := ⟨true, [], []⟩) rfl
  rw [offered_view] at hfirst hall
  refine ⟨g', q', hg', hq', ?_, ?_, fun hmem => ?_⟩
  · rw [hpending, hrun]
    exact Mailbox.run_pending_le (Nat.zero_le maxsize)
  · rw [hseen, hrun, hfirst]
    exact List.take_prefix n _
  · have hopen : (box newMode t s₀.next g' q').isOpen = true :=
      decide_eq_true (hrequest ▸ hmem)
    rw [hseen, hrun]
    exact hall (hrun ▸ hopen)

/-- **A stream is cut off by its own backlog only.** If a stream still runs but its queue is no longer
    subscribed, then an event addressed to it once found 100 others waiting; the stream gets the events before
    that one, and pings. -/
theorem stream_dropped (h₀ : Run (step newMode dumps) Always State.init s₀)
    (h₁ : step newMode dumps s₀ (.subscribe request id) = some s₁) (h : exec (step newMode dumps) s₁ as = some t)
    (hcancel : .cancel s₀.next ∉ as) (hdropped : s₀.next ∉ (t.managers (request.address newMode).1).queues) :
    ∃ before origin data after s₂ q₂ g q, as = before ++ .emit origin data :: after ∧
      origin.address newMode = request.address newMode ∧ exec (step newMode dumps) s₁ before = some s₂ ∧
      s₂.heap s₀.next = some q₂ ∧ q₂.items.length = maxsize ∧
      t.gens s₀.next = some g ∧ t.heap s₀.next = some q ∧
      g.messages ++ q.items = addressed newMode dumps request before := by
  obtain ⟨hok, hg, hq, hbox⟩ := subscribed h₀ h₁
  obtain ⟨g', q', hg', hq', hrequest, hrun⟩ := exec_box hok h hg hq
  rw [hbox] at hrun
  have hclosed : (box newMode t s₀.next g' q').isOpen = false := decide_eq_false (hrequest ▸ hdropped)
  have hclose : .close ∉ as.filterMap (view newMode dumps s₀.next request) := by
    intro hmem
    obtain ⟨a, ha, hview⟩ := List.mem_filterMap.mp hmem
    cases a with
    | cancel r' =>
        simp only [view] at hview
        split at hview
        · rename_i hr
          exact hcancel (hr ▸ ha)
        · cases hview
    | emit origin data =>
        simp only [view] at hview
        split at hview <;> cases hview
    | message r' =>
        simp only [view] at hview
        split at hview <;> cases hview
    | subscribe _ _ => cases hview
    | timeout _ => cases hview
  obtain ⟨before, x, after, hsplit, -, hfull, hseen⟩ := Mailbox.run_overflow maxsize (m := ⟨true, [], []⟩)
    rfl hclose (hrun ▸ hclosed)
  -- the offer that found no room is an event of the run
  obtain ⟨as₁, as₂, rfl, hbefore, hafter⟩ := List.filterMap_eq_append_iff.mp hsplit
  obtain ⟨as₃, a, as₄, rfl, hnone, hview, -⟩ := List.filterMap_eq_cons_iff.mp hafter
  have hidle : as₃.filterMap (view newMode dumps s₀.next request) = [] :=
    List.filterMap_eq_nil_iff.mpr hnone
  have hacts : (as₁ ++ as₃).filterMap (view newMode dumps s₀.next request) = before := by
    rw [List.filterMap_append, hbefore, hidle, List.append_nil]
  obtain ⟨origin, data, rfl, haddr⟩ : ∃ origin data, a = .emit origin data ∧
      origin.address newMode = request.address newMode := by
    cases a with
    | emit origin data =>
        simp only [view] at hview
        split at hview
        · rename_i haddr
          exact ⟨origin, data, rfl, haddr⟩
        · cases hview
    | message r' =>
        simp only [view] at hview
        split at hview <;> cases hview
    | cancel r' =>
        simp only [view] at hview
        split at hview <;> cases hview
    | subscribe _ _ => cases hview
    | timeout _ => cases hview
  have hassoc : as₁ ++ (as₃ ++ .emit origin data :: as₄) = (as₁ ++ as₃) ++ .emit origin data :: as₄ :=
    (List.append_assoc ..).symm
  rw [hassoc, exec_append] at h
  obtain ⟨s₂, h₂, -⟩ := Option.bind_eq_some_iff.mp h
  obtain ⟨g₂, q₂, hg₂, hq₂, -, hrun₂⟩ := exec_box hok h₂ hg hq
  rw [hbox, hacts] at hrun₂
  have hpending : q₂.items = (box newMode s₂ s₀.next g₂ q₂).pending := rfl
  refine ⟨as₁ ++ as₃, origin, data, as₄, s₂, q₂, g', q', hassoc, haddr, h₂, hq₂, ?_, hg', hq', ?_⟩
  · rw [hpending, hrun₂]
    exact Nat.le_antisymm (Mailbox.run_pending_le (Nat.zero_le maxsize)) hfull
  · rw [← offered_view s₀.next request, hacts]
    show (box newMode t s₀.next g' q').seen = _
    rw [hrun, hseen]
    rfl

end

/-- A MAX stream that gets the address of a Telegram stream that has ended. -/
def reused : List (Action Nat) := [.subscribe ⟨.telegram, some 1⟩ 7, .cancel 0]

theorem reused_possible : (exec (step true id) (State.init : State Nat) reused).isSome = true := by decide +kernel

def reusedState : State Nat := (exec (step true id) State.init reused).get reused_possible

def work : Request := ⟨.max, some 2⟩

theorem work_possible : (step true id reusedState (.subscribe work 7)).isSome = true := by decide +kernel

def workState : State Nat := (step true id reusedState (.subscribe work 7)).get work_possible

def mixed : List (Action Nat) := [.emit ⟨.max, 2⟩ 10, .emit ⟨.telegram, 1⟩ 11, .message 1, .timeout 1, .emit ⟨.max, 2⟩ 12]

theorem mixed_possible : (exec (step true id) workState mixed).isSome = true := by decide +kernel

theorem stream_delivers_mixed :
    ∃ g q, ((exec (step true id) workState mixed).get mixed_possible).gens reusedState.next = some g ∧
      ((exec (step true id) workState mixed).get mixed_possible).heap reusedState.next = some q ∧
      q.items.length ≤ maxsize ∧ g.messages ++ q.items <+: addressed true id work mixed ∧
      (reusedState.next ∈ (((exec (step true id) workState mixed).get mixed_possible).managers
          (work.address true).1).queues → g.messages ++ q.items = addressed true id work mixed) :=
  stream_delivers (Run.get_exec reused_possible) (Option.some_get work_possible).symm (Option.some_get mixed_possible).symm

def flood : List (Action Nat) := List.replicate 101 (.emit ⟨.max, 2⟩ 10)

theorem flood_possible : (exec (step true id) workState flood).isSome = true := by decide +kernel

theorem stream_dropped_flood :
    ∃ before origin data after s₂ q₂ g q, flood = before ++ .emit origin data :: after ∧
      origin.address true = work.address true ∧ exec (step true id) workState before = some s₂ ∧
      s₂.heap reusedState.next = some q₂ ∧ q₂.items.length = maxsize ∧
      ((exec (step true id) workState flood).get flood_possible).gens reusedState.next = some g ∧
      ((exec (step true id) workState flood).get flood_possible).heap reusedState.next = some q ∧
      g.messages ++ q.items = addressed true id work before :=
  stream_dropped (Run.get_exec reused_possible) (Option.some_get work_possible).symm
    (Option.some_get flood_possible).symm (by decide +kernel) (by decide +kernel)

/-! ## Isolation -/

/-- What a generator has yielded, or will, was emitted for it. -/
def Confined (newMode : Bool) (dumps : Data → Payload) (as : List (Action Data)) (s : State Payload) : Prop :=
  ∀ r g q, s.gens r = some g → s.heap r = some q →
    ∀ p ∈ g.messages ++ q.items, p ∈ addressed newMode dumps g.request as

theorem mem_seenBy {m : Mailbox Payload} {act : Option (Mailbox.Act Payload)} {p : Payload} (h : p ∈ (seenBy m act).seen) :
    p ∈ m.seen ∨ act = some (.offer p) := by
  cases act with
  | none => exact Or.inl h
  | some act =>
      cases act with
      | take => exact Or.inl (Mailbox.seen_take maxsize (m := m) ▸ h)
      | close => exact Or.inl h
      | offer x =>
          by_cases hopen : m.isOpen = true
          · by_cases hroom : m.pending.length < maxsize
            · rw [seenBy, Mailbox.step_offer_room hopen hroom] at h
              have hsplit : p ∈ m.seen ++ [x] := by simpa [Mailbox.seen, or_assoc] using h
              rcases List.mem_append.mp hsplit with h | h
              · exact Or.inl h
              · exact Or.inr (by rw [List.mem_singleton.mp h])
            · rw [seenBy, Mailbox.step_offer_full hopen hroom] at h
              exact Or.inl h
          · rw [seenBy, Mailbox.step_offer_closed (Bool.eq_false_iff.mpr hopen)] at h
            exact Or.inl h

theorem view_offer {r : Ref} {request : Request} {a : Action Data} {p : Payload}
    (h : view newMode dumps r request a = some (.offer p)) : p ∈ addressed newMode dumps request [a] := by
  cases a with
  | emit origin data =>
      simp only [view] at h
      split at h
      · rename_i haddr
        cases h
        simp [addressed, haddr]
      · cases h
  | message r' =>
      simp only [view] at h
      split at h <;> cases h
  | cancel r' =>
      simp only [view] at h
      split at h <;> cases h
  | subscribe _ _ => cases h
  | timeout _ => cases h

theorem Confined.step {as : List (Action Data)} (h : Confined newMode dumps as s) (hok : Ok newMode s)
    {a : Action Data} (hstep : Stream.step newMode dumps s a = some t) : Confined newMode dumps (as ++ [a]) t := by
  intro r g' q' hg' hq' p hp
  rw [addressed, List.filterMap_append]
  cases hg : s.gens r with
  | some g =>
      obtain ⟨q, hq⟩ := Option.isSome_iff_exists.mp (hok.queues r (by rw [hg]; rfl))
      obtain ⟨g₁, q₁, hg₁, hq₁, hrequest, hbox⟩ := hok.step_box hstep hg hq
      obtain rfl := Option.some.inj (hg'.symm.trans hg₁)
      obtain rfl := Option.some.inj (hq'.symm.trans hq₁)
      have hseen : p ∈ (box newMode t r g' q').seen := hp
      rw [hbox] at hseen
      rcases mem_seenBy hseen with hold | hoffer
      · exact List.mem_append_left _ (hrequest ▸ h r g q hg hq p hold)
      · exact List.mem_append_right _ (hrequest ▸ view_offer hoffer)
  | none =>
      -- a generator that has just started holds nothing
      cases a with
      | subscribe request id =>
          obtain ⟨-, rfl⟩ := step_subscribe hstep
          rcases Table.of_update hg' with ⟨rfl, hnew⟩ | ⟨hne, hold⟩
          · rcases Table.of_update hq' with ⟨-, hnewq⟩ | ⟨hne, -⟩
            · cases hnew
              cases hnewq
              cases hp
            · exact absurd rfl hne
          · rw [hg] at hold
            cases hold
      | emit origin data =>
          obtain rfl := Option.some.inj ((step_emit ..).symm.trans hstep)
          rw [hg] at hg'
          cases hg'
      | message r' =>
          obtain ⟨g, q, data, items, hg₁, -, -, -, rfl⟩ := step_message hstep
          rcases Table.of_update hg' with ⟨rfl, -⟩ | ⟨-, hold⟩
          · rw [hg] at hg₁
            cases hg₁
          · rw [hg] at hold
            cases hold
      | timeout r' =>
          obtain ⟨g, hg₁, -, rfl⟩ := step_timeout hstep
          rcases Table.of_update hg' with ⟨rfl, -⟩ | ⟨-, hold⟩
          · rw [hg] at hg₁
            cases hg₁
          · rw [hg] at hold
            cases hold
      | cancel r' =>
          obtain ⟨g, q, hg₁, -, -, rfl⟩ := step_cancel hstep
          rcases Table.of_update hg' with ⟨rfl, -⟩ | ⟨-, hold⟩
          · rw [hg] at hg₁
            cases hg₁
          · rw [hg] at hold
            cases hold

theorem confined_exec {as : List (Action Data)} :
    ∀ bs : List (Action Data), Ok newMode s → Confined newMode dumps bs s →
      exec (step newMode dumps) s as = some t → Confined newMode dumps (bs ++ as) t := by
  induction as generalizing s with
  | nil =>
      intro bs _ h hrun
      obtain rfl := Option.some.inj hrun
      rwa [List.append_nil]
  | cons a as ih =>
      intro bs hok h hrun
      obtain ⟨s', hstep, hrest⟩ := Option.bind_eq_some_iff.mp hrun
      have hnext := ih _ (hok.step hstep) (h.step hok hstep) hrest
      rwa [List.append_assoc] at hnext

/-- **No stream shows the events of another account.** Whatever a stream yields was emitted by a session of its
    own account; in the legacy mode, by a session of its own platform. -/
theorem stream_isolated {as : List (Action Data)} (h : exec (step newMode dumps) State.init as = some t) {r : Ref}
    {g : Generator Payload} (hg : t.gens r = some g) {p : Payload} (hp : .message p ∈ g.yielded) :
    ∃ origin data, .emit origin data ∈ as ∧ p = dumps data ∧
      if newMode then g.request.accountId = some origin.accountId else g.request.platform = origin.platform := by
  have hok : Ok newMode t := ok_run (Run.of_exec h)
  obtain ⟨q, hq⟩ := Option.isSome_iff_exists.mp (hok.queues r (by rw [hg]; rfl))
  have hconfined : Confined newMode dumps as t :=
    confined_exec [] ok_init (fun _ _ _ hnone => by cases hnone) h
  have hmem : p ∈ g.messages := List.mem_filterMap.mpr ⟨_, hp, rfl⟩
  obtain ⟨a, ha, hview⟩ := List.mem_filterMap.mp (hconfined r g q hg hq p (List.mem_append_left _ hmem))
  cases a with
  | emit origin data =>
      simp only at hview
      split at hview
      · rename_i haddr
        exact ⟨origin, data, ha, (Option.some.inj hview).symm, (address_eq_iff origin g.request).mp haddr⟩
      · cases hview
  | _ => cases hview

def twoAccounts : List (Action Nat) :=
  [.subscribe work 7, .emit ⟨.telegram, 1⟩ 11, .emit ⟨.max, 2⟩ 12, .message 0]

theorem twoAccounts_possible : (exec (step true id) (State.init : State Nat) twoAccounts).isSome = true := by
  decide +kernel

def twoAccountsState : State Nat := (exec (step true id) State.init twoAccounts).get twoAccounts_possible

theorem twoAccounts_gen : twoAccountsState.gens 0 = some ⟨work, true, [.message 12]⟩ := by decide +kernel

theorem stream_isolated_twoAccounts :
    ∃ origin data, Action.emit origin data ∈ twoAccounts ∧ 12 = id data ∧
      if true then work.accountId = some origin.accountId else work.platform = origin.platform :=
  stream_isolated (Option.some_get twoAccounts_possible).symm twoAccounts_gen List.mem_cons_self

/-! ## The registry after a run -/

/-- **The registry has no stale entry.** After every run each queue that a manager serves is that of a running stream,
    no two have one address, and the manager has exactly one entry for each, under its address and with the account of
    its request; when no stream runs nothing is left. -/
theorem registry_exact (h : Run (step newMode dumps) Always State.init s) (feed : Feed) :
    ((s.managers feed).accounts.map Prod.fst).Nodup ∧ (s.managers feed).queues.Nodup ∧
      (∀ r ∈ (s.managers feed).queues, ∃ id accountId, At newMode s.heap s.gens r feed id accountId ∧
        (id, accountId) ∈ (s.managers feed).accounts) ∧
      (∀ r ∈ (s.managers feed).queues, ∀ r' ∈ (s.managers feed).queues, ∀ id accountId accountId',
        At newMode s.heap s.gens r feed id accountId → At newMode s.heap s.gens r' feed id accountId' → r = r') ∧
      (∀ id accountId, (id, accountId) ∈ (s.managers feed).accounts ↔
        ∃ r ∈ (s.managers feed).queues, At newMode s.heap s.gens r feed id accountId) ∧
      ((∀ r g, s.gens r = some g → g.running = false) → s.managers feed = .init) := by
  have hok := ok_run h
  have hreg := hok.registered feed
  refine ⟨hreg.keys, hreg.nodup, hreg.queued,
    fun r _ r' _ id accountId accountId' => hok.apart r r' feed feed id accountId accountId',
    fun id accountId => ⟨hreg.owned (id, accountId), ?_⟩, fun hidle => ?_⟩
  · rintro ⟨r, hr, hat⟩
    obtain ⟨id', account', hat', hmem⟩ := hreg.queued r hr
    obtain ⟨-, rfl, rfl⟩ := hat'.unique hat
    exact hmem
  · have hqueues : (s.managers feed).queues = [] := by
      refine List.eq_nil_iff_forall_not_mem.mpr fun r hr => ?_
      obtain ⟨id, a, ⟨g, q, hg, -, hrun, -⟩, -⟩ := hreg.queued r hr
      rw [hidle r g hg] at hrun
      cases hrun
    have haccounts : (s.managers feed).accounts = [] := by
      refine List.eq_nil_iff_forall_not_mem.mpr fun e he => ?_
      obtain ⟨r, hr, -⟩ := hreg.owned e he
      rw [hqueues] at hr
      cases hr
    show s.managers feed = ⟨[], []⟩
    rw [← hqueues, ← haccounts]

theorem registry_exact_mixed :
    ((workState.managers .streamManager).accounts.map Prod.fst).Nodup ∧ (workState.managers .streamManager).queues.Nodup ∧
      (∀ r ∈ (workState.managers .streamManager).queues, ∃ id accountId,
        At true workState.heap workState.gens r .streamManager id accountId ∧
        (id, accountId) ∈ (workState.managers .streamManager).accounts) ∧
      (∀ r ∈ (workState.managers .streamManager).queues, ∀ r' ∈ (workState.managers .streamManager).queues,
        ∀ id accountId accountId', At true workState.heap workState.gens r .streamManager id accountId →
          At true workState.heap workState.gens r' .streamManager id accountId' → r = r') ∧
      (∀ id accountId, (id, accountId) ∈ (workState.managers .streamManager).accounts ↔
        ∃ r ∈ (workState.managers .streamManager).queues,
          At true workState.heap workState.gens r .streamManager id accountId) ∧
      ((∀ r g, workState.gens r = some g → g.running = false) → workState.managers .streamManager = .init) :=
  registry_exact ((Run.get_exec reused_possible).tail (.subscribe work 7) trivial (Option.some_get work_possible).symm)
    .streamManager

end MyPerson.Stream
