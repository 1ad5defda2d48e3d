import MyPerson.Lib.Run
import MyPerson.Lib.TaskRegistry

/-!
# `MaxSync.Starts` — `start_backfill` of MAX

`MaxSync.start_backfill` of `app/max/sync.py` between its awaits, with any number of calls in flight. The check
of the registry and the registration of the task fall into one step, except for the forward direction, which
reads the cursor in between.

## Contents
- `isBackfillRunning`, the answers, `step`;
- `registersFree`, the condition on a registration;
- `OneBackfill` and its run.
-/

namespace MyPerson.MaxSync.Starts

open Lib

inductive Direction
  | backward | forward
deriving DecidableEq, Repr

structure Request where
  chatId    : Int
  limit     : Nat
  direction : Direction
  days      : Option Nat
deriving DecidableEq, Repr

/-- What a call answers. -/
inductive Answer
  | alreadyRunning (chatId : Int)
  | error (chatId : Int) (detail : String)
  | started (req : Request)
  /-- `SessionUnavailable`. -/
  | unavailable
deriving DecidableEq, Repr

def noNewestTime : String := "no newest_time_ms for this chat yet: run a backward backfill first"

/-- `is_backfill_running`, over tasks by account and chat; no account: running for any account. -/
def isBackfillRunning {α : Type} [DecidableEq α] (tasks : Tasks (α × Int)) (chatId : Int) (account : Option α) : Bool :=
  tasks.entries.entries.any fun e => e.1.2 == chatId && account.all (· == e.1.1) && decide (e.2 ∉ tasks.finished)

section

variable {α : Type} [DecidableEq α] {tasks : Tasks (α × Int)} {chatId : Int} {account : α}

/-- For one account the registry is asked for one key. -/
theorem isBackfillRunning_account :
    isBackfillRunning tasks chatId (some account) = tasks.running (account, chatId) := by
  rw [Bool.eq_iff_iff]
  unfold isBackfillRunning Tasks.running
  rw [List.any_eq_true, Option.any_eq_true]
  constructor
  · rintro ⟨⟨⟨acc, cid⟩, i⟩, hmem, h⟩
    simp only [Bool.and_eq_true, beq_iff_eq, Option.all_some] at h
    obtain ⟨⟨rfl, rfl⟩, hnot⟩ := h
    exact ⟨i, AList.mem_lookup_iff.mpr hmem, hnot⟩
  · rintro ⟨i, hlookup, hnot⟩
    exact ⟨⟨(account, chatId), i⟩, AList.mem_lookup_iff.mp hlookup, by simpa using hnot⟩

theorem isBackfillRunning_any (h : isBackfillRunning tasks chatId (some account) = true) :
    isBackfillRunning tasks chatId none = true := by
  unfold isBackfillRunning at *
  obtain ⟨e, hmem, h⟩ := List.any_eq_true.mp h
  simp only [Bool.and_eq_true] at h
  refine List.any_eq_true.mpr ⟨e, hmem, ?_⟩
  simp only [Bool.and_eq_true]
  exact ⟨⟨h.1.1, rfl⟩, h.2⟩

/-- No account and chat has two unfinished tasks, and the registry answers for each. -/
structure OneBackfill (tasks : Tasks (α × Int)) : Prop where
  atMostOne  : tasks.AtMostOne
  registered : ∀ i account chatId, tasks.Unfinished i (account, chatId) →
    tasks.entries.lookup (account, chatId) = some i ∧ isBackfillRunning tasks chatId (some account) = true ∧
      isBackfillRunning tasks chatId none = true

theorem oneBackfill_of_held (h : tasks.Held) : OneBackfill tasks := by
  refine ⟨h.atMostOne, fun i account chatId hi => ?_⟩
  have hrunning : isBackfillRunning tasks chatId (some account) = true := by
    rw [isBackfillRunning_account]
    exact h.running hi
  exact ⟨h i _ hi, hrunning, isBackfillRunning_any hrunning⟩

end

/-! ## Calls -/

/-- Where a call stands. -/
inductive Phase
  | idle
  /-- Forward: the cursor is read. -/
  | reading (accountId : Int) (req : Request)
  | answered (answer : Answer)
  | gone
deriving DecidableEq

structure State where
  /-- `_backfill_tasks`, with the tasks. -/
  tasks : Tasks (Int × Int)
  calls : Nat → Phase

def initial : State := ⟨Tasks.empty, fun _ => .idle⟩

def State.setCall (s : State) (c : Nat) (p : Phase) : State := { s with calls := Function.update s.calls c p }

/-- `create_task` and the registration. -/
def State.register (s : State) (c : Nat) (accountId : Int) (req : Request) : State where
  tasks := s.tasks.start (accountId, req.chatId)
  calls := Function.update s.calls c (.answered (.started req))

inductive Action
  /-- A call up to its first await; `client`: the session has one. -/
  | call (c : Nat) (accountId : Int) (req : Request) (client : Bool)
  /-- `_state` returned; `newest`: there is a row with a `newest_time_ms`. -/
  | cursorRead (c : Nat) (newest : Bool)
  /-- A call is cancelled, or `_state` raised. -/
  | abandon (c : Nat)
  | finish (task : Nat)
  | callback (task : Nat)

/-- `start_backfill` up to its first await. -/
def State.startBackfill (s : State) (c : Nat) (accountId : Int) (req : Request) (client : Bool) : State :=
  if isBackfillRunning s.tasks req.chatId (some accountId) then s.setCall c (.answered (.alreadyRunning req.chatId))
  else if client = false then s.setCall c (.answered .unavailable)
  else match req.direction with
    | .forward => s.setCall c (.reading accountId req)
    | .backward => s.register c accountId req

def step (s : State) : Action → Option State
  | .call c accountId req client =>
      match s.calls c with
      | .idle => some (s.startBackfill c accountId req client)
      | _ => none
  | .cursorRead c newest =>
      match s.calls c with
      | .reading accountId req =>
          if newest then some (s.register c accountId req)
          else some (s.setCall c (.answered (.error req.chatId noNewestTime)))
      | _ => none
  | .abandon c =>
      match s.calls c with
      | .reading _ _ => some (s.setCall c .gone)
      | _ => none
  | .finish i => if h : i < s.tasks.keys.length then some { s with tasks := s.tasks.finish i h } else none
  | .callback i => if i ∈ s.tasks.finished then some { s with tasks := s.tasks.callback i } else none

/-- A call registers its task only where the check that it made before its await would still pass. -/
def registersFree (s : State) : Action → Prop
  | .cursorRead c true => ∀ accountId req, s.calls c = .reading accountId req →
      isBackfillRunning s.tasks req.chatId (some accountId) = false
  | _ => True

variable {s t : State}

/-- **Step.** -/
theorem held_step {a : Action} (h : s.tasks.Held) (hok : registersFree s a) (hstep : step s a = some t) :
    t.tasks.Held := by
  cases a with
  | call c accountId req client =>
      simp only [step] at hstep
      split at hstep
      · obtain rfl := Option.some.inj hstep
        unfold State.startBackfill
        split
        · exact h
        · rename_i hfree
          rw [isBackfillRunning_account] at hfree
          split
          · exact h
          · split
            · exact h
            · exact h.start (Bool.eq_false_iff.mpr hfree)
      · cases hstep
  | cursorRead c newest =>
      simp only [step] at hstep
      split at hstep
      · rename_i accountId req hcall
        cases newest with
        | true =>
            obtain rfl := Option.some.inj hstep
            have hfree := hok accountId req hcall
            rw [isBackfillRunning_account] at hfree
            exact h.start hfree
        | false =>
            obtain rfl := Option.some.inj hstep
            exact h
      · cases hstep
  | abandon c =>
      simp only [step] at hstep
      split at hstep
      · obtain rfl := Option.some.inj hstep
        exact h
      · cases hstep
  | finish i =>
      obtain ⟨hi, heq⟩ := Option.dite_none_right_eq_some.mp hstep
      obtain rfl := Option.some.inj heq
      exact h.finish hi
  | callback i =>
      obtain ⟨hdone, heq⟩ := Option.ite_none_right_eq_some.mp hstep
      obtain rfl := Option.some.inj heq
      exact h.callback hdone

/-- A registration that does not keep to the condition makes two tasks of a key. -/
theorem two_of_not_registersFree {a : Action} (hnot : ¬ registersFree s a) (hstep : step s a = some t) :
    ¬ t.tasks.AtMostOne := by
  cases a with
  | cursorRead c newest =>
      cases newest with
      | false => exact absurd trivial hnot
      | true =>
          simp only [step] at hstep
          split at hstep
          · rename_i accountId req hcall
            obtain rfl := Option.some.inj hstep
            apply Tasks.not_atMostOne_start
            rw [← isBackfillRunning_account]
            by_contra hfree
            refine hnot fun accountId' req' hcall' => ?_
            obtain ⟨rfl, rfl⟩ := Phase.reading.inj (hcall.symm.trans hcall')
            exact Bool.eq_false_iff.mpr hfree
          · cases hstep
  | _ => exact absurd trivial hnot

theorem run_held (h : Run step registersFree initial s) : s.tasks.Held :=
  h.invariant (P := fun s => s.tasks.Held) (fun _ _ _ hs hok hstep => held_step hs hok hstep) Tasks.held_empty

end MyPerson.MaxSync.Starts
