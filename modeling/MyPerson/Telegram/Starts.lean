import MyPerson.MaxSync.Starts

/-!
# `Telegram.Starts` — `start_backfill` of Telegram

`start_backfill` of `app/services/backfill_service.py` between its awaits. Every call awaits between its check of
the registry and the registration of its task: whether the session is authorized, and in the new mode whether it
belongs to the account.

## Contents
- `step`, `registersFree`;
- `one_backfill_per_chat`, for both messengers, and what happens without the condition.
-/

namespace MyPerson.Telegram.Starts

open Lib
open MaxSync.Starts (isBackfillRunning isBackfillRunning_account OneBackfill oneBackfill_of_held Direction)

/-- The account part of a key: the account id, or the alias for a session that has none. -/
inductive AccountKey
  | id (n : Int)
  | name (aliasName : String)
deriving DecidableEq, Repr

structure Request where
  chatId    : Int
  limit     : Nat
  aliasName : String
  direction : Direction
deriving DecidableEq, Repr

/-- What a call answers. -/
inductive Answer
  | alreadyRunning (chatId : Int)
  | error (detail : String)
  | started (req : Request)
deriving DecidableEq, Repr

def notAuthorized (req : Request) : Answer := .error s!"Session '{req.aliasName}' not authorized"

def noAccount (req : Request) : Answer := .error s!"Session '{req.aliasName}' has no account"

def otherUser (req : Request) : Answer := .error s!"Session '{req.aliasName}' belongs to another Telegram user"

def keyOf (account : Option Int) (req : Request) : AccountKey × Int :=
  (account.elim (.name req.aliasName) .id, req.chatId)

/-- Where a call stands. -/
inductive Phase
  | idle
  /-- `pool.get`. -/
  | opening (req : Request)
  /-- `is_user_authorized`. -/
  | authorizing (account : Option Int) (req : Request)
  /-- `confirm_identity`. -/
  | confirming (account : Option Int) (req : Request)
  | answered (answer : Answer)
  | gone
deriving DecidableEq

structure State where
  /-- `_backfill_tasks`, with the tasks. -/
  tasks : Tasks (AccountKey × Int)
  calls : Nat → Phase

def initial : State := ⟨Tasks.empty, fun _ => .idle⟩

def State.setCall (s : State) (c : Nat) (p : Phase) : State := { s with calls := Function.update s.calls c p }

/-- `create_task` and the registration. -/
def State.register (s : State) (c : Nat) (account : Option Int) (req : Request) : State where
  tasks := s.tasks.start (keyOf account req)
  calls := Function.update s.calls c (.answered (.started req))

inductive Action
  | call (c : Nat) (req : Request)
  /-- The pool gave the session, with or without an account and a client. -/
  | gotSession (c : Nat) (account : Option Int) (client : Bool)
  | authorized (c : Nat) (ok : Bool)
  | confirmed (c : Nat) (ok : Bool)
  /-- A call is cancelled, or one of its awaits raised. -/
  | abandon (c : Nat)
  | finish (task : Nat)
  | callback (task : Nat)

/-- From the session to the next await. -/
def State.check (s : State) (c : Nat) (req : Request) (account : Option Int) (client : Bool) : State :=
  if isBackfillRunning s.tasks req.chatId (some (keyOf account req).1) then
    s.setCall c (.answered (.alreadyRunning req.chatId))
  else if client = false then s.setCall c (.answered (notAuthorized req))
  else s.setCall c (.authorizing account req)

/-- After `is_user_authorized`. -/
def State.afterAuthorized (newMode : Bool) (s : State) (c : Nat) (account : Option Int) (req : Request) (ok : Bool) :
    State :=
  if ok = false then s.setCall c (.answered (notAuthorized req))
  else if newMode = false then s.register c account req
  else if account = none then s.setCall c (.answered (noAccount req))
  else s.setCall c (.confirming account req)

def step (newMode : Bool) (s : State) : Action → Option State
  | .call c req =>
      match s.calls c with
      | .idle => some (s.setCall c (.opening req))
      | _ => none
  | .gotSession c account client =>
      match s.calls c with
      | .opening req => some (s.check c req account client)
      | _ => none
  | .authorized c ok =>
      match s.calls c with
      | .authorizing account req => some (s.afterAuthorized newMode c account req ok)
      | _ => none
  | .confirmed c ok =>
      match s.calls c with
      | .confirming account req =>
          if ok then some (s.register c account req) else some (s.setCall c (.answered (otherUser req)))
      | _ => none
  | .abandon c =>
      match s.calls c with
      | .idle => none
      | .answered _ => none
      | _ => some (s.setCall c .gone)
  | .finish i => if h : i < s.tasks.keys.length then some { s with tasks := s.tasks.finish i h } else none
  | .callback i => if i ∈ s.tasks.finished then some { s with tasks := s.tasks.callback i } else none

/-- The key under which an action registers a task. -/
def registers (newMode : Bool) (s : State) : Action → Option (AccountKey × Int)
  | .authorized c true =>
      match s.calls c with
      | .authorizing account req => if newMode then none else some (keyOf account req)
      | _ => none
  | .confirmed c true =>
      match s.calls c with
      | .confirming account req => some (keyOf account req)
      | _ => none
  | _ => none

/-- A call registers its task only where the check that it made before its awaits would still pass. -/
def registersFree (newMode : Bool) (s : State) (a : Action) : Prop :=
  ∀ k, registers newMode s a = some k → isBackfillRunning s.tasks k.2 (some k.1) = false

variable {newMode : Bool} {s t : State} {a : Action}

/-- What a step does to the tasks. -/
inductive TaskStep (newMode : Bool) (s : State) (a : Action) : Tasks (AccountKey × Int) → Prop
  | same (hnone : registers newMode s a = none) : TaskStep newMode s a s.tasks
  | start (k : AccountKey × Int) (hk : registers newMode s a = some k) : TaskStep newMode s a (s.tasks.start k)
  | finish (i : Nat) (h : i < s.tasks.keys.length) (hnone : registers newMode s a = none) :
      TaskStep newMode s a (s.tasks.finish i h)
  | callback (i : Nat) (h : i ∈ s.tasks.finished) (hnone : registers newMode s a = none) :
      TaskStep newMode s a (s.tasks.callback i)

/-- **Step.** Tasks are created by registrations only. -/
theorem step_tasks (hstep : step newMode s a = some t) : TaskStep newMode s a t.tasks := by
  cases a with
  | call c req =>
      simp only [step] at hstep
      split at hstep
      · obtain rfl := Option.some.inj hstep
        exact .same rfl
      · cases hstep
  | gotSession c account client =>
      simp only [step] at hstep
      split at hstep
      · obtain rfl := Option.some.inj hstep
        unfold State.check
        split
        · exact .same rfl
        · split <;> exact .same rfl
      · cases hstep
  | authorized c ok =>
      simp only [step] at hstep
      split at hstep
      · rename_i account req hcall
        obtain rfl := Option.some.inj hstep
        unfold State.afterAuthorized
        cases ok with
        | false => exact .same rfl
        | true =>
            cases newMode with
            | false => exact .start _ (by simp only [registers, hcall]; rfl)
            | true =>
                have hnone : registers true s (.authorized c true) = none := by
                  simp only [registers, hcall]
                  rfl
                by_cases haccount : account = none
                · rw [if_neg (by decide), if_neg (by decide), if_pos haccount]
                  exact .same hnone
                · rw [if_neg (by decide), if_neg (by decide), if_neg haccount]
                  exact .same hnone
      · cases hstep
  | confirmed c ok =>
      simp only [step] at hstep
      split at hstep
      · rename_i account req hcall
        cases ok with
        | false =>
            obtain rfl := Option.some.inj hstep
            exact .same rfl
        | true =>
            obtain rfl := Option.some.inj hstep
            exact .start _ (by simp only [registers, hcall])
      · cases hstep
  | abandon c =>
      simp only [step] at hstep
      split at hstep
      · cases hstep
      · cases hstep
      · obtain rfl := Option.some.inj hstep
        exact .same rfl
  | finish i =>
      obtain ⟨hi, heq⟩ := Option.dite_none_right_eq_some.mp hstep
      obtain rfl := Option.some.inj heq
      exact .finish i hi rfl
  | callback i =>
      obtain ⟨hdone, heq⟩ := Option.ite_none_right_eq_some.mp hstep
      obtain rfl := Option.some.inj heq
      exact .callback i hdone rfl

theorem held_step (h : s.tasks.Held) (hok : registersFree newMode s a) (hstep : step newMode s a = some t) :
    t.tasks.Held := by
  have htasks := step_tasks hstep
  generalize t.tasks = tasks at htasks ⊢
  cases htasks with
  | same _ => exact h
  | start k hk =>
      have hfree := hok k hk
      rw [isBackfillRunning_account] at hfree
      exact h.start hfree
  | finish i hi _ => exact h.finish hi
  | callback i hdone _ => exact h.callback hdone

/-- A registration that does not keep to the condition makes two tasks of a key. -/
theorem two_of_not_registersFree (hnot : ¬ registersFree newMode s a) (hstep : step newMode s a = some t) :
    ¬ t.tasks.AtMostOne := by
  unfold registersFree at hnot
  push Not at hnot
  obtain ⟨k, hk, hrunning⟩ := hnot
  rw [isBackfillRunning_account, ne_eq, Bool.not_eq_false] at hrunning
  have htasks := step_tasks hstep
  generalize t.tasks = tasks at htasks ⊢
  cases htasks with
  | start k' hk' =>
      obtain rfl := Option.some.inj (hk.symm.trans hk')
      exact Tasks.not_atMostOne_start hrunning
  | same hnone => exact absurd (hk.symm.trans hnone) (Option.some_ne_none k)
  | finish _ _ hnone => exact absurd (hk.symm.trans hnone) (Option.some_ne_none k)
  | callback _ _ hnone => exact absurd (hk.symm.trans hnone) (Option.some_ne_none k)

theorem run_held (h : Run (step newMode) (registersFree newMode) initial s) : s.tasks.Held :=
  h.invariant (P := fun s => s.tasks.Held) (fun _ _ _ hs hok hstep => held_step hs hok hstep) Tasks.held_empty

/-! ## Both messengers -/

/-- **One backfill.** While each registration keeps to the condition, no account and chat has two unfinished tasks
    and the registry answers for each; the first one that does not makes two. -/
theorem one_backfill_per_chat (newMode : Bool) (m : MaxSync.Starts.State) (s : State) :
    (Run MaxSync.Starts.step MaxSync.Starts.registersFree MaxSync.Starts.initial m →
      OneBackfill m.tasks ∧ ∀ a t, ¬ MaxSync.Starts.registersFree m a → MaxSync.Starts.step m a = some t →
        ¬ OneBackfill t.tasks) ∧
      (Run (step newMode) (registersFree newMode) initial s →
        OneBackfill s.tasks ∧ ∀ a t, ¬ registersFree newMode s a → step newMode s a = some t →
          ¬ OneBackfill t.tasks) := by
  refine ⟨fun h => ⟨oneBackfill_of_held (MaxSync.Starts.run_held h), fun a t hnot hstep hone => ?_⟩,
    fun h => ⟨oneBackfill_of_held (run_held h), fun a t hnot hstep hone => ?_⟩⟩
  · exact MaxSync.Starts.two_of_not_registersFree hnot hstep hone.atMostOne
  · exact two_of_not_registersFree hnot hstep hone.atMostOne

/-- A second backward call finds the first one's task. -/
theorem one_backfill_per_chat_second :
    ∃ s, Run MaxSync.Starts.step MaxSync.Starts.registersFree MaxSync.Starts.initial s ∧
      s.calls 1 = .answered (.alreadyRunning 5) ∧ OneBackfill s.tasks := by
  have hend : (execOk MaxSync.Starts.step (fun _ a => match a with | .call .. => true | _ => false)
      MaxSync.Starts.initial [.call 0 1 ⟨5, 100, .backward, none⟩ true, .call 1 1 ⟨5, 50, .backward, some 7⟩ true]).map
        (fun s => s.calls 1) = some (.answered (.alreadyRunning 5)) := by decide +kernel
  obtain ⟨s, hs, hanswer⟩ := Option.map_eq_some_iff.mp hend
  have hrun : Run MaxSync.Starts.step MaxSync.Starts.registersFree MaxSync.Starts.initial s := by
    refine Run.of_execOk (fun x a hok => ?_) hs
    cases a with
    | call c accountId req client => trivial
    | _ => cases hok
  exact ⟨s, hrun, hanswer, ((one_backfill_per_chat false s initial).1 hrun).1⟩

/-- Two calls for one chat, forward at MAX. -/
def bothForward : List MaxSync.Starts.Action :=
  [.call 0 1 ⟨5, 100, .forward, none⟩ true, .call 1 1 ⟨5, 100, .forward, none⟩ true,
    .cursorRead 0 true, .cursorRead 1 true]

/-- Two calls for one chat at Telegram, in the legacy mode. -/
def bothChecked : List Action :=
  [.call 0 ⟨5, 100, "work", .backward⟩, .call 1 ⟨5, 100, "work", .backward⟩, .gotSession 0 (some 1) true,
    .gotSession 1 (some 1) true, .authorized 0 true, .authorized 1 true]

/-- The same in the new mode. -/
def bothConfirmed : List Action := bothChecked ++ [.confirmed 0 true, .confirmed 1 true]

/-- The later task ends first, and its callback leaves the earlier one without an entry. -/
def laterEnds : List MaxSync.Starts.Action := bothForward ++ [.finish 1, .callback 1]

theorem two_backfills {κ : Type} [DecidableEq κ] {tasks : Tasks κ} {k : κ} (hkeys : tasks.keys = [k, k])
    (hfinished : tasks.finished = []) : ¬ tasks.AtMostOne := by
  intro hone
  have hfirst : tasks.Unfinished 0 k := ⟨by rw [hkeys]; rfl, by rw [hfinished]; exact List.not_mem_nil⟩
  have hsecond : tasks.Unfinished 1 k := ⟨by rw [hkeys]; rfl, by rw [hfinished]; exact List.not_mem_nil⟩
  exact absurd (hone 0 1 k hfirst hsecond) (by decide)

/-- Without the condition an account and chat has two unfinished tasks, at MAX and in both modes of Telegram, and
    a task runs for which the registry says no. -/
theorem second_backfill_starts :
    (¬ ∀ s, Run MaxSync.Starts.step Always MaxSync.Starts.initial s → s.tasks.AtMostOne) ∧
      (¬ ∀ s, Run (step false) Always initial s → s.tasks.AtMostOne) ∧
      (¬ ∀ s, Run (step true) Always initial s → s.tasks.AtMostOne) ∧
      ¬ ∀ s, Run MaxSync.Starts.step Always MaxSync.Starts.initial s → ∀ i account chatId,
        s.tasks.Unfinished i (account, chatId) → isBackfillRunning s.tasks chatId (some account) = true := by
  refine ⟨fun hall => ?_, fun hall => ?_, fun hall => ?_, fun hall => ?_⟩
  · have hend : (exec MaxSync.Starts.step MaxSync.Starts.initial bothForward).map
        (fun s => (s.tasks.keys, s.tasks.finished)) = some ([(1, 5), (1, 5)], []) := by decide +kernel
    obtain ⟨s, hs, heq⟩ := Option.map_eq_some_iff.mp hend
    obtain ⟨hkeys, hfinished⟩ := Prod.mk.inj heq
    exact two_backfills hkeys hfinished (hall s (Run.of_exec hs))
  · have hend : (exec (step false) initial bothChecked).map (fun s => (s.tasks.keys, s.tasks.finished))
        = some ([(.id 1, 5), (.id 1, 5)], []) := by decide +kernel
    obtain ⟨s, hs, heq⟩ := Option.map_eq_some_iff.mp hend
    obtain ⟨hkeys, hfinished⟩ := Prod.mk.inj heq
    exact two_backfills hkeys hfinished (hall s (Run.of_exec hs))
  · have hend : (exec (step true) initial bothConfirmed).map (fun s => (s.tasks.keys, s.tasks.finished))
        = some ([(.id 1, 5), (.id 1, 5)], []) := by decide +kernel
    obtain ⟨s, hs, heq⟩ := Option.map_eq_some_iff.mp hend
    obtain ⟨hkeys, hfinished⟩ := Prod.mk.inj heq
    exact two_backfills hkeys hfinished (hall s (Run.of_exec hs))
  · have hend : (exec MaxSync.Starts.step MaxSync.Starts.initial laterEnds).map
        (fun s => (s.tasks.keys, s.tasks.finished, isBackfillRunning s.tasks 5 (some 1)))
          = some ([(1, 5), (1, 5)], [1], false) := by decide +kernel
    obtain ⟨s, hs, heq⟩ := Option.map_eq_some_iff.mp hend
    obtain ⟨hkeys, hrest⟩ := Prod.mk.inj heq
    obtain ⟨hfinished, hnot⟩ := Prod.mk.inj hrest
    have hfirst : s.tasks.Unfinished 0 (1, 5) := ⟨by rw [hkeys]; rfl, by rw [hfinished]; decide⟩
    exact absurd ((hall s (Run.of_exec hs) 0 1 5 hfirst).symm.trans hnot) (by decide)

end MyPerson.Telegram.Starts
