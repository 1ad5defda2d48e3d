import MyPerson.MaxSync.Alone
import MyPerson.MaxSync.Forward

/-!
# `MaxSync.Failures` — what a failed store leaves behind

`_store` logs an error and the call goes on, and every later success moves the newest cursor on its own. So
a message whose store failed is fetched again only as long as nothing at or after its time is stored, and a
page of a chat without a row needs one success: otherwise `move_oldest` of the new store writes a row
without `newest_time_ms`, from which `_forward` cannot start, and the legacy one raises.

## Contents
- `NoPermanentHole`; the condition `storesMeet`;
- `Kept` and its steps;
- `Usable`: the next `catch_up` ends;
- the run.
-/

namespace MyPerson.MaxSync.Alone

open Lib Repo MaxIngest

/-! ## Statements -/

/-- The message that the call stores next. -/
def State.pending (s : State) : Option Msg := s.call.bind fun call => call.job.pending.map Prod.fst

/-- The steps of a call, with stores that succeed. -/
def ownSteps (_ : State) : Action → Prop
  | .fetch _ _ => True
  | .store ok => ok = true
  | .next => True
  | _ => False

/-- `catch_up` of the chat begins. -/
def startsCatchUp : Action → Prop
  | .seed _ => True
  | .catchUp => True
  | _ => False

/-- `catch_up` of the chat is through, without an exception. -/
def Through (s : State) : Prop := s.call = none ∧ s.caughtUp = true ∧ s.raised = false

structure NoPermanentHole (seedSize : Nat) (s : State) : Prop where
  /-- What failed above the cursor is fetched again. -/
  refetched : ∀ m ∈ s.missed, ∀ n, s.newest = some n → n.time < m.time
  notRaised : s.raised = false
  /-- The next `catch_up` can begin and ends without raising. -/
  nextEnds : s.call = none →
    (∃ a t, startsCatchUp a ∧ step seedSize s a = some t) ∧
      ∀ a t, startsCatchUp a → step seedSize s a = some t → Inevitable (step seedSize) ownSteps Through t

/-- The message lies before all that failed and was not stored since. -/
def Passes (s : State) (m : Msg) : Prop := ∀ x ∈ s.missed, x.id ≠ m.id → m.time < x.time

/-- Which stores may fail. A success that may move the cursor lies before every message that failed and was
    not stored since; a failure above the cursor of its call lies above the present one too; and at the end of
    a page the chat has a row, unless it is a page of a legacy backfill. -/
def storesMeet (s : State) : Action → Prop
  | .live m ok => ok = true → s.caughtUp = true → Passes s m
  | .store ok =>
      ∀ call, s.call = some call → ∀ m, s.pending = some m →
        if ok then Passes s m
        else call.previous.all (· < m.time) = true → ∀ n, s.newest = some n → n.time < m.time
  | .next => s.row = none → s.newMode = false ∧ ∀ call, s.call = some call → call.catchUp = false
  | _ => True

/-! ## Stores -/

variable {s t : State} {seedSize : Nat} {m : Msg} {call : Call} {previous : Option Int} {adv ok : Bool}

theorem newest_advance (row : Option Cursor) (x : Mark) :
    (advance row x).newest = some x ∨ ∃ n, row.bind Cursor.newest = some n ∧ (advance row x).newest = some n := by
  unfold advance
  cases row with
  | none => exact Or.inl rfl
  | some cursor =>
      cases hn : cursor.newest with
      | none => exact Or.inl (by simp [hn])
      | some n =>
          by_cases hlt : n.time < x.time
          · exact Or.inl (by simp [hn, hlt])
          · exact Or.inr ⟨n, by simp [hn], by simp [hn, hlt]⟩

theorem newest_moveOldest (row : Option Cursor) (x : Mark) :
    (MaxSync.moveOldest row x).newest = row.bind Cursor.newest := by
  unfold MaxSync.moveOldest
  cases row with
  | none => rfl
  | some cursor =>
      cases ho : cursor.oldest with
      | none => simp [ho]
      | some o => by_cases hlt : x.time < o.time <;> simp [ho, hlt]

/-- What the cursor and the calls need of a state. -/
structure Kept (s : State) : Prop where
  refetched : ∀ m ∈ s.missed, ∀ n, s.newest = some n → n.time < m.time
  notRaised : s.raised = false
  row : ∀ row, s.row = some row → row.newest ≠ none
  cursor : ∀ call, s.call = some call → ∀ limit stored cursor seen,
    call.job = .forward limit stored cursor seen → cursor ≠ none

theorem kept_initial (newMode : Bool) : Kept (initial newMode) := by
  refine ⟨?_, rfl, ?_, ?_⟩
  · intro m hm
    cases hm
  · intro row hrow
    cases hrow
  · intro call hcall
    cases hcall

/-- **Store.** A store that keeps to the condition leaves what failed above the cursor. -/
theorem Kept.store (h : Kept s) (hsuccess : ok = true → adv = true → Passes s m)
    (hfailure : ok = false → previous.all (· < m.time) = true → ∀ n, s.newest = some n → n.time < m.time) :
    Kept (s.store m previous adv ok) := by
  cases ok with
  | false =>
      unfold State.store
      rw [if_neg (by decide)]
      by_cases habove : previous.all (· < m.time) = true
      · rw [if_pos habove]
        refine ⟨fun x hx n hn => ?_, h.notRaised, h.row, h.cursor⟩
        rcases List.mem_cons.mp hx with rfl | hold
        · exact hfailure rfl habove n hn
        · exact h.refetched x hold n hn
      · rw [if_neg habove]
        exact h
  | true =>
      unfold State.store
      rw [if_pos rfl]
      cases adv with
      | false =>
          refine ⟨fun x hx n hn => ?_, h.notRaised, h.row, h.cursor⟩
          exact h.refetched x (List.mem_filter.mp hx).1 n hn
      | true =>
          have hcases := newest_advance s.row ⟨m.time, m.id⟩
          refine ⟨fun x hx n hn => ?_, h.notRaised, fun row hrow => ?_, h.cursor⟩
          · obtain ⟨hold, hne⟩ := List.mem_filter.mp hx
            have hn' : (advance s.row ⟨m.time, m.id⟩).newest = some n := hn
            rcases hcases with hnew | ⟨n', hn'', hkept⟩
            · obtain rfl := Option.some.inj (hnew.symm.trans hn')
              exact hsuccess rfl rfl x hold (by simpa using hne)
            · obtain rfl := Option.some.inj (hkept.symm.trans hn')
              exact h.refetched x hold n' hn''
          · obtain rfl : advance s.row ⟨m.time, m.id⟩ = row := Option.some.inj hrow
            rcases hcases with hnew | ⟨n', -, hkept⟩
            · rw [hnew]
              exact Option.some_ne_none _
            · rw [hkept]
              exact Option.some_ne_none _

/-! ## Steps -/

theorem Kept.done (h : Kept s) (call : Call) : Kept (s.done call) := by
  refine ⟨h.refetched, ?_, h.row, fun _ hcall => nomatch hcall⟩
  show (s.raised && !call.catchUp) = false
  rw [h.notRaised]
  rfl

theorem Kept.finish (h : Kept s) (fullySynced : Option Bool) : Kept (s.finish fullySynced) :=
  ⟨h.refetched, h.notRaised, h.row, h.cursor⟩

theorem Kept.goOn (h : Kept s) (call : Call) {job : Job}
    (hjob : ∀ limit stored cursor seen, job = .forward limit stored cursor seen → cursor ≠ none) :
    Kept (s.goOn call job) := by
  refine ⟨h.refetched, h.notRaised, h.row, fun call' hcall => ?_⟩
  obtain rfl := Option.some.inj hcall
  exact hjob

theorem Kept.forwardLoop (h : Kept s) (call : Call) (limit stored : Nat) {cursor : Option Int} (seen : List Int)
    (hcursor : cursor ≠ none) : Kept (forwardLoop s call limit stored cursor seen) := by
  unfold Alone.forwardLoop
  split
  · apply h.goOn
    intro _ _ _ _ hjob
    cases hjob
    exact hcursor
  · exact (h.finish none).done call

theorem Kept.backwardLoop (h : Kept s) (call : Call) (limit stored : Nat) (stop cursor : Option Int) :
    Kept (backwardLoop s call limit stored stop cursor) := by
  unfold Alone.backwardLoop
  split
  · exact h.goOn call fun _ _ _ _ hjob => nomatch hjob
  · exact (h.finish _).done call

theorem Kept.startForward (h : Kept s) {cursor : Cursor} (hrow : s.row = some cursor) (limit : Nat) (catchUp : Bool) :
    Kept (s.startForward cursor limit catchUp) := by
  apply h.forwardLoop
  have hnewest := h.row cursor hrow
  cases hn : cursor.newest with
  | none => exact absurd hn hnewest
  | some n => exact Option.some_ne_none _

theorem Kept.moveOldest (h : Kept s) {x : Mark} (hrow : s.row ≠ none) (hmove : s.moveOldest x = some t) : Kept t := by
  obtain rfl := moveOldest_some hmove
  refine ⟨fun m hm n hn => ?_, h.notRaised, fun row hrow' => ?_, h.cursor⟩
  · have hn' : (MaxSync.moveOldest s.row x).newest = some n := hn
    rw [newest_moveOldest] at hn'
    exact h.refetched m hm n hn'
  · obtain rfl : MaxSync.moveOldest s.row x = row := Option.some.inj hrow'
    rw [newest_moveOldest]
    cases hr : s.row with
    | none => exact absurd hr hrow
    | some cursor => exact h.row cursor hr

theorem pending_not_forward {job : Job} {after : Bool → Job} (h : job.pending = some (m, after)) {limit stored : Nat}
    {cursor : Option Int} {seen : List Int} : after ok ≠ .forward limit stored cursor seen := by
  unfold Job.pending at h
  split at h
  · cases h
    exact fun hc => nomatch hc
  · cases h
    exact fun hc => nomatch hc
  · cases h
    exact fun hc => nomatch hc
  · cases h

/-- A page of a chat without a row does not get to move the oldest cursor. -/
theorem row_of_moved (hok : storesMeet s .next) {x : Mark} (hmove : s.moveOldest x = some t) : s.row ≠ none := by
  intro hrow
  have hmode := (hok hrow).1
  unfold State.moveOldest at hmove
  rw [if_pos ⟨hmode, hrow⟩] at hmove
  cases hmove

/-- **Step.** What the condition allows leaves what failed above the cursor, and no `catch_up` raises. -/
theorem kept_step {a : Action} (h : Kept s) (hok : storesMeet s a) (hstep : step seedSize s a = some t) : Kept t := by
  cases a with
  | post m =>
      obtain ⟨-, heq⟩ := Option.ite_none_right_eq_some.mp hstep
      obtain rfl := Option.some.inj heq
      exact ⟨h.refetched, h.notRaised, h.row, h.cursor⟩
  | drop =>
      obtain rfl := Option.some.inj hstep
      exact ⟨h.refetched, h.notRaised, h.row, fun _ hcall => nomatch hcall⟩
  | live m ok =>
      obtain ⟨-, heq⟩ := Option.ite_none_right_eq_some.mp hstep
      obtain rfl := Option.some.inj heq
      refine h.store hok fun _ habove n hn => ?_
      rw [State.newestTime, hn] at habove
      exact of_decide_eq_true habove
  | seed page =>
      obtain ⟨-, heq⟩ := Option.ite_none_right_eq_some.mp hstep
      obtain rfl := Option.some.inj heq
      unfold State.startSeed
      dsimp only
      split
      · exact h.done _
      · exact h.goOn _ fun _ _ _ _ hjob => nomatch hjob
  | catchUp =>
      obtain ⟨-, hmap⟩ := Option.ite_none_right_eq_some.mp hstep
      obtain ⟨cursor, hrow, rfl⟩ := Option.map_eq_some_iff.mp hmap
      exact h.startForward hrow catchupLimit true
  | forward limit =>
      obtain ⟨-, hmap⟩ := Option.ite_none_right_eq_some.mp hstep
      obtain ⟨cursor, hrow, rfl⟩ := Option.map_eq_some_iff.mp hmap
      exact h.startForward hrow limit false
  | backward limit stop =>
      obtain ⟨-, heq⟩ := Option.ite_none_right_eq_some.mp hstep
      obtain rfl := Option.some.inj heq
      exact h.backwardLoop ..
  | fetch now page =>
      obtain ⟨call, hcall, hcases⟩ := fetch_cases hstep
      rcases hcases with ⟨limit, stored, cursor, seen, hjob, -, rfl⟩ | ⟨limit, stored, stop, cursor, -, -, rfl⟩
      · unfold State.forwardPage
        cases hcursor : cursor with
        | none => exact absurd hcursor (h.cursor call hcall limit stored cursor seen hjob)
        | some c =>
            dsimp only
            split
            · exact (h.finish none).done call
            · exact h.goOn call fun _ _ _ _ hjob => nomatch hjob
      · unfold State.backwardPage
        dsimp only
        split
        · exact (h.finish _).done call
        · split
          · exact (h.finish _).done call
          · exact h.goOn call fun _ _ _ _ hjob => nomatch hjob
  | store ok =>
      obtain ⟨call, m, after, hcall, hpending, rfl⟩ := storeNext_cases hstep
      have hnext : s.pending = some m := by
        unfold State.pending
        rw [hcall, Option.bind_some, hpending]
        rfl
      have hthis := hok call hcall m hnext
      have hstored : Kept (s.store m call.previous true ok) := by
        refine h.store ?_ ?_
        · rintro rfl _
          exact hthis
        · rintro rfl
          exact hthis
      refine ⟨hstored.refetched, hstored.notRaised, hstored.row, fun call' hcall' => ?_⟩
      obtain rfl := Option.some.inj hcall'
      exact fun limit stored cursor seen hjob => absurd hjob (pending_not_forward hpending)
  | next =>
      obtain ⟨call, hcall, hend⟩ := endPage_cases hstep
      cases hend with
      | seed _ hmove =>
          exact (h.moveOldest (row_of_moved hok hmove) hmove).done call
      | forward _ _ => exact h.forwardLoop _ _ _ _ (Option.some_ne_none _)
      | backward _ _ hmove =>
          have hmoved := h.moveOldest (row_of_moved hok hmove) hmove
          split
          · exact (hmoved.finish _).done call
          · exact hmoved.backwardLoop ..
      | raises _ hrow _ =>
          refine ⟨h.refetched, ?_, h.row, fun _ hcall => nomatch hcall⟩
          show (s.raised || call.catchUp) = false
          rw [h.notRaised, (hok hrow).2 call hcall]
          rfl

/-! ## The next `catch_up` -/

/-- Where a `catch_up` stands whose stores succeed. -/
def CatchUpOk (s : State) : Job → Prop
  | .seedStore page left => page ≠ [] ∧ (s.row = none → left = page)
  | .forward limit stored cursor _ => stored < limit ∧ cursor ≠ none
  | .forwardStore limit stored left newer => newer ≠ [] ∧ left.length ≤ limit - stored
  | _ => False

/-- A `catch_up` under way, or through. -/
structure Usable (s : State) : Prop where
  notRaised : s.raised = false
  ended : s.call = none → s.caughtUp = true
  call : ∀ call, s.call = some call → call.catchUp = true ∧ CatchUpOk s call.job

/-- How much is left to do: a store of `_forward` brings the limit closer. -/
def todo : Option Job → Nat
  | some (.seedStore _ left) => left.length + 1
  | some (.forward limit stored _ _) => 3 * (limit - stored) + 1
  | some (.forwardStore limit stored left _) => 3 * (limit - stored - left.length) + left.length + 2
  | _ => 0

theorem Usable.through (h : Usable s) (hcall : s.call = none) : Through s := ⟨hcall, h.ended hcall, h.notRaised⟩

/-- A `catch_up` that returns is through. -/
theorem usable_done (hraised : s.raised = false) (hcatchUp : call.catchUp = true) : Usable (s.done call) := by
  refine ⟨?_, fun _ => ?_, fun _ hcall => nomatch hcall⟩
  · show (s.raised && !call.catchUp) = false
    rw [hraised]
    rfl
  · show (s.caughtUp || call.catchUp) = true
    rw [hcatchUp, Bool.or_true]

theorem usable_goOn (hraised : s.raised = false) (hcatchUp : call.catchUp = true) {job : Job} (hjob : CatchUpOk s job) :
    Usable (s.goOn call job) := by
  refine ⟨hraised, fun hcall => (nomatch hcall), fun call' hcall => ?_⟩
  obtain rfl := Option.some.inj hcall
  refine ⟨hcatchUp, ?_⟩
  cases job <;> exact hjob

theorem usable_forwardLoop (hraised : s.raised = false) (hcatchUp : call.catchUp = true) (limit stored : Nat)
    {cursor : Option Int} (seen : List Int) (hcursor : cursor ≠ none) :
    Usable (forwardLoop s call limit stored cursor seen) ∧
      todo ((forwardLoop s call limit stored cursor seen).call.map Call.job) ≤ 3 * (limit - stored) + 1 := by
  unfold forwardLoop
  by_cases hlt : stored < limit
  · rw [if_pos hlt]
    exact ⟨usable_goOn hraised hcatchUp ⟨hlt, hcursor⟩, Nat.le_refl _⟩
  · rw [if_neg hlt]
    exact ⟨usable_done (s := s.finish none) hraised hcatchUp, Nat.zero_le _⟩

/-- Until it is through, a `catch_up` goes on. -/
theorem Usable.more (h : Usable s) (hnot : ¬ Through s) : ∃ a t, ownSteps s a ∧ step seedSize s a = some t := by
  cases hcall : s.call with
  | none => exact absurd (h.through hcall) hnot
  | some call =>
      obtain ⟨-, hjob⟩ := h.call call hcall
      cases hpending : call.job.pending with
      | some p =>
          have hstore : s.storeNext true = some { s.store p.1 call.previous true true with
              call := some { call with job := p.2 true } } := by
            unfold State.storeNext
            rw [hcall, Option.bind_some, hpending]
            rfl
          exact ⟨.store true, _, rfl, hstore⟩
      | none =>
          obtain ⟨job, previous, catchUp⟩ := call
          cases job with
          | seedStore page left =>
              cases left with
              | cons m left => cases hpending
              | nil =>
                  obtain ⟨oldest, holdest⟩ : ∃ oldest, (sortByTime Msg.time page).head? = some oldest := by
                    have hlen := (sortByTime_perm page : (sortByTime Msg.time page).Perm page).length_eq
                    cases hsorted : sortByTime Msg.time page with
                    | nil =>
                        rw [hsorted] at hlen
                        exact absurd (List.length_eq_zero_iff.mp hlen.symm) hjob.1
                    | cons oldest rest => exact ⟨oldest, rfl⟩
                  obtain ⟨t, ht⟩ : ∃ t, s.endPage = some t := by
                    unfold State.endPage
                    rw [hcall, Option.bind_some]
                    dsimp only
                    rw [holdest]
                    exact ⟨_, rfl⟩
                  exact ⟨.next, t, trivial, ht⟩
          | forward limit stored cursor seen =>
              obtain ⟨t, ht⟩ : ∃ t, s.fetch 0 (oldestFrom Msg.time s.history (cursor.getD 0)
                  (pageOf (limit - stored) true)) = some t := by
                unfold State.fetch
                rw [hcall, Option.bind_some]
                exact ⟨_, if_pos (List.Perm.refl _)⟩
              exact ⟨.fetch 0 _, t, trivial, ht⟩
          | forwardStore limit stored left newer =>
              cases left with
              | cons m left => cases hpending
              | nil =>
                  obtain ⟨newest, hnewest⟩ : ∃ newest, (sortByTime Msg.time newer).getLast? = some newest := by
                    refine ⟨_, List.getLast?_eq_some_getLast fun hnil => hjob.1 ?_⟩
                    have hlen := (sortByTime_perm newer : (sortByTime Msg.time newer).Perm newer).length_eq
                    rw [hnil] at hlen
                    exact List.length_eq_zero_iff.mp hlen.symm
                  obtain ⟨t, ht⟩ : ∃ t, s.endPage = some t := by
                    unfold State.endPage
                    rw [hcall, Option.bind_some]
                    dsimp only
                    rw [hnewest]
                    exact ⟨_, rfl⟩
                  exact ⟨.next, t, trivial, ht⟩
          | _ => exact hjob.elim

theorem catchUpOk_after (previous : Option Int) {job : Job} {after : Bool → Job} (hjob : CatchUpOk s job)
    (hpending : job.pending = some (m, after)) : CatchUpOk (s.store m previous true true) (after true) := by
  cases job with
  | seedStore page left =>
      cases left with
      | nil => cases hpending
      | cons _ left =>
          cases hpending
          exact ⟨hjob.1, fun hnone => nomatch hnone⟩
  | forwardStore limit stored left newer =>
      cases left with
      | nil => cases hpending
      | cons _ left =>
          cases hpending
          obtain ⟨hne, hlen⟩ := hjob
          rw [List.length_cons] at hlen
          exact ⟨hne, show left.length ≤ limit - (stored + 1) by omega⟩
  | forward _ _ _ _ => cases hpending
  | _ => exact hjob.elim

theorem todo_after {job : Job} {after : Bool → Job} (hjob : CatchUpOk s job)
    (hpending : job.pending = some (m, after)) : todo (some (after true)) < todo (some job) := by
  cases job with
  | seedStore page left =>
      cases left with
      | nil => cases hpending
      | cons _ left =>
          cases hpending
          exact Nat.lt_succ_self _
  | forwardStore limit stored left newer =>
      cases left with
      | nil => cases hpending
      | cons _ left =>
          cases hpending
          show 3 * (limit - (stored + 1) - left.length) + left.length + 2
            < 3 * (limit - stored - (left.length + 1)) + (left.length + 1) + 2
          omega
  | forward _ _ _ _ => cases hpending
  | _ => exact hjob.elim

/-- **Progress.** A step of a `catch_up` whose stores succeed leaves less to do. -/
theorem Usable.step {a : Action} (h : Usable s) (hown : ownSteps s a) (hstep : step seedSize s a = some t) :
    Usable t ∧ todo (t.call.map Call.job) < todo (s.call.map Call.job) := by
  cases a with
  | fetch now page =>
      obtain ⟨call, hcall, hcases⟩ := fetch_cases hstep
      obtain ⟨hcatchUp, hjobOk⟩ := h.call call hcall
      rcases hcases with ⟨limit, stored, cursor, seen, hjob, -, rfl⟩ | ⟨limit, stored, stop, cursor, hjob, -, -⟩
      · rw [hjob] at hjobOk
        obtain ⟨hlt, hcursor⟩ := hjobOk
        rw [hcall, Option.map_some, hjob]
        cases cursor with
        | none => exact absurd rfl hcursor
        | some c =>
            unfold State.forwardPage
            dsimp only
            by_cases hempty : (newerThan c seen page).isEmpty = true
            · rw [if_pos hempty]
              exact ⟨usable_done (s := s.finish none) h.notRaised hcatchUp, Nat.succ_pos _⟩
            · rw [if_neg hempty]
              have hne : newerThan c seen page ≠ [] := fun hnil => hempty (List.isEmpty_iff.mpr hnil)
              have hpos := List.length_pos_iff.mpr hne
              have hlen := (sortByTime_perm (newerThan c seen page) :
                (sortByTime Msg.time (newerThan c seen page)).Perm _).length_eq
              have hleft : ((sortByTime Msg.time (newerThan c seen page)).take (limit - stored)).length
                  = min (limit - stored) (newerThan c seen page).length := by
                rw [List.length_take, hlen]
              refine ⟨usable_goOn h.notRaised hcatchUp ⟨hne, by rw [hleft]; omega⟩, ?_⟩
              show 3 * (limit - stored - _) + _ + 2 < 3 * (limit - stored) + 1
              rw [hleft]
              omega
      · rw [hjob] at hjobOk
        exact hjobOk.elim
  | store ok =>
      obtain rfl : ok = true := hown
      obtain ⟨call, m, after, hcall, hpending, rfl⟩ := storeNext_cases hstep
      obtain ⟨hcatchUp, hjobOk⟩ := h.call call hcall
      rw [hcall, Option.map_some]
      refine ⟨⟨h.notRaised, fun hnone => (nomatch hnone), fun call' hcall' => ?_⟩, ?_⟩
      · obtain rfl := Option.some.inj hcall'
        exact ⟨hcatchUp, catchUpOk_after call.previous hjobOk hpending⟩
      · exact todo_after hjobOk hpending
  | next =>
      obtain ⟨call, hcall, hend⟩ := endPage_cases hstep
      obtain ⟨hcatchUp, hjobOk⟩ := h.call call hcall
      rw [hcall, Option.map_some]
      cases hend with
      | seed hjob hmove =>
          obtain rfl := moveOldest_some hmove
          rw [hjob]
          exact ⟨usable_done h.notRaised hcatchUp, Nat.succ_pos _⟩
      | forward hjob _ =>
          obtain ⟨husable, hless⟩ := usable_forwardLoop h.notRaised hcatchUp _ _ _ (Option.some_ne_none _)
          rw [hjob]
          refine ⟨husable, Nat.lt_of_le_of_lt hless ?_⟩
          show _ < 3 * (_ - _ - 0) + 0 + 2
          omega
      | backward hjob _ _ =>
          rw [hjob] at hjobOk
          exact hjobOk.elim
      | raises _ hrow hjob =>
          rcases hjob with ⟨page, hjob⟩ | ⟨limit, stored, stop, inRange, past, hjob⟩
          · -- without a row nothing of the page is stored, but all of it was
            rw [hjob] at hjobOk
            exact absurd (hjobOk.2 hrow).symm hjobOk.1
          · rw [hjob] at hjobOk
            exact hjobOk.elim
  | _ => exact hown.elim

/-- A `catch_up` that began with a row that has a newest time, or without a row. -/
theorem usable_start {a : Action} (h : Kept s) (ha : startsCatchUp a) (hstep : step seedSize s a = some t) :
    Usable t := by
  cases a with
  | seed page =>
      obtain ⟨⟨-, hrow, -⟩, heq⟩ := Option.ite_none_right_eq_some.mp hstep
      obtain rfl := Option.some.inj heq
      unfold State.startSeed
      dsimp only
      by_cases hempty : page.isEmpty = true
      · rw [if_pos hempty]
        exact usable_done h.notRaised rfl
      · rw [if_neg hempty]
        exact usable_goOn h.notRaised rfl ⟨fun hnil => hempty (List.isEmpty_iff.mpr hnil), fun _ => rfl⟩
  | catchUp =>
      obtain ⟨-, hmap⟩ := Option.ite_none_right_eq_some.mp hstep
      obtain ⟨cursor, hrow, rfl⟩ := Option.map_eq_some_iff.mp hmap
      refine (usable_forwardLoop h.notRaised rfl _ _ _ ?_).1
      cases hn : cursor.newest with
      | none => exact absurd hn (h.row cursor hrow)
      | some n => exact Option.some_ne_none _
  | _ => exact ha.elim

/-- Between two calls a `catch_up` can begin. -/
theorem start_possible (hcall : s.call = none) : ∃ a t, startsCatchUp a ∧ step seedSize s a = some t := by
  cases hrow : s.row with
  | none => exact ⟨.seed _, _, trivial, if_pos ⟨hcall, hrow, List.Perm.refl _⟩⟩
  | some cursor =>
      refine ⟨.catchUp, s.startForward cursor catchupLimit true, trivial, ?_⟩
      show (if s.call = none then _ else none) = _
      rw [if_pos hcall, hrow, Option.map_some]

theorem Kept.noPermanentHole (h : Kept s) : NoPermanentHole seedSize s := by
  refine ⟨h.refetched, h.notRaised, fun hcall => ⟨start_possible hcall, fun a t ha hstep => ?_⟩⟩
  refine Inevitable.of_measure (P := Usable) (fun s => todo (s.call.map Call.job)) ?_ ?_ (usable_start h ha hstep)
  · exact fun u hu hnot => hu.more hnot
  · exact fun u a v hu _ hown hnext => hu.step hown hnext

/-! ## Runs -/

/-- **Failed stores.** In every state of a run whose stores keep to the condition, the cursor lies before every
    message above it whose store failed, and the next `catch_up` of the chat ends without raising. -/
theorem no_permanent_hole (seedSize : Nat) (newMode : Bool) (s : State)
    (h : Run (step seedSize) storesMeet (initial newMode) s) : NoPermanentHole seedSize s :=
  (h.invariant (fun _ _ _ hs hok hstep => kept_step hs hok hstep) (kept_initial newMode)).noPermanentHole

instance (s : State) (m : Msg) : Decidable (Passes s m) := by
  unfold Passes
  infer_instance

instance (s : State) : (a : Action) → Decidable (storesMeet s a)
  | .live m ok => inferInstanceAs (Decidable (ok = true → s.caughtUp = true → Passes s m))
  | .store ok => inferInstanceAs (Decidable (∀ call, s.call = some call → ∀ m, s.pending = some m →
      if ok then Passes s m else call.previous.all (· < m.time) = true → ∀ n, s.newest = some n → n.time < m.time))
  | .next => inferInstanceAs (Decidable (s.row = none → s.newMode = false ∧
      ∀ call, s.call = some call → call.catchUp = false))
  | .post _ | .drop | .seed _ | .catchUp | .forward _ | .backward .. | .fetch .. => instDecidableTrue

/-- The only new message of a `catch_up` is not stored. -/
def lastFails : List Action :=
  [.post (noted 1 10), .seed [noted 1 10], .store true, .next, .post (noted 2 20),
    .catchUp, .fetch 0 [noted 1 10, noted 2 20], .store false, .next]

theorem no_permanent_hole_lastFails :
    ∃ s, Run (step 40) storesMeet (initial true) s ∧ s.missed = [noted 2 20] ∧ NoPermanentHole 40 s := by
  have hend : (execOk (step 40) (fun s a => decide (storesMeet s a)) (initial true) lastFails).map State.missed
      = some [noted 2 20] := by decide +kernel
  obtain ⟨s, hs, hmissed⟩ := Option.map_eq_some_iff.mp hend
  have hrun := Run.of_execOk (fun _ _ hok => of_decide_eq_true hok) hs
  exact ⟨s, hrun, hmissed, no_permanent_hole 40 true s hrun⟩

/-- Of two new messages the earlier one is not stored. -/
def firstFails : List Action :=
  [.post (noted 1 10), .seed [noted 1 10], .store true, .next, .post (noted 2 20), .post (noted 3 30),
    .catchUp, .fetch 0 [noted 1 10, noted 2 20, noted 3 30], .store false, .store true, .next]

/-- No message of the seed is stored. -/
def seedFails : List Action := [.post (noted 1 10), .seed [noted 1 10], .store false, .next]

/-- The next `catch_up` asks from now on and finds the message. -/
def afterSeedFails : List Action := seedFails ++ [.catchUp, .fetch 10 [noted 1 10]]

/-- Without the condition the cursor passes a message whose store failed, in both storage modes, and a seed
    without a success leaves a chat whose `catch_up` raises: the next one in the new mode, the seed itself in the
    legacy one. -/
theorem failed_store_passed :
    (¬ ∀ s, Run (step 40) Always (initial true) s → ∀ m ∈ s.missed, ∀ n, s.newest = some n → n.time < m.time) ∧
      (¬ ∀ s, Run (step 40) Always (initial false) s → ∀ m ∈ s.missed, ∀ n, s.newest = some n → n.time < m.time) ∧
      (¬ ∀ s, Run (step 40) Always (initial true) s → s.raised = false) ∧
      ¬ ∀ s, Run (step 40) Always (initial false) s → s.raised = false := by
  have hpassed : ∀ newMode, (exec (step 40) (initial newMode) firstFails).map (fun s => (s.missed, s.newest))
      = some ([noted 2 20], some ⟨30, 3⟩) := by decide +kernel
  have hskips : ∀ newMode, ¬ ∀ s, Run (step 40) Always (initial newMode) s →
      ∀ m ∈ s.missed, ∀ n, s.newest = some n → n.time < m.time := by
    intro newMode hall
    obtain ⟨s, hs, heq⟩ := Option.map_eq_some_iff.mp (hpassed newMode)
    obtain ⟨hmissed, hnewest⟩ := Prod.mk.inj heq
    have hlt := hall s (Run.of_exec hs) (noted 2 20) (by rw [hmissed]; exact List.mem_singleton_self _) _ hnewest
    exact absurd hlt (by decide)
  have hraises : ∀ newMode as, (exec (step 40) (initial newMode) as).map State.raised = some true →
      ¬ ∀ s, Run (step 40) Always (initial newMode) s → s.raised = false := by
    intro newMode as hend hall
    obtain ⟨s, hs, hraised⟩ := Option.map_eq_some_iff.mp hend
    exact absurd (hraised.symm.trans (hall s (Run.of_exec hs))) (by decide)
  exact ⟨hskips true, hskips false, hraises true afterSeedFails (by decide +kernel),
    hraises false seedFails (by decide +kernel)⟩

end MyPerson.MaxSync.Alone
