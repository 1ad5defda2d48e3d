import MyPerson.MaxSync.Alone
import MyPerson.MaxSync.Forward

/-!
# `MaxSync.Backward` — how far back the oldest cursor tells the truth

`_backward` asks for a page up to the millisecond of its cursor and drops what is not strictly older. So a
run goes on below a millisecond as if all of it were stored, and a page that shows this millisecond only
looks like the beginning of the chat. Where neither happens, all above the oldest cursor is stored, and all
of a chat that is called fully synced.

## Contents
- `BehindOldest`, `FullyStored`; the condition `pageMeets`;
- a page of `_backward` and what it holds;
- `Sound`, its steps and its run.
-/

namespace MyPerson.MaxSync.Alone

open Lib Repo MaxIngest

/-! ## Statements -/

/-- Backfills with stores that succeed. -/
def backfills (_ : State) : Action → Prop
  | .backward _ _ => True
  | .fetch _ _ => True
  | .store ok => ok = true
  | .next => True
  | _ => False

/-- A chat before its first backfill: any cursor, any stored messages, several messages of one time. -/
structure Fresh (s : State) : Prop where
  idle : s.call = none
  unsynced : s.fullySynced = false
  sorted : s.history.Pairwise fun a b => a.time ≤ b.time
  positive : ∀ m ∈ s.history, 0 < m.time

/-- Older than the starting point of the first run, or at it. -/
def From (start : Option Int) (m : Msg) : Prop := ∀ t, start = some t → m.time ≤ t

/-- The oldest cursor has passed no message that is not stored. -/
def BehindOldest (start : Option Int) (s : State) : Prop :=
  ∀ o, s.oldest = some o → ∀ m ∈ s.history, From start m → o.time < m.time → m.id ∈ s.stored

/-- A chat that a run has called fully synced is stored. -/
def FullyStored (start : Option Int) (s : State) : Prop :=
  s.fullySynced = true → ∀ m ∈ s.history, From start m → m.id ∈ s.stored

/-- A page that asks from a cursor, unless `days` lets none of it through: all of the cursor's millisecond is
    stored, and if the page shows nothing older, nothing older is missing. -/
def pageMeets (s : State) : Action → Prop
  | .fetch _ page =>
      match s.call with
      | some ⟨.backward limit stored stop (some t), _, _⟩ =>
          (olderThan (some t) page ≠ [] ∧ inRangeOf stop (limit - stored) (olderThan (some t) page) = []) ∨
            ((∀ m ∈ s.history, m.time = t → m.id ∈ s.stored) ∧
              (olderThan (some t) page = [] → ∀ m ∈ s.history, m.time < t → m.id ∈ s.stored))
      | _ => True
  | _ => True

/-! ## A page -/

variable {s s₀ t : State} {seedSize n remaining : Nat} {history page left inRange : List Msg}
  {stop cursor start : Option Int} {m x last : Msg} {call : Call}

theorem mem_olderThan : m ∈ olderThan cursor page ↔ m ∈ page ∧ ∀ t, cursor = some t → m.time < t := by
  unfold olderThan
  cases cursor <;> simp

theorem mem_inRangeOf (h : m ∈ inRangeOf stop remaining page) : m ∈ page ∧ ∀ t, stop = some t → t ≤ m.time := by
  have hmem := (sortByTimeDesc_perm _).mem_iff.mp (List.mem_of_mem_take h)
  obtain ⟨hpage, hstop⟩ := List.mem_filter.mp hmem
  refine ⟨hpage, fun t ht => ?_⟩
  subst ht
  simpa using hstop

/-- What is later than a message in range is in range too. -/
theorem mem_inRangeOf_of_lt (hx : x ∈ inRangeOf stop remaining page) (hm : m ∈ page) (hlt : x.time < m.time) :
    m ∈ inRangeOf stop remaining page := by
  have hstop := (mem_inRangeOf hx).2
  have hmem : m ∈ sortByTimeDesc Msg.time (page.filter fun m => stop.all fun t => t ≤ m.time) := by
    rw [(sortByTimeDesc_perm _).mem_iff, List.mem_filter]
    refine ⟨hm, ?_⟩
    cases stop with
    | none => rfl
    | some t =>
        have := hstop t rfl
        simpa using by omega
  have hsorted : (sortByTimeDesc Msg.time (page.filter fun m => stop.all fun t => t ≤ m.time)).Pairwise
      fun a b => -a.time ≤ -b.time := (sortByTimeDesc_sorted _).imp fun {a b} hle => by omega
  exact @mem_take_of_lt Msg (fun m => -m.time) _ _ _ _ hsorted hx hmem (by simpa using hlt)

/-- The messages in range come newest first. -/
theorem inRangeOf_sorted : (inRangeOf stop remaining page).Pairwise fun a b => b.time ≤ a.time :=
  (sortByTimeDesc_sorted _).sublist (List.take_sublist ..)

theorem head_latest (hsorted : left.Pairwise fun a b => b.time ≤ a.time) (hx : left.head? = some x) (hm : m ∈ left) :
    m.time ≤ x.time := by
  obtain ⟨rest, rfl⟩ := List.head?_eq_some_iff.mp hx
  rcases List.mem_cons.mp hm with rfl | hrest
  · exact Int.le_refl _
  · exact (List.pairwise_cons.mp hsorted).1 m hrest

/-- **Page.** What the chat has between the last message in range and the cursor is in range. -/
theorem mem_inRange (hsorted : history.Pairwise fun a b => a.time ≤ b.time)
    (hpage : page.Perm (newestUpTo Msg.time history cursor n))
    (hx : x ∈ inRangeOf stop remaining (olderThan cursor page)) (hm : m ∈ history) (hlt : x.time < m.time)
    (hbelow : ∀ t, cursor = some t → m.time < t) : m ∈ inRangeOf stop remaining (olderThan cursor page) := by
  have hxpage := (mem_olderThan.mp (mem_inRangeOf hx).1).1
  have hmpage : m ∈ page := by
    rw [hpage.mem_iff]
    refine mem_newestUpTo_of_lt hsorted (hpage.mem_iff.mp hxpage) (mem_upTo.mpr ⟨hm, fun t ht => ?_⟩) hlt
    have := hbelow t ht
    omega
  exact mem_inRangeOf_of_lt hx (mem_olderThan.mpr ⟨hmpage, hbelow⟩) hlt

/-! ## A run of backfills -/

/-- What a call knows of the chat: above its cursor all is stored, or is left to store. -/
def JobOk (start : Option Int) (s : State) : Job → Prop
  | .backward limit stored _ cursor =>
      stored < limit ∧ (s.row = none → cursor = none) ∧
        ∀ t, cursor = some t → ∀ m ∈ s.history, From start m → t < m.time → m.id ∈ s.stored
  | .backwardStore _ _ _ left inRange _ =>
      ∃ last ∈ s.history, inRange.getLast? = some last ∧
        (∀ m ∈ s.history, From start m → last.time < m.time → m.id ∈ s.stored ∨ m ∈ left) ∧
        -- without a row the first message of the page is the newest of the chat
        (s.row = none → left = inRange ∧ ∀ x, left.head? = some x → ∀ m ∈ s.history, m.time ≤ x.time)
  | _ => False

structure Sound (start : Option Int) (s : State) : Prop where
  sorted : s.history.Pairwise fun a b => a.time ≤ b.time
  positive : ∀ m ∈ s.history, 0 < m.time
  behind : BehindOldest start s
  full : FullyStored start s
  from_start : ∀ t, start = some t → ∃ o, s.oldest = some o ∧ o.time ≤ t ∧ (0 < t → 0 < o.time)
  call : ∀ call, s.call = some call → JobOk start s call.job

theorem Fresh.sound (h : Fresh s) : Sound (s.oldest.map Mark.time) s := by
  refine ⟨h.sorted, h.positive, ?_, ?_, ?_, ?_⟩
  · intro o ho m _ hfrom hlt
    have := hfrom o.time (by rw [ho]; rfl)
    omega
  · intro hfull
    rw [h.unsynced] at hfull
    cases hfull
  · intro t ht
    obtain ⟨o, ho, rfl⟩ := Option.map_eq_some_iff.mp ht
    exact ⟨o, ho, Int.le_refl _, id⟩
  · intro call hcall
    rw [h.idle] at hcall
    cases hcall

/-- A call ends: what it says of the chat is true. -/
theorem Sound.ends (h : Sound start s) (fully : Bool)
    (hfully : fully = true → ∀ m ∈ s.history, From start m → m.id ∈ s.stored) (call : Call) :
    Sound start ((s.finish (some fully)).done call) := by
  refine ⟨h.sorted, h.positive, h.behind, ?_, h.from_start, fun _ hcall => nomatch hcall⟩
  intro hfull
  have hset : (if s.row.isSome then fully else s.fullySynced) = true := hfull
  by_cases hrow : s.row.isSome = true
  · rw [if_pos hrow] at hset
    exact hfully hset
  · rw [if_neg hrow] at hset
    exact h.full hset

theorem Sound.goesOn (h : Sound start s) {job : Job} (hjob : JobOk start s job) (call : Call) :
    Sound start (s.goOn call job) := by
  refine ⟨h.sorted, h.positive, h.behind, h.full, h.from_start, fun call' hcall => ?_⟩
  obtain rfl := Option.some.inj hcall
  cases job <;> exact hjob

/-- The loop of `_backward` below a cursor above which all is stored. -/
theorem Sound.loop (h : Sound start s) (call : Call) (limit stored : Nat) (hrow : s.row = none → cursor = none)
    (habove : ∀ t, cursor = some t → ∀ m ∈ s.history, From start m → t < m.time → m.id ∈ s.stored) :
    Sound start (backwardLoop s call limit stored stop cursor) := by
  unfold backwardLoop
  by_cases hlt : stored < limit
  · rw [if_pos hlt]
    apply h.goesOn
    exact ⟨hlt, hrow, habove⟩
  · rw [if_neg hlt]
    exact h.ends false (fun hc => nomatch hc) call

theorem Sound.startBackward (h : Sound start s) (limit : Nat) (stop : Option Int) :
    Sound start (s.startBackward limit stop) := by
  refine h.loop _ limit 0 ?_ ?_
  · intro hnone
    simp [State.oldest, hnone]
  · intro t ht m hm hfrom hlt
    obtain ⟨o, ho, hne⟩ : ∃ o, s.oldest = some o ∧ o.time = t := by
      obtain ⟨hread, -⟩ := Option.filter_eq_some_iff.mp ht
      exact Option.map_eq_some_iff.mp hread
    exact h.behind o ho m hm hfrom (by omega)

/-- A page that keeps to the condition. -/
theorem Sound.backwardPage (h : Sound start s) {limit stored : Nat} {call : Call}
    (hcall : s.call = some call) (hjob : call.job = .backward limit stored stop cursor) {now : Int}
    (hpage : page.Perm (newestUpTo Msg.time s.history cursor (pageOf (limit - stored) cursor.isSome)))
    (hok : pageMeets s (.fetch now page)) :
    Sound start (s.backwardPage call limit stored stop cursor page) := by
  obtain ⟨hlt, hrow, habove⟩ : JobOk start s (.backward limit stored stop cursor) := hjob ▸ h.call call hcall
  have hmeets : ∀ t, cursor = some t →
      (olderThan (some t) page ≠ [] ∧ inRangeOf stop (limit - stored) (olderThan (some t) page) = []) ∨
        ((∀ m ∈ s.history, m.time = t → m.id ∈ s.stored) ∧
          (olderThan (some t) page = [] → ∀ m ∈ s.history, m.time < t → m.id ∈ s.stored)) := by
    rintro t rfl
    obtain ⟨job, previous, catchUp⟩ := call
    dsimp only at hjob
    subst hjob
    unfold pageMeets at hok
    rw [hcall] at hok
    exact hok
  unfold State.backwardPage
  dsimp only
  by_cases holder : olderThan cursor page = []
  · -- the chat is called fully synced
    rw [if_pos (List.isEmpty_iff.mpr holder)]
    refine h.ends true (fun _ m hm hfrom => ?_) call
    cases cursor with
    | none =>
        have hnil : page = [] := by
          rw [← holder]
          exact (List.filter_eq_self.mpr fun _ _ => rfl).symm
        obtain ⟨newest, hnewest⟩ : ∃ newest, s.history.getLast? = some newest :=
          ⟨_, List.getLast?_eq_some_getLast (List.ne_nil_of_mem hm)⟩
        have hsome : 0 < pageOf (limit - stored) false := by
          unfold pageOf pageSize
          simp only [Bool.false_eq_true, if_false]
          omega
        have hmem := hpage.mem_iff.mpr (getLast?_mem_newestUpTo hsome hnewest)
        rw [hnil] at hmem
        cases hmem
    | some t =>
        rcases hmeets t rfl with ⟨hne, -⟩ | ⟨hat, hbelow⟩
        · exact absurd holder hne
        · rcases lt_trichotomy m.time t with hlt | heq | hgt
          · exact hbelow holder m hm hlt
          · exact hat m hm heq
          · exact habove t rfl m hm hfrom hgt
  · rw [if_neg (by rwa [List.isEmpty_iff])]
    by_cases hrange : inRangeOf stop (limit - stored) (olderThan cursor page) = []
    · rw [if_pos (List.isEmpty_iff.mpr hrange)]
      exact h.ends false (fun hc => nomatch hc) call
    · rw [if_neg (by rwa [List.isEmpty_iff])]
      apply h.goesOn
      have hsub : ∀ x ∈ inRangeOf stop (limit - stored) (olderThan cursor page), x ∈ s.history := by
        intro x hx
        have hxpage := (mem_olderThan.mp (mem_inRangeOf hx).1).1
        exact (mem_upTo.mp (newestUpTo_subset (hpage.mem_iff.mp hxpage))).1
      obtain ⟨last, hlast⟩ : ∃ last, (inRangeOf stop (limit - stored) (olderThan cursor page)).getLast? = some last :=
        ⟨_, List.getLast?_eq_some_getLast hrange⟩
      have hlastMem := List.mem_of_getLast? hlast
      refine ⟨last, hsub last hlastMem, hlast, fun m hm hfrom hgt => ?_, fun hnone => ⟨rfl, fun x hx m hm => ?_⟩⟩
      · cases hcursor : cursor with
        | none =>
            rw [hcursor] at hpage hlastMem
            exact Or.inr (mem_inRange h.sorted hpage hlastMem hm hgt fun _ he => nomatch he)
        | some t =>
            rw [hcursor] at hpage hlastMem holder hrange
            rcases hmeets t hcursor with ⟨-, hnil⟩ | ⟨hat, -⟩
            · exact absurd hnil hrange
            rcases lt_trichotomy m.time t with hlt | heq | hlater
            · refine Or.inr (mem_inRange h.sorted hpage hlastMem hm hgt fun u hu => ?_)
              exact Option.some.inj hu ▸ hlt
            · exact Or.inl (hat m hm heq)
            · exact Or.inl (habove t hcursor m hm hfrom hlater)
      · -- without a row the page comes from the top of the chat
        by_contra hgt
        have hcursor := hrow hnone
        have hxmem := List.mem_of_head? hx
        have hmem : m ∈ inRangeOf stop (limit - stored) (olderThan cursor page) :=
          mem_inRange h.sorted hpage hxmem hm (by omega) fun t ht => by
            rw [hcursor] at ht
            cases ht
        have hle := head_latest inRangeOf_sorted hx hmem
        omega

/-! ## Stores and cursors -/

/-- A store does not move the oldest cursor of a row. -/
theorem oldest_advance (row : Cursor) (m : Mark) : (advance (some row) m).oldest = row.oldest := by
  unfold advance
  cases hn : row.newest with
  | none => simp [hn]
  | some newest =>
      by_cases hlt : newest.time < m.time
      · simp [hn, hlt]
      · simp [hn, hlt]

theorem oldest_store_some {row : Cursor} (hrow : s.row = some row) (m : Msg) (previous : Option Int) :
    (s.store m previous true true).oldest = s.oldest := by
  simp [State.store, State.oldest, hrow, oldest_advance]

theorem oldest_store_none (hrow : s.row = none) (m : Msg) (previous : Option Int) :
    (s.store m previous true true).oldest = some ⟨m.time, m.id⟩ := by
  simp [State.store, State.oldest, hrow, advance]

theorem pending_backward {job : Job} {after : Bool → Job} (hjob : JobOk start s job)
    (hpending : job.pending = some (m, after)) :
    ∃ limit stored stop left inRange past, job = .backwardStore limit stored stop (m :: left) inRange past ∧
      after true = .backwardStore limit (stored + 1) stop left inRange past := by
  cases job with
  | backwardStore limit stored stop left inRange past =>
      cases left with
      | nil => cases hpending
      | cons m' left =>
          obtain ⟨rfl, rfl⟩ := Prod.mk.inj (Option.some.inj hpending)
          exact ⟨limit, stored, stop, left, inRange, past, rfl, rfl⟩
  | backward _ _ _ _ => cases hpending
  | _ => exact hjob.elim

/-- **Store.** The next message of a page is stored. -/
theorem Sound.store (h : Sound start s) {after : Bool → Job} (hcall : s.call = some call)
    (hpending : call.job.pending = some (m, after)) :
    Sound start { s.store m call.previous true true with call := some { call with job := after true } } := by
  obtain ⟨limit, stored, stop, left, inRange, past, hjob, hafter⟩ := pending_backward (h.call call hcall) hpending
  obtain ⟨last, hlastMem, hlast, habove, hfirst⟩ := hjob ▸ h.call call hcall
  generalize call.previous = previous
  have hstored : ∀ id, id ∈ s.stored → id ∈ (s.store m previous true true).stored :=
    fun id hid => List.mem_cons_of_mem _ hid
  have hself : m.id ∈ (s.store m previous true true).stored := List.mem_cons_self ..
  refine ⟨h.sorted, h.positive, ?behind, ?full, ?from_start, ?call⟩
  case behind =>
    intro o ho x hx hfrom hlt
    have ho' : (s.store m previous true true).oldest = some o := ho
    cases hrow : s.row with
    | none =>
        -- the row begins with the newest message of the chat
        rw [oldest_store_none hrow] at ho'
        obtain rfl := Option.some.inj ho'
        have hle := (hfirst hrow).2 m rfl x hx
        exact absurd hlt (by simpa using hle)
    | some row =>
        rw [oldest_store_some hrow] at ho'
        exact hstored _ (h.behind o ho' x hx hfrom hlt)
  case full => exact fun hfull x hx hfrom => hstored _ (h.full hfull x hx hfrom)
  case from_start =>
    intro u hu
    obtain ⟨o, ho, hle, hpos⟩ := h.from_start u hu
    cases hrow : s.row with
    | none =>
        rw [State.oldest, hrow] at ho
        cases ho
    | some row => exact ⟨o, (oldest_store_some hrow m previous).trans ho, hle, hpos⟩
  case call =>
    intro call' hcall'
    obtain rfl := Option.some.inj hcall'
    dsimp only
    rw [hafter]
    refine ⟨last, hlastMem, hlast, fun x hx hfrom hgt => ?_, fun hnone => nomatch hnone⟩
    rcases habove x hx hfrom hgt with hin | hleft
    · exact Or.inl (hstored _ hin)
    · rcases List.mem_cons.mp hleft with rfl | hrest
      · exact Or.inl hself
      · exact Or.inr hrest

/-- The oldest cursor moves back only. -/
theorem moveOldest_cases (row : Option Cursor) (m : Mark) :
    ((MaxSync.moveOldest row m).oldest = some m ∧ ∀ old, row.bind Cursor.oldest = some old → m.time < old.time) ∨
      ∃ old, row.bind Cursor.oldest = some old ∧ old.time ≤ m.time ∧ (MaxSync.moveOldest row m).oldest = some old := by
  unfold MaxSync.moveOldest
  cases row with
  | none => exact Or.inl ⟨rfl, fun _ hold => nomatch hold⟩
  | some cursor =>
      cases hoc : cursor.oldest with
      | none => exact Or.inl ⟨by simp [hoc], fun old hold => by simp [hoc] at hold⟩
      | some old =>
          by_cases hlt : m.time < old.time
          · exact Or.inl ⟨by simp [hoc, hlt], fun old' hold => by simp [hoc] at hold; exact hold ▸ hlt⟩
          · exact Or.inr ⟨old, by simp [hoc], by omega, by simp [hoc, hlt]⟩

/-- **Move.** The oldest cursor goes to the last message of a stored page. -/
theorem Sound.move (h : Sound start s) {limit stored : Nat} {past : Bool} (hcall : s.call = some call)
    (hjob : call.job = .backwardStore limit stored stop [] inRange past)
    (hlast : inRange.getLast? = some last) (hmove : s.moveOldest ⟨last.time, last.id⟩ = some t) :
    Sound start t ∧ t.row ≠ none ∧
      ∀ m ∈ t.history, From start m → last.time < m.time → m.id ∈ t.stored := by
  obtain ⟨last', hlastMem, hlast', habove, -⟩ := hjob ▸ h.call call hcall
  obtain rfl : last' = last := Option.some.inj (hlast'.symm.trans hlast)
  have hall : ∀ m ∈ s.history, From start m → last'.time < m.time → m.id ∈ s.stored :=
    fun m hm hfrom hgt => (habove m hm hfrom hgt).resolve_right List.not_mem_nil
  obtain rfl := moveOldest_some hmove
  refine ⟨⟨h.sorted, h.positive, ?behind, h.full, ?from_start, ?call⟩, Option.some_ne_none _, hall⟩
  case behind =>
    intro o ho m hm hfrom hlt
    have ho' : (MaxSync.moveOldest s.row ⟨last'.time, last'.id⟩).oldest = some o := ho
    rcases moveOldest_cases s.row ⟨last'.time, last'.id⟩ with ⟨hnew, -⟩ | ⟨old, hold, -, hkept⟩
    · obtain rfl := Option.some.inj (hnew.symm.trans ho')
      exact hall m hm hfrom hlt
    · obtain rfl := Option.some.inj (hkept.symm.trans ho')
      exact h.behind old hold m hm hfrom hlt
  case from_start =>
    intro u hu
    obtain ⟨o, ho, hle, hpos⟩ := h.from_start u hu
    rcases moveOldest_cases s.row ⟨last'.time, last'.id⟩ with ⟨hnew, hback⟩ | ⟨old, hold, -, hkept⟩
    · have hlt : last'.time < o.time := hback o ho
      refine ⟨⟨last'.time, last'.id⟩, hnew, ?_, fun _ => h.positive last' hlastMem⟩
      show last'.time ≤ u
      omega
    · obtain rfl : old = o := Option.some.inj (hold.symm.trans ho)
      exact ⟨old, hkept, hle, hpos⟩
  case call =>
    intro call' hcall'
    obtain rfl := Option.some.inj (hcall.symm.trans hcall')
    rw [hjob]
    exact ⟨last', hlastMem, hlast', fun m hm hfrom hgt => Or.inl (hall m hm hfrom hgt), fun hnone => nomatch hnone⟩

/-! ## The run -/

/-- **Step.** A backfill that keeps to the condition keeps its cursor right. -/
theorem sound_step {a : Action} (h : Sound start s) (hback : backfills s a) (hok : pageMeets s a)
    (hstep : step seedSize s a = some t) : Sound start t := by
  cases a with
  | backward limit stop =>
      obtain ⟨-, heq⟩ := Option.ite_none_right_eq_some.mp hstep
      obtain rfl := Option.some.inj heq
      exact h.startBackward limit stop
  | fetch now page =>
      obtain ⟨call, hcall, hcases⟩ := fetch_cases hstep
      rcases hcases with ⟨limit, stored, cursor, seen, hjob, -, -⟩ | ⟨limit, stored, stop, cursor, hjob, hpage, rfl⟩
      · have hfalse := h.call call hcall
        rw [hjob] at hfalse
        exact hfalse.elim
      · exact h.backwardPage hcall hjob hpage hok
  | store ok =>
      obtain rfl : ok = true := hback
      obtain ⟨call, m, after, hcall, hpending, rfl⟩ := storeNext_cases hstep
      exact h.store hcall hpending
  | next =>
      obtain ⟨call, hcall, hend⟩ := endPage_cases hstep
      have hjobOk := h.call call hcall
      cases hend with
      | seed hjob _ =>
          rw [hjob] at hjobOk
          exact hjobOk.elim
      | forward hjob _ =>
          rw [hjob] at hjobOk
          exact hjobOk.elim
      | backward hjob holdest hmove =>
          obtain ⟨hsound, hrow, habove⟩ := h.move hcall hjob holdest hmove
          split
          · exact hsound.ends false (fun hc => nomatch hc) call
          · refine hsound.loop call _ _ (fun hnone => absurd hnone hrow) fun u hu => ?_
            exact Option.some.inj hu ▸ habove
      | raises _ _ _ =>
          exact ⟨h.sorted, h.positive, h.behind, h.full, h.from_start, fun _ hcall => nomatch hcall⟩
  | _ => exact hback.elim

/-- **Oldest cursor.** In every state of a run of backfills whose pages keep to the condition, the oldest cursor
    has passed no message from the starting point on that is not stored, and a chat that is called fully synced
    is stored from there on. -/
theorem backward_complete (hfresh : Fresh s₀)
    (h : Run (step seedSize) (fun s a => backfills s a ∧ pageMeets s a) s₀ s) :
    BehindOldest (s₀.oldest.map Mark.time) s ∧ FullyStored (s₀.oldest.map Mark.time) s := by
  have hsound : Sound (s₀.oldest.map Mark.time) s :=
    h.invariant (fun _ _ _ hs hok hstep => sound_step hs hok.1 hok.2 hstep) hfresh.sound
  exact ⟨hsound.behind, hsound.full⟩

/-! ## Two chats -/

instance (s : State) (a : Action) : Decidable (backfills s a) := by
  cases a <;> unfold backfills <;> infer_instance

instance (s : State) (a : Action) : Decidable (pageMeets s a) := by
  unfold pageMeets
  split
  · split <;> infer_instance
  · infer_instance

/-- A chat without a row. -/
def chatOf (newMode : Bool) (history : List Msg) : State :=
  ⟨newMode, history, [], none, false, false, none, [], false⟩

def spread : List Msg := [noted 1 10, noted 2 20, noted 3 30]

/-- Two messages, then the one before them and the beginning of the chat. -/
def spreadRuns : List Action :=
  [.backward 2 none, .fetch 0 [noted 2 20, noted 3 30], .store true, .store true, .next,
    .backward 5 none, .fetch 0 [noted 1 10, noted 2 20], .store true, .next, .fetch 0 [noted 1 10]]

theorem backward_complete_spread :
    ∃ s, Run (step 40) (fun s a => backfills s a ∧ pageMeets s a) (chatOf true spread) s ∧
      s.fullySynced = true ∧ FullyStored none s := by
  have hfresh : Fresh (chatOf true spread) := ⟨rfl, rfl, by decide +kernel, by decide +kernel⟩
  have hend : (execOk (step 40) (fun s a => decide (backfills s a ∧ pageMeets s a)) (chatOf true spread) spreadRuns).map
      State.fullySynced = some true := by decide +kernel
  obtain ⟨s, hs, hfull⟩ := Option.map_eq_some_iff.mp hend
  have hrun := Run.of_execOk (fun _ _ hok => of_decide_eq_true hok) hs
  exact ⟨s, hrun, hfull, (backward_complete hfresh hrun).2⟩

/-- The limit stops the first run between two messages of one millisecond. -/
def cut : List Msg := [noted 1 10, noted 2 20, noted 3 20]

/-- The second run goes on below that millisecond. -/
def passedRuns : List Action :=
  [.backward 1 none, .fetch 0 [noted 3 20], .store true, .next,
    .backward 5 none, .fetch 0 [noted 1 10, noted 2 20, noted 3 20], .store true, .next]

/-- The page of the second run shows that millisecond only. -/
def beginningRuns : List Action :=
  [.backward 1 none, .fetch 0 [noted 3 20], .store true, .next, .backward 1 none, .fetch 0 [noted 2 20, noted 3 20]]

/-- Without the condition the oldest cursor passes a message that is not stored, and a chat is called fully
    synced that is not. -/
theorem backward_skips :
    (¬ ∀ s₀ s, Fresh s₀ → Run (step 40) backfills s₀ s → BehindOldest (s₀.oldest.map Mark.time) s) ∧
      ¬ ∀ s₀ s, Fresh s₀ → Run (step 40) backfills s₀ s → FullyStored (s₀.oldest.map Mark.time) s := by
  have hfresh : Fresh (chatOf true cut) := ⟨rfl, rfl, by decide +kernel, by decide +kernel⟩
  constructor
  · intro hall
    have hend : (execOk (step 40) (fun s a => decide (backfills s a)) (chatOf true cut) passedRuns).map
        (fun s => (s.oldest, s.history, s.stored)) = some (some ⟨10, 1⟩, cut, [1, 3]) := by decide +kernel
    obtain ⟨s, hs, heq⟩ := Option.map_eq_some_iff.mp hend
    obtain ⟨holdest, hrest⟩ := Prod.mk.inj heq
    obtain ⟨hhist, hstored⟩ := Prod.mk.inj hrest
    have hrun := Run.of_execOk (fun _ _ hok => of_decide_eq_true hok) hs
    have hin := hall _ s hfresh hrun ⟨10, 1⟩ holdest (noted 2 20) (by rw [hhist]; decide +kernel)
      (fun _ ht => nomatch ht) (by decide +kernel)
    rw [hstored] at hin
    revert hin
    decide +kernel
  · intro hall
    have hend : (execOk (step 40) (fun s a => decide (backfills s a)) (chatOf true cut) beginningRuns).map
        (fun s => (s.fullySynced, s.history, s.stored)) = some (true, cut, [3]) := by decide +kernel
    obtain ⟨s, hs, heq⟩ := Option.map_eq_some_iff.mp hend
    obtain ⟨hfull, hrest⟩ := Prod.mk.inj heq
    obtain ⟨hhist, hstored⟩ := Prod.mk.inj hrest
    have hrun := Run.of_execOk (fun _ _ hok => of_decide_eq_true hok) hs
    have hin := hall _ s hfresh hrun hfull (noted 1 10) (by rw [hhist]; decide +kernel) (fun _ ht => nomatch ht)
    rw [hstored] at hin
    revert hin
    decide +kernel

end MyPerson.MaxSync.Alone
