import MyPerson.Lib.SlidingWindow
import MyPerson.WriteLimits.System

/-!
# `WriteLimits.Windows` — no window ever holds more than its limit

The invariant of `WriteLimits.System` for the sliding windows. Under the lock of its account a task
collects facts about the table (`PhaseOk`): the windows checked so far have room. Other tasks cannot
spoil them, since a step of theirs only removes rows of that account (`Keeps`). At the commit these
facts are the admission check of `Lib.SlidingWindow`, whose bound holds for every instant.

## Contents
- `PhaseOk`, `Inv` and what each phase function contributes;
- `step_inv` / `run_inv`;
- `write_windows_hold`: the bound, and a bundle that does not fit stores nothing.
-/

namespace MyPerson.WriteLimits

open Lib Lib.SlidingWindow

/-! ## Rows of one account -/

/-- As far as account `a` is concerned, the step from `rows` to `rows'` only removes. -/
def Keeps (a : Nat) (rows rows' : List WriteEvent) : Prop :=
  (rows'.filter (·.accountId == a)).Sublist (rows.filter (·.accountId == a))

theorem Keeps.refl (a : Nat) (rows : List WriteEvent) : Keeps a rows rows := List.Sublist.refl _

theorem Keeps.of_sublist (a : Nat) {rows rows' : List WriteEvent} (h : rows'.Sublist rows) :
    Keeps a rows rows' :=
  h.filter _

theorem filter_account (a : Nat) {p : WriteEvent → Bool} (hp : ∀ e, p e = true → e.accountId = a)
    (rows : List WriteEvent) : (rows.filter (·.accountId == a)).filter p = rows.filter p := by
  rw [List.filter_filter]
  refine List.filter_congr fun e _ => ?_
  by_cases h : p e = true
  · simp [h, hp e h]
  · simp [h]

/-- A filter that looks at one account only follows `Keeps`. -/
theorem Keeps.filter {a : Nat} {rows rows' : List WriteEvent} (h : Keeps a rows rows')
    {p : WriteEvent → Bool} (hp : ∀ e, p e = true → e.accountId = a) :
    (rows'.filter p).Sublist (rows.filter p) := by
  rw [← filter_account a hp rows, ← filter_account a hp rows']
  exact List.Sublist.filter p h

theorem matchesWindow_account {a : Nat} {w : Window} {e : WriteEvent}
    (h : matchesWindow a w e = true) : e.accountId = a := by
  simp only [matchesWindow, Bool.and_eq_true, beq_iff_eq] at h
  exact h.1.1

theorem view_sublist (c : Section) (rows : List WriteEvent) : (c.view rows).Sublist rows :=
  List.filter_sublist

/-- The view of a section of account `a` follows `Keeps a`. -/
theorem Keeps.view {c : Section} {rows rows' : List WriteEvent} (h : Keeps c.account rows rows') :
    Keeps c.account (c.view rows) (c.view rows') := by
  unfold Keeps Section.view purge
  have hswap : ∀ l : List WriteEvent,
      (l.filter fun e => !(e.accountId == c.account && decide (e.atTime < c.now - retention))).filter
        (·.accountId == c.account)
      = (l.filter (·.accountId == c.account)).filter
        fun e => !(e.accountId == c.account && decide (e.atTime < c.now - retention)) := by
    intro l
    simp only [List.filter_filter, Bool.and_comm]
  rw [hswap, hswap]
  exact List.Sublist.filter _ h

theorem count_eq_countAfter (rows : List WriteEvent) (a : Nat) (w : Window) (now : Time) :
    count rows a w now
      = countAfter (·.atTime) (now - w.width) (rows.filter (matchesWindow a w)) := by
  unfold count countAfter eventsCond
  rw [List.countP_eq_length_filter, List.filter_filter]
  refine congrArg List.length (List.filter_congr fun e _ => ?_)
  rw [Bool.and_comm]

theorem count_le_of_keeps {a : Nat} {rows rows' : List WriteEvent} (h : Keeps a rows rows')
    (w : Window) (now : Time) : count rows' a w now ≤ count rows a w now := by
  rw [count_eq_countAfter, count_eq_countAfter]
  exact countAfter_le_of_sublist (h.filter fun _ => matchesWindow_account)

/-! ## What a phase knows -/

/-- The limits an account runs under: its own, or `noLimits` where writes are not limited. -/
def limitsInForce (cfg : Config) (a : Nat) : Option Limits :=
  (effective cfg.accounts a).map fun eff => eff.limits.getD noLimits

/-- The settings a task carries are those of its account. -/
def SettingsOk (cfg : Config) (eff : Effective) (limits : Limits) (job : Job) : Prop :=
  effective cfg.accounts eff.accountId = some eff ∧ job.limits eff = some limits

theorem SettingsOk.inForce {cfg : Config} {eff : Effective} {limits : Limits} {job : Job}
    (h : SettingsOk cfg eff limits job) : limitsInForce cfg eff.accountId = some limits := by
  obtain ⟨heff, hlim⟩ := h
  unfold limitsInForce
  rw [heff, Option.map_some]
  refine congrArg some ?_
  unfold Job.limits at hlim
  split at hlim
  · rename_i own _ hown
    rw [hown]
    exact Option.some.inj hlim
  · rename_i hown
    rw [hown]
    exact Option.some.inj hlim
  · cases hlim

/-- The window has room for what the call needs of it. -/
def Fits (c : Section) (newDialog : Bool) (rows : List WriteEvent) (w : Window) : Prop :=
  ∀ limit n, checked c.limits c.job.needs newDialog w = some (limit, n) →
    count (c.view rows) c.account w c.now + n ≤ limit

theorem Fits.keeps {c : Section} {newDialog : Bool} {rows rows' : List WriteEvent} {w : Window}
    (hk : Keeps c.account rows rows') (h : Fits c newDialog rows w) : Fits c newDialog rows' w := by
  intro limit n hc
  have hle := count_le_of_keeps hk.view w c.now
  have := h limit n hc
  omega

/-- What holds of the table and the settings when a task stands in a phase. -/
def PhaseOk (cfg : Config) (rows : List WriteEvent) : Phase → Prop
  | .history eff limits job => SettingsOk cfg eff limits job
  | .atLock eff limits job _ => SettingsOk cfg eff limits job
  | .dialog c => SettingsOk cfg c.eff c.limits c.job
  | .windows c newDialog rest full => SettingsOk cfg c.eff c.limits c.job ∧
      (full = [] → ∃ done, windows = done ++ rest ∧ ∀ w ∈ done, Fits c newDialog rows w)
  | .retry c _ _ _ _ _ _ _ => SettingsOk cfg c.eff c.limits c.job
  | .pace c newDialog => SettingsOk cfg c.eff c.limits c.job ∧ ∀ w ∈ windows, Fits c newDialog rows w
  | .store c newDialog atTime => SettingsOk cfg c.eff c.limits c.job ∧
      (∀ w ∈ windows, Fits c newDialog rows w) ∧ c.now ≤ atTime
  | _ => True

/-- What a phase knows survives the steps that only remove rows of its account. -/
theorem PhaseOk.keeps {cfg : Config} {rows rows' : List WriteEvent} {p : Phase}
    (hk : ∀ c, p.section? = some c → Keeps c.account rows rows') (h : PhaseOk cfg rows p) :
    PhaseOk cfg rows' p := by
  cases p with
  | windows c newDialog rest full =>
      refine ⟨h.1, fun hfull => ?_⟩
      obtain ⟨done, hdone, hfits⟩ := h.2 hfull
      exact ⟨done, hdone, fun w hw => (hfits w hw).keeps (hk c rfl)⟩
  | pace c newDialog => exact ⟨h.1, fun w hw => (h.2 w hw).keeps (hk c rfl)⟩
  | store c newDialog atTime =>
      exact ⟨h.1, fun w hw => (h.2.1 w hw).keeps (hk c rfl), h.2.2⟩
  | _ => exact h

/-! ## What the phase functions contribute -/

theorem readSettings_ok (cfg : Config) (s : State) (a : Nat) (job : Job) :
    PhaseOk cfg s.rows (readSettings cfg s a job) ∧ (readSettings cfg s a job).section? = none := by
  unfold readSettings
  split
  · exact ⟨trivial, rfl⟩
  · rename_i eff heff
    split
    · exact ⟨trivial, rfl⟩
    · rename_i limits hlim
      have hset : SettingsOk cfg eff limits job := by
        refine ⟨?_, hlim⟩
        rw [effective_accountId heff]
        exact heff
      split
      · exact ⟨trivial, rfl⟩
      · split
        · exact ⟨hset, rfl⟩
        · split
          · exact ⟨hset, rfl⟩
          · exact ⟨hset, rfl⟩

/-- One pass of the loop: the window checked has room, or a full window is recorded. -/
theorem checkStep_ok {cfg : Config} {c : Section} {rows : List WriteEvent} {newDialog : Bool}
    {full : List Full} {rest : List Window} (h : PhaseOk cfg rows (.windows c newDialog rest full)) :
    PhaseOk cfg rows (checkStep c rows newDialog full rest) := by
  obtain ⟨hset, hroom⟩ := h
  cases rest with
  | nil =>
      simp only [checkStep]
      split
      · trivial
      · rename_i hnone
        obtain ⟨done, hdone, hfits⟩ := hroom (refuseFull_eq_none.mp hnone)
        refine ⟨hset, fun w hw => hfits w ?_⟩
        rw [hdone, List.append_nil] at hw
        exact hw
  | cons w rest =>
      -- the loop moves on with `w` done, provided `w` has room
      have hnext : Fits c newDialog rows w → full = [] →
          ∃ done, windows = done ++ rest ∧ ∀ w ∈ done, Fits c newDialog rows w := by
        intro hw hfull
        obtain ⟨done, hdone, hfits⟩ := hroom hfull
        refine ⟨done ++ [w], by simp [hdone], fun v hv => ?_⟩
        rcases List.mem_append.mp hv with hv | hv
        · exact hfits v hv
        · rw [List.mem_singleton.mp hv]; exact hw
      simp only [checkStep]
      split
      · rename_i hskip
        refine ⟨hset, hnext fun limit n hc => ?_⟩
        rw [hskip] at hc
        cases hc
      · rename_i limit n hc
        split
        · split
          · exact ⟨hset, fun hfull => absurd hfull (by simp)⟩
          · exact hset
        · rename_i hle
          refine ⟨hset, hnext fun limit' n' hc' => ?_⟩
          rw [hc] at hc'
          cases hc'
          omega

theorem now_le_planned (c : Section) (rows : List WriteEvent) (jitter : Time) :
    c.now ≤ planned c rows jitter := by
  unfold planned
  split
  · exact le_max_left _ _
  · exact le_refl _

theorem paceStep_ok {cfg : Config} {c : Section} {rows : List WriteEvent} {newDialog : Bool}
    (h : PhaseOk cfg rows (.pace c newDialog)) (jitter : Time) :
    PhaseOk cfg rows (paceStep c rows newDialog jitter) := by
  unfold paceStep
  dsimp only
  split
  · trivial
  · exact ⟨h.1, h.2, now_le_planned c rows jitter⟩

/-- A phase function run inside a section stays in it or ends it. -/
theorem checkStep_section (c : Section) (rows : List WriteEvent) (newDialog : Bool) (full : List Full)
    (rest : List Window) : (checkStep c rows newDialog full rest).section? = some c ∨
      ∃ error, checkStep c rows newDialog full rest = .refused error := by
  cases rest with
  | nil =>
      simp only [checkStep]
      split
      · exact Or.inr ⟨_, rfl⟩
      · exact Or.inl rfl
  | cons w rest =>
      simp only [checkStep]
      split
      · exact Or.inl rfl
      · split
        · split
          · exact Or.inl rfl
          · exact Or.inl rfl
        · exact Or.inl rfl

theorem paceStep_section (c : Section) (rows : List WriteEvent) (newDialog : Bool) (jitter : Time) :
    (paceStep c rows newDialog jitter).section? = some c ∨
      ∃ error, paceStep c rows newDialog jitter = .refused error := by
  unfold paceStep
  dsimp only
  split
  · exact Or.inr ⟨_, rfl⟩
  · exact Or.inl rfl

/-! ## The rows of a commit -/

theorem mem_newRows {c : Section} {newDialog : Bool} {atTime : Time} {nextId : Nat} {e : WriteEvent}
    (he : e ∈ newRows c newDialog atTime nextId) :
    nextId ≤ e.id ∧ e.id < nextId + c.job.needs.kinds.length ∧ e.accountId = c.account ∧
      e.chatId = c.job.chatId ∧ e.newDialog = newDialog ∧ e.atTime = atTime := by
  simp only [newRows, List.mem_reverse, List.mem_map] at he
  obtain ⟨⟨kind, i⟩, hi, rfl⟩ := he
  obtain ⟨hlo, hhi, -⟩ := List.mem_zipIdx hi
  exact ⟨hlo, by omega, rfl, rfl, rfl, rfl⟩

theorem newRows_kinds (c : Section) (newDialog : Bool) (atTime : Time) (nextId : Nat) :
    (newRows c newDialog atTime nextId).map (·.kind) = c.job.needs.kinds.reverse := by
  unfold newRows
  rw [List.map_reverse, List.map_map]
  refine congrArg List.reverse ?_
  have hfst : ((fun e : WriteEvent => e.kind) ∘ fun p : Kind × Nat =>
      (⟨p.2, c.account, p.1, c.job.tool, c.job.chatId, newDialog, atTime⟩ : WriteEvent)) = Prod.fst := rfl
  rw [hfst, List.zipIdx_map_fst]

/-- A window of the account sees as many new rows as the call needs of its kind. -/
theorem newRows_window_length (c : Section) (newDialog : Bool) (atTime : Time) (nextId : Nat)
    (w : Window) : ((newRows c newDialog atTime nextId).filter (matchesWindow c.account w)).length
      ≤ c.job.needs.get w.kind := by
  rw [← Needs.count_kinds, ← List.count_reverse, ← newRows_kinds c newDialog atTime nextId,
    ← List.countP_eq_length_filter, List.count, List.countP_map]
  refine List.countP_mono_left fun e _ he => ?_
  simp only [matchesWindow, Bool.and_eq_true] at he
  exact he.1.2

/-- A window that is skipped, or of another account, sees no new row. -/
theorem newRows_window_nil {c : Section} {newDialog : Bool} {atTime : Time} {nextId : Nat} {a : Nat}
    {w : Window} (h : a ≠ c.account ∨ (w.newDialogsOnly = true ∧ newDialog = false)) :
    (newRows c newDialog atTime nextId).filter (matchesWindow a w) = [] := by
  rw [List.filter_eq_nil_iff]
  intro e he hm
  obtain ⟨-, -, hacc, -, hnew, -⟩ := mem_newRows he
  simp only [matchesWindow, Bool.and_eq_true, beq_iff_eq, Bool.or_eq_true, Bool.not_eq_true'] at hm
  rcases h with h | ⟨hw, hn⟩
  · exact h (hm.1.1.symm.trans hacc)
  · rcases hm.2 with hfalse | htrue
    · rw [hw] at hfalse
      cases hfalse
    · rw [hnew, hn] at htrue
      cases htrue

/-! ## The invariant -/

/-- The slot of a task whose rows are stored. -/
def Phase.slot? : Phase → Option Slot
  | .granted slot => some slot
  | .kept slot => some slot
  | _ => none

structure Inv (cfg : Config) (s : State) : Prop where
  /-- A task in a section holds the lock of its account. -/
  locked : ∀ t c, (s.phase t).section? = some c → s.lock c.account = some t
  fresh : ∀ e ∈ s.rows, e.id < s.nextId
  phases : ∀ t, PhaseOk cfg s.rows (s.phase t)
  /-- Every row is in the slot of the task that stored it. -/
  owners : ∀ e ∈ s.rows, ∃ slot, (s.phase (s.origin e.id).task).slot? = some slot ∧ e.id ∈ slot.eventIds
  /-- The rows of every window in force passed their admission check. -/
  admitted : ∀ a limits, limitsInForce cfg a = some limits → ∀ w ∈ windows, ∀ limit,
    limits.get w.name = some limit →
    Admitted (fun e : WriteEvent => (s.origin e.id).made) (·.atTime) w.width limit
      (s.rows.filter (matchesWindow a w))

theorem init_inv (cfg : Config) (start : Time) : Inv cfg (State.init start) where
  locked _ _ h := by cases h
  fresh _ h := by cases h
  phases _ := trivial
  owners _ h := by cases h
  admitted _ _ _ _ _ _ _ := trivial

section Steps

variable {cfg : Config} {s : State} {t : Nat} {p : Phase}

/-- A task moves on, at most within the section it is in. -/
theorem Inv.setPhase (h : Inv cfg s)
    (hsec : ∀ c, p.section? = some c → (s.phase t).section? = some c)
    (hslot : ∀ slot, (s.phase t).slot? = some slot → p.slot? = some slot) (hok : PhaseOk cfg s.rows p) :
    Inv cfg (s.setPhase t p) where
  locked t' c hc := by
    rcases eq_or_ne t' t with rfl | hne
    · refine h.locked t' c (hsec c ?_)
      simpa [State.setPhase] using hc
    · refine h.locked t' c ?_
      simpa [State.setPhase, hne] using hc
  fresh := h.fresh
  phases t' := by
    rcases eq_or_ne t' t with rfl | hne
    · simpa [State.setPhase] using hok
    · simpa [State.setPhase, hne] using h.phases t'
  owners e he := by
    obtain ⟨slot, hold, hid⟩ := h.owners e he
    refine ⟨slot, ?_, hid⟩
    show (Function.update s.phase t p (s.origin e.id).task).slot? = some slot
    rcases eq_or_ne (s.origin e.id).task t with heq | hne
    · rw [heq] at hold ⊢
      rw [Function.update_self]
      exact hslot slot hold
    · rw [Function.update_of_ne hne]
      exact hold
  admitted := h.admitted

/-- The lock of an account no task has a section of is given back. -/
theorem Inv.unlock {a : Nat} (h : Inv cfg s)
    (hfree : ∀ t c, (s.phase t).section? = some c → c.account ≠ a) : Inv cfg (s.unlock a) where
  locked t c hc := by
    show Function.update s.lock a none c.account = some t
    rw [Function.update_of_ne (hfree t c hc)]
    exact h.locked t c hc
  fresh := h.fresh
  phases := h.phases
  owners := h.owners
  admitted := h.admitted

/-- Two tasks are never in sections of one account. -/
theorem Inv.alone (h : Inv cfg s) {c c' : Section} {t' : Nat} (hc : (s.phase t).section? = some c)
    (hc' : (s.phase t').section? = some c') (hacc : c'.account = c.account) : t' = t := by
  have h₁ := h.locked t c hc
  have h₂ := h.locked t' c' hc'
  rw [hacc, h₁] at h₂
  exact (Option.some.inj h₂).symm

theorem slot_none_of_section {p : Phase} {c : Section} (hc : p.section? = some c) : p.slot? = none := by
  cases p <;> first | rfl | cases hc

/-- A task leaves its section without a commit. -/
theorem Inv.leave (h : Inv cfg s) {c : Section} (hc : (s.phase t).section? = some c)
    (hp : p.section? = none) (hok : PhaseOk cfg s.rows p) :
    Inv cfg ((s.setPhase t p).unlock c.account) := by
  refine Inv.unlock (h.setPhase (fun c' hc' => ?_) (fun slot hslot => ?_) hok) fun t' c' hc' hacc => ?_
  · rw [hp] at hc'
    cases hc'
  · rw [slot_none_of_section hc] at hslot
    cases hslot
  · rcases eq_or_ne t' t with rfl | hne
    · simp [State.setPhase, hp] at hc'
    · refine hne (h.alone hc ?_ hacc)
      simpa [State.setPhase, hne] using hc'

/-- A task takes a step inside its section, or is refused. -/
theorem Inv.inSection (h : Inv cfg s) {c : Section} (hc : (s.phase t).section? = some c)
    (hp : p.section? = some c ∨ ∃ error, p = .refused error) (hok : PhaseOk cfg s.rows p) :
    Inv cfg (s.inSection t c.account p) := by
  rcases hp with hp | ⟨error, rfl⟩
  · unfold State.inSection
    rw [hp]
    refine h.setPhase (fun c' hc' => ?_) (fun slot hslot => ?_) hok
    · rw [hc, ← hp, hc']
    · rw [slot_none_of_section hc] at hslot
      cases hslot
  · exact h.leave hc rfl hok

/-- A task enters its section. -/
theorem Inv.enter (h : Inv cfg s) {eff : Effective} {limits : Limits} {job : Job} {history : Bool}
    {now : Time} (hph : s.phase t = .atLock eff limits job history) (hlock : s.lock eff.accountId = none) :
    Inv cfg { s with
      phase := Function.update s.phase t (.dialog ⟨eff, limits, job, history, now⟩)
      lock := Function.update s.lock eff.accountId (some t)
      clock := Function.update s.clock eff.accountId now } := by
  have hset : SettingsOk cfg eff limits job := by
    have hok := h.phases t
    rw [hph] at hok
    exact hok
  refine ⟨fun t' c hc => ?_, h.fresh, fun t' => ?_, fun e he => ?_, h.admitted⟩
  · rcases eq_or_ne t' t with rfl | hne
    · simp only [Function.update_self, Phase.section?, Option.some.injEq] at hc
      subst hc
      exact Function.update_self ..
    · simp only [Function.update_of_ne hne] at hc
      have hheld := h.locked t' c hc
      have hother : c.account ≠ eff.accountId := by
        intro heq
        rw [heq, hlock] at hheld
        cases hheld
      show Function.update s.lock eff.accountId (some t) c.account = some t'
      rw [Function.update_of_ne hother]
      exact hheld
  · rcases eq_or_ne t' t with rfl | hne
    · simp only [Function.update_self]
      exact hset
    · simp only [Function.update_of_ne hne]
      exact h.phases t'
  · obtain ⟨slot, hold, hid⟩ := h.owners e he
    refine ⟨slot, ?_, hid⟩
    show (Function.update s.phase t _ (s.origin e.id).task).slot? = some slot
    rw [Function.update_of_ne]
    · exact hold
    · intro heq
      rw [heq, hph] at hold
      cases hold

/-- A slot is given back. -/
theorem Inv.release (h : Inv cfg s) {slot : Slot} (hph : s.phase t = .granted slot) :
    Inv cfg (release s t slot) := by
  have hsub : (slot.rowsLeft s.rows).Sublist s.rows := List.filter_sublist
  refine ⟨fun t' c hc => ?_, fun e he => h.fresh e (hsub.subset he), fun t' => ?_, fun e he => ?_,
    fun a limits hlim w hw limit hl => ?_⟩
  · rcases eq_or_ne t' t with rfl | hne
    · simp [MyPerson.WriteLimits.release, Phase.section?] at hc
    · refine h.locked t' c ?_
      simpa [MyPerson.WriteLimits.release, hne] using hc
  · rcases eq_or_ne t' t with rfl | hne
    · simp [MyPerson.WriteLimits.release, PhaseOk]
    · have hok := (h.phases t').keeps fun c _ => Keeps.of_sublist c.account hsub
      simpa [MyPerson.WriteLimits.release, hne] using hok
  · obtain ⟨slot', hold, hid⟩ := h.owners e (hsub.subset he)
    refine ⟨slot', ?_, hid⟩
    show (Function.update s.phase t (.released slot) (s.origin e.id).task).slot? = some slot'
    rcases eq_or_ne (s.origin e.id).task t with heq | hne
    · -- the rows of `t` are those given back
      rw [heq, hph] at hold
      cases hold
      have hkeep := (List.mem_filter.mp he).2
      simp [hid] at hkeep
    · rw [Function.update_of_ne hne]
      exact hold
  · exact (h.admitted a limits hlim w hw limit hl).sublist (hsub.filter _)

/-- The rows other accounts see do not change at a commit. -/
theorem keeps_commit {c : Section} {newDialog : Bool} {atTime : Time} {nextId a : Nat}
    (rows : List WriteEvent) (hne : a ≠ c.account) :
    Keeps a rows (newRows c newDialog atTime nextId ++ c.view rows) := by
  have hnil : (newRows c newDialog atTime nextId).filter (·.accountId == a) = [] := by
    rw [List.filter_eq_nil_iff]
    intro e he hm
    obtain ⟨-, -, hacc, -⟩ := mem_newRows he
    exact hne ((beq_iff_eq.mp hm).symm.trans hacc)
  unfold Keeps
  rw [List.filter_append, hnil, List.nil_append]
  exact (view_sublist c rows).filter _

/-- **The commit passes every admission check.** What the task found under its lock is the room the
    new rows take. -/
theorem commit_admitted (h : Inv cfg s) {c : Section} {newDialog : Bool} {atTime : Time}
    (hph : s.phase t = .store c newDialog atTime) {a : Nat} {limits : Limits}
    (hlim : limitsInForce cfg a = some limits) {w : Window} (hw : w ∈ windows) {limit : Nat}
    (hl : limits.get w.name = some limit) :
    Admitted (fun e : WriteEvent => ((commit cfg s t c newDialog atTime).origin e.id).made) (·.atTime)
      w.width limit ((commit cfg s t c newDialog atTime).rows.filter (matchesWindow a w)) := by
  obtain ⟨hset, hfits, hnow⟩ : PhaseOk cfg s.rows (.store c newDialog atTime) := hph ▸ h.phases t
  have hold : Admitted (fun e : WriteEvent => ((commit cfg s t c newDialog atTime).origin e.id).made)
      (·.atTime) w.width limit ((c.view s.rows).filter (matchesWindow a w)) := by
    refine Admitted.congr (fun e he => ?_)
      ((h.admitted a limits hlim w hw limit hl).sublist ((view_sublist c s.rows).filter _))
    have hid := h.fresh e ((view_sublist c s.rows).subset (List.mem_of_mem_filter he))
    simp [commit, Nat.not_le.mpr hid]
  show Admitted _ _ _ _ ((newRows c newDialog atTime s.nextId ++ c.view s.rows).filter _)
  rw [List.filter_append]
  rcases eq_or_ne a c.account with rfl | hne
  · have hlimits : limits = c.limits := by
      have := hset.inForce
      rw [hlim] at this
      exact Option.some.inj this
    subst hlimits
    cases hc : checked c.limits c.job.needs newDialog w with
    | none =>
        -- the window is skipped: the call needs nothing of it
        have hnil : (newRows c newDialog atTime s.nextId).filter (matchesWindow c.account w) = [] := by
          simp only [checked, hl] at hc
          split at hc
          · rename_i hskip
            rcases hskip with hzero | hnew
            · have hlen := newRows_window_length c newDialog atTime s.nextId w
              rw [hzero] at hlen
              exact List.eq_nil_of_length_eq_zero (Nat.le_zero.mp hlen)
            · exact newRows_window_nil (Or.inr hnew)
          · cases hc
        rw [hnil]
        exact hold
    | some found =>
        obtain ⟨limit', n⟩ := found
        have hroom := hfits w hw limit' n hc
        obtain ⟨rfl, hn⟩ : limit' = limit ∧ n = c.job.needs.get w.kind := by
          simp only [checked, hl] at hc
          split at hc
          · cases hc
          · cases hc
            exact ⟨rfl, rfl⟩
        rw [count_eq_countAfter] at hroom
        have hlen := newRows_window_length c newDialog atTime s.nextId w
        refine hold.append c.now (fun e he => ?_) (by omega)
        obtain ⟨hid, -, -, -, -, hat⟩ := mem_newRows (List.mem_of_mem_filter he)
        refine ⟨?_, by rw [hat]; exact hnow⟩
        simp [commit, originOf, hid]
  · rw [newRows_window_nil (Or.inl hne)]
    exact hold

theorem Inv.commit (h : Inv cfg s) {c : Section} {newDialog : Bool} {atTime : Time}
    (hph : s.phase t = .store c newDialog atTime) :
    Inv cfg (commit cfg s t c newDialog atTime) := by
  have hsec : (s.phase t).section? = some c := by
    rw [hph]
    rfl
  refine ⟨fun t' c' hc' => ?_, fun e he => ?_, fun t' => ?_, fun e he => ?_,
    fun a limits hlim w hw limit hl => commit_admitted h hph hlim hw hl⟩
  · rcases eq_or_ne t' t with rfl | hne
    · simp [MyPerson.WriteLimits.commit, Phase.section?] at hc'
    · have hold : (s.phase t').section? = some c' := by
        simpa [MyPerson.WriteLimits.commit, hne] using hc'
      show Function.update s.lock c.account none c'.account = some t'
      rw [Function.update_of_ne fun hacc => hne (h.alone hsec hold hacc)]
      exact h.locked t' c' hold
  · rcases List.mem_append.mp he with he | he
    · exact (mem_newRows he).2.1
    · have hid := h.fresh e ((view_sublist c s.rows).subset he)
      show e.id < s.nextId + c.job.needs.kinds.length
      omega
  · rcases eq_or_ne t' t with rfl | hne
    · simp [MyPerson.WriteLimits.commit, PhaseOk]
    · have hok : PhaseOk cfg (newRows c newDialog atTime s.nextId ++ c.view s.rows) (s.phase t') :=
        (h.phases t').keeps fun c' hc' => keeps_commit s.rows fun hacc => hne (h.alone hsec hc' hacc)
      simpa [MyPerson.WriteLimits.commit, hne] using hok
  · rcases List.mem_append.mp he with he | he
    · have hid := (mem_newRows he).1
      refine ⟨⟨(newRows c newDialog atTime s.nextId).reverse.map (·.id), c.account⟩, ?_, ?_⟩
      · simp [MyPerson.WriteLimits.commit, originOf, hid, Phase.slot?]
      · exact List.mem_map_of_mem (List.mem_reverse.mpr he)
    · have hmem := (view_sublist c s.rows).subset he
      obtain ⟨slot, hold, hid⟩ := h.owners e hmem
      refine ⟨slot, ?_, hid⟩
      simp only [MyPerson.WriteLimits.commit, if_neg (Nat.not_le.mpr (h.fresh e hmem))]
      rw [Function.update_of_ne]
      · exact hold
      · intro heq
        rw [heq, hph] at hold
        cases hold

theorem slot_none_of_beforeLock {p : Phase} (h : p.beforeLock = true) : p.slot? = none := by
  cases p <;> first | rfl | cases h

/-- **Step lemma.** Every action keeps the invariant. -/
theorem step_inv {a : Action} {s' : State} (hstep : step cfg s a = some s') (h : Inv cfg s) :
    Inv cfg s' := by
  have hphase : ∀ {t p}, s.phase t = p → PhaseOk cfg s.rows p := fun hp => hp ▸ h.phases _
  cases stepped hstep with
  | call hph hallowed => exact h.setPhase (by simp [Phase.section?]) (by simp [hph, Phase.slot?]) trivial
  | readSettings hph =>
      obtain ⟨hok, hsec⟩ := readSettings_ok cfg s _ _
      exact h.setPhase (by simp [hsec]) (by simp [hph, Phase.slot?]) hok
  | readHistory hph =>
      have hok := hphase hph
      exact h.setPhase (by simp [Phase.section?]) (by simp [hph, Phase.slot?]) hok
  | lock hph hfree => exact h.enter hph hfree
  | decideDialog hph =>
      refine h.setPhase (by simp [hph, Phase.section?]) (by simp [hph, Phase.slot?]) ⟨hphase hph, fun _ => ?_⟩
      exact ⟨[], rfl, by simp⟩
  | checkWindow hph =>
      exact h.inSection (by rw [hph]; rfl) (checkStep_section _ s.rows _ _ _) (checkStep_ok (hphase hph))
  | readRetryAfter hph =>
      exact h.setPhase (by simp [hph, Phase.section?]) (by simp [hph, Phase.slot?])
        ⟨hphase hph, fun hfull => absurd hfull (by simp)⟩
  | pace hph hjitter =>
      exact h.inSection (by rw [hph]; rfl) (paceStep_section _ s.rows _ _) (paceStep_ok (hphase hph) _)
  | commit hph => exact h.commit hph
  | abort hph => exact h.setPhase (by simp [Phase.section?]) (by simp [slot_none_of_beforeLock hph]) trivial
  | abortSection hph => exact h.leave hph rfl trivial
  | keep hph => exact h.setPhase (by simp [Phase.section?]) (by simp [hph, Phase.slot?]) trivial
  | release hph => exact h.release hph
  | message => exact ⟨h.locked, h.fresh, h.phases, h.owners, h.admitted⟩

end Steps

/-- **Run lemma.** -/
theorem run_inv {cfg : Config} {ok : State → Action → Prop} {s s' : State}
    (hrun : Run (step cfg) ok s s') (h : Inv cfg s) : Inv cfg s' :=
  hrun.invariant (fun _ _ _ hinv _ hstep => step_inv hstep hinv) h

/-! ## A call that does not fit -/

/-- A full window was found: the call can only end refused, or aborted. -/
def Phase.doomed : Phase → Bool
  | .windows _ _ _ full => !full.isEmpty
  | .retry .. => true
  | .refused _ => true
  | .aborted => true
  | _ => false

theorem slot_none_of_doomed {p : Phase} (h : p.doomed = true) : p.slot? = none := by
  cases p <;> first | rfl | cases h

theorem checkStep_doomed {c : Section} {rows : List WriteEvent} {newDialog : Bool}
    {full : List Full} (hfull : full ≠ []) (rest : List Window) :
    (checkStep c rows newDialog full rest).doomed = true := by
  cases rest with
  | nil =>
      simp only [checkStep]
      split
      · rfl
      · rename_i hnone
        exact absurd (refuseFull_eq_none.mp hnone) hfull
  | cons w rest =>
      have hne : (!full.isEmpty) = true := by simpa using hfull
      simp only [checkStep]
      split
      · exact hne
      · split
        · split
          · simp [Phase.doomed]
          · rfl
        · exact hne

/-- The check that finds a window full dooms the call. -/
theorem checkStep_full {c : Section} {rows : List WriteEvent} {newDialog : Bool} {w : Window}
    {limit n : Nat} (hc : checked c.limits c.job.needs newDialog w = some (limit, n))
    (hover : limit < count (c.view rows) c.account w c.now + n) (full : List Full)
    (rest : List Window) : (checkStep c rows newDialog full (w :: rest)).doomed = true := by
  simp only [checkStep, hc, if_pos (show count (c.view rows) c.account w c.now + n > limit from hover)]
  split
  · simp [Phase.doomed]
  · rfl

theorem step_doomed {cfg : Config} {s s' : State} {a : Action} {t : Nat}
    (hstep : step cfg s a = some s') (h : (s.phase t).doomed = true) : (s'.phase t).doomed = true := by
  -- only an action of `t` itself moves `t`
  have hmove : ∀ {t' : Nat} {p : Phase}, (t' = t → p.doomed = true) →
      (Function.update s.phase t' p t).doomed = true := by
    intro t' p hp
    rcases eq_or_ne t t' with rfl | hne
    · rw [Function.update_self]
      exact hp rfl
    · rw [Function.update_of_ne hne]
      exact h
  have hsec : ∀ {t' a' : Nat} {p : Phase}, (t' = t → p.doomed = true) →
      ((s.inSection t' a' p).phase t).doomed = true := by
    intro t' a' p hp
    unfold State.inSection
    split <;> exact hmove hp
  have hother : ∀ {t' : Nat} {p q : Phase}, s.phase t' = p → p.doomed = false → t' = t → q.doomed = true := by
    intro t' p q hp hd heq
    rw [← heq, hp, hd] at h
    cases h
  cases stepped hstep with
  | checkWindow hph =>
      refine hsec fun heq => checkStep_doomed ?_ _
      subst heq
      rw [hph] at h
      simpa [Phase.doomed] using h
  | readRetryAfter hph => exact hmove fun _ => by simp [Phase.doomed]
  | abort | abortSection => exact hmove fun _ => rfl
  | message => exact h
  -- every other action starts in a phase that is not doomed
  | pace hph => exact hsec (hother hph rfl)
  | call hph | readSettings hph | readHistory hph | lock hph | decideDialog hph | commit hph | keep hph | release hph =>
      exact hmove (hother hph rfl)

theorem run_doomed {cfg : Config} {ok : State → Action → Prop} {s s' : State} {t : Nat}
    (hrun : Run (step cfg) ok s s') (h : (s.phase t).doomed = true) : (s'.phase t).doomed = true :=
  hrun.invariant (P := fun x => (x.phase t).doomed = true)
    (fun _ _ _ hd _ hstep => step_doomed hstep hd) h

/-! ## The main result -/

/-- The stored events of the window whose planned time lies in `(T - w.seconds, T]`. -/
def storedIn (rows : List WriteEvent) (a : Nat) (w : Window) (T : Time) : List WriteEvent :=
  rows.filter fun e => matchesWindow a w e && (decide (T - w.width < e.atTime) && decide (e.atTime ≤ T))

theorem storedIn_length (rows : List WriteEvent) (a : Nat) (w : Window) (T : Time) :
    (storedIn rows a w T).length
      = countIn (·.atTime) (T - w.width) T (rows.filter (matchesWindow a w)) := by
  unfold storedIn countIn
  rw [List.countP_eq_length_filter, List.filter_filter]
  refine congrArg List.length (List.filter_congr fun e _ => ?_)
  rw [Bool.and_comm]

/-- **Write-limit windows hold.** In every reachable state no window in force holds more events than
    its limit, at any instant; and once the check of a call finds a window without room for what the
    call needs, no row of that call is ever stored. -/
theorem write_windows_hold (cfg : Config) (start : Time) (s : State)
    (hrun : Run (step cfg) Always (State.init start) s) :
    (∀ a limits, limitsInForce cfg a = some limits → ∀ w ∈ windows, ∀ limit,
      limits.get w.name = some limit → ∀ T, (storedIn s.rows a w T).length ≤ limit) ∧
    (∀ t c newDialog w rest full limit n s₁ s',
      s.phase t = .windows c newDialog (w :: rest) full →
      checked c.limits c.job.needs newDialog w = some (limit, n) →
      limit < count (c.view s.rows) c.account w c.now + n →
      step cfg s (.checkWindow t) = some s₁ → Run (step cfg) Always s₁ s' →
      ∀ e ∈ s'.rows, (s'.origin e.id).task ≠ t) := by
  have hinv : Inv cfg s := run_inv hrun (init_inv cfg start)
  constructor
  · intro a limits hlim w hw limit hl T
    rw [storedIn_length]
    exact (hinv.admitted a limits hlim w hw limit hl).window T
  · intro t c newDialog w rest full limit n s₁ s' hph hc hover hstep hrest e he htask
    have hdoomed : (s₁.phase t).doomed = true := by
      simp only [step, hph, Option.some.injEq] at hstep
      subst hstep
      have hfull := checkStep_full hc hover full rest
      unfold State.inSection
      split <;> simpa [State.setPhase, State.unlock] using hfull
    have hinv' : Inv cfg s' := run_inv hrest (step_inv hstep hinv)
    obtain ⟨slot, hslot, -⟩ := hinv'.owners e he
    rw [htask, slot_none_of_doomed (run_doomed hrest hdoomed)] at hslot
    cases hslot

/-- Account 7 may act twice an hour. -/
def windowsConfig : Config where
  newMode := true
  accounts a := if a = 7 then some ⟨"main", .max, some { actionsPerHour := some 2 }⟩ else none

/-- A group with two invited actions, as one call. -/
def windowsBundle : Job := .bundle ⟨[(.groupCreate, 1), (.action, 2)], by decide⟩ "create_group" none

/-- Two sends at one instant, the second planned 4 s later, then an action; a bundle that needs two
    more actions reaches the check of the actions window. -/
def windowsRun : List Action :=
  writeActions 0 7 (.reserve .send "send_message" (some 5)) true 0 0 ++
  writeActions 1 7 (.reserve .send "send_message" (some 5)) false 0 1000000 ++
  writeActions 2 7 (.reserve .action "pin_message" (some 5)) false 10 0 ++
  [.call 3 7 windowsBundle, .readSettings 3, .lock 3 20, .decideDialog 3,
   .checkWindow 3, .checkWindow 3, .checkWindow 3, .checkWindow 3]

theorem windowsRun_possible :
    (exec (step windowsConfig) (State.init 0) windowsRun).isSome = true := by decide

def windowsState : State := (exec (step windowsConfig) (State.init 0) windowsRun).get windowsRun_possible

/-- The section the bundle is in when it reaches the actions window. -/
def windowsSection : Section where
  eff := ⟨7, "main", .max, some { actionsPerHour := some 2 }, .account⟩
  limits := { actionsPerHour := some 2 }
  job := windowsBundle
  history := false
  now := 20

theorem windowsState_phase : windowsState.phase 3
    = .windows windowsSection false (windows.drop 4) [] := by rfl

theorem windowsCheck_possible :
    (exec (step windowsConfig) windowsState [.checkWindow 3]).isSome = true := by decide

def windowsChecked : State :=
  (exec (step windowsConfig) windowsState [.checkWindow 3]).get windowsCheck_possible

/-- The first action is given back, the rest of the loop runs. -/
def windowsRest : List Action :=
  [.release 2, .readRetryAfter 3] ++ List.replicate 6 (.checkWindow 3)

theorem windowsRest_possible :
    (exec (step windowsConfig) windowsChecked windowsRest).isSome = true := by decide

def windowsEnd : State := (exec (step windowsConfig) windowsChecked windowsRest).get windowsRest_possible

/-- The two sends share a minute within its limit, and the bundle leaves no row. -/
theorem write_windows_hold_example :
    (storedIn windowsState.rows 7
      { name := .perMinute, kind := .send, seconds := 60 } 4000000).length ≤ 5 ∧
    ∀ e ∈ windowsEnd.rows, (windowsEnd.origin e.id).task ≠ 3 := by
  obtain ⟨hbound, hdoom⟩ := write_windows_hold windowsConfig 0 windowsState (Run.get_exec windowsRun_possible)
  refine ⟨hbound 7 { actionsPerHour := some 2 } rfl _ (by decide) 5 rfl 4000000, ?_⟩
  exact hdoom 3 windowsSection false _ _ _ 2 2 windowsChecked windowsEnd windowsState_phase rfl
    (by decide) rfl (Run.get_exec windowsRest_possible)

end MyPerson.WriteLimits
