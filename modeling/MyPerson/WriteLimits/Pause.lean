import MyPerson.WriteLimits.Windows

/-!
# `WriteLimits.Pause` — the sends of an account keep their distance

A send is planned `min_interval_sec` after the last one that its section sees. Its own lock keeps other
sections of the account out until the commit, and a slot that is given back meanwhile only removes rows, so
the distance holds to every stored send (`PaceOk`). In the table, which keeps the newest row first, the planned
times of an account then fall by at least the interval from row to row (`Paced`).

## Contents
- `Moves`, `StepEffect`: what a step can do;
- `PaceOk` and the moves of a task;
- `Paced`, its step and its run;
- `sends_keep_pause`.
-/

namespace MyPerson.WriteLimits

open Lib

/-! ## What a step can do -/

/-- The steps of one task that change no row. -/
inductive Moves (cfg : Config) (s : State) : Phase → Phase → Prop
  | call (a : Nat) {job : Job} (hallowed : job.allowed = true) : Moves cfg s .idle (.called a job)
  | readSettings (a : Nat) (job : Job) : Moves cfg s (.called a job) (readSettings cfg s a job)
  | readHistory (eff : Effective) (limits : Limits) (job : Job) :
      Moves cfg s (.history eff limits job) (.atLock eff limits job (readHistory cfg s eff job))
  | lock (eff : Effective) (limits : Limits) (job : Job) (history : Bool) (now : Time) :
      Moves cfg s (.atLock eff limits job history) (.dialog ⟨eff, limits, job, history, now⟩)
  | decideDialog (c : Section) : Moves cfg s (.dialog c) (.windows c (decideDialog c s.rows) windows [])
  | checkWindow (c : Section) (newDialog : Bool) (rest : List Window) (full : List Full) :
      Moves cfg s (.windows c newDialog rest full) (checkStep c s.rows newDialog full rest)
  | readRetryAfter (c : Section) (newDialog : Bool) (w : Window) (limit used n : Nat) (rest : List Window)
      (full : List Full) (f : Full) :
      Moves cfg s (.retry c newDialog w limit used n rest full) (.windows c newDialog rest (full ++ [f]))
  | pace (c : Section) (newDialog : Bool) {jitter : Time} (hjitter : 0 ≤ jitter) :
      Moves cfg s (.pace c newDialog) (paceStep c s.rows newDialog jitter)
  | abort (p : Phase) : Moves cfg s p .aborted
  | keep (slot : Slot) : Moves cfg s (.granted slot) (.kept slot)

inductive StepEffect (cfg : Config) (s : State) : State → Prop
  /-- One task goes on. -/
  | moves {s' : State} (t : Nat) (p : Phase) (hmove : Moves cfg s (s.phase t) p)
      (hphase : s'.phase = Function.update s.phase t p) (hrows : s'.rows = s.rows) (horigin : s'.origin = s.origin) :
      StepEffect cfg s s'
  | message (m : Message) : StepEffect cfg s { s with messages := m :: s.messages }
  | released (t : Nat) (slot : Slot) : StepEffect cfg s (release s t slot)
  | committed (t : Nat) (c : Section) (newDialog : Bool) (atTime : Time)
      (hphase : s.phase t = .store c newDialog atTime) : StepEffect cfg s (commit cfg s t c newDialog atTime)

variable {cfg : Config} {s s' : State} {t : Nat}

theorem inSection_phase (a : Nat) (p : Phase) : (s.inSection t a p).phase = Function.update s.phase t p := by
  unfold State.inSection
  split <;> rfl

theorem StepEffect.inSection {p : Phase} (a : Nat) (hmove : Moves cfg s (s.phase t) p) :
    StepEffect cfg s (s.inSection t a p) := by
  refine .moves t p hmove (inSection_phase a p) ?_ ?_
  · unfold State.inSection
    split <;> rfl
  · unfold State.inSection
    split <;> rfl

/-- **Step.** A step moves one task, delivers a message, gives a slot back or commits. -/
theorem step_cases {a : Action} (hstep : step cfg s a = some s') : StepEffect cfg s s' := by
  cases stepped hstep with
  | call hph hallowed => exact .moves _ _ (hph ▸ .call _ hallowed) rfl rfl rfl
  | readSettings hph => exact .moves _ _ (hph ▸ .readSettings _ _) rfl rfl rfl
  | readHistory hph => exact .moves _ _ (hph ▸ .readHistory _ _ _) rfl rfl rfl
  | lock hph hfree => exact .moves _ _ (hph ▸ .lock _ _ _ _ _) rfl rfl rfl
  | decideDialog hph => exact .moves _ _ (hph ▸ .decideDialog _) rfl rfl rfl
  | checkWindow hph => exact .inSection _ (hph ▸ .checkWindow _ _ _ _)
  | readRetryAfter hph => exact .moves _ _ (hph ▸ .readRetryAfter _ _ _ _ _ _ _ _ _) rfl rfl rfl
  | pace hph hjitter => exact .inSection _ (hph ▸ .pace _ _ hjitter)
  | commit hph => exact .committed _ _ _ _ hph
  | abort | abortSection => exact .moves _ _ (.abort _) rfl rfl rfl
  | keep hph => exact .moves _ _ (hph ▸ .keep _) rfl rfl rfl
  | release hph => exact .released _ _
  | message => exact .message _

/-! ## What a task has planned -/

/-- The planned time lies the interval after every stored send that the section sees. -/
def AfterSends (c : Section) (rows : List WriteEvent) (atTime : Time) : Prop :=
  ∀ d, c.minInterval = some d → ∀ e ∈ c.view rows, isSend c.account e = true → e.atTime + seconds d ≤ atTime

/-- What the pause needs of a phase. -/
def PaceOk (rows : List WriteEvent) : Phase → Prop
  | .called _ job => job.allowed = true
  | .history _ _ job => job.allowed = true
  | .atLock _ _ job _ => job.allowed = true
  | .dialog c => c.job.allowed = true
  | .windows c _ _ _ => c.job.allowed = true
  | .retry c _ _ _ _ _ _ _ => c.job.allowed = true
  | .pace c _ => c.job.allowed = true
  | .store c _ atTime => c.job.allowed = true ∧ c.now ≤ atTime ∧ atTime ≤ c.now + seconds maxWaitSec ∧
      AfterSends c rows atTime
  | _ => True

variable {rows rows' : List WriteEvent} {c : Section} {newDialog : Bool} {jitter atTime : Time} {p p' : Phase}

theorem mem_of_keeps {e : WriteEvent} (hk : Keeps c.account rows rows') (he : e ∈ c.view rows')
    (hacc : e.accountId = c.account) : e ∈ c.view rows := by
  have hin : e ∈ (c.view rows').filter (·.accountId == c.account) :=
    List.mem_filter.mpr ⟨he, beq_iff_eq.mpr hacc⟩
  exact List.mem_of_mem_filter (hk.view.subset hin)

theorem isSend_account {a : Nat} {e : WriteEvent} (h : isSend a e = true) : e.accountId = a ∧ e.kind = .send := by
  unfold isSend at h
  exact ⟨beq_iff_eq.mp (Bool.and_eq_true_iff.mp h).1, beq_iff_eq.mp (Bool.and_eq_true_iff.mp h).2⟩

/-- Fewer rows of the account leave the distance. -/
theorem PaceOk.keeps (hk : ∀ c, p.section? = some c → Keeps c.account rows rows') (h : PaceOk rows p) :
    PaceOk rows' p := by
  cases p with
  | store c newDialog atTime =>
      obtain ⟨hallowed, hnow, hwait, hafter⟩ := h
      refine ⟨hallowed, hnow, hwait, fun d hd e he hsend => ?_⟩
      exact hafter d hd e (mem_of_keeps (hk c rfl) he (isSend_account hsend).1) hsend
  | _ => exact h

/-- The last send is the latest one. -/
theorem le_lastSend {a : Nat} {e : WriteEvent} (he : e ∈ rows) (hsend : isSend a e = true) :
    ∃ last, lastSend rows a = some last ∧ e.atTime ≤ last := by
  have hmem : e.atTime ∈ (rows.filter (isSend a)).map (·.atTime) :=
    List.mem_map_of_mem (List.mem_filter.mpr ⟨he, hsend⟩)
  cases hlast : lastSend rows a with
  | none =>
      unfold lastSend at hlast
      rw [List.max?_eq_none_iff.mp hlast] at hmem
      cases hmem
  | some last => exact ⟨last, rfl, (List.max?_le_iff hlast).mp (le_refl last) _ hmem⟩

/-- **Pause.** The time that a send is planned for. -/
theorem planned_after (hjitter : 0 ≤ jitter) : AfterSends c rows (planned c rows jitter) := by
  intro d hd e he hsend
  obtain ⟨last, hlast, hle⟩ := le_lastSend he hsend
  unfold planned
  rw [hd, hlast]
  have hmax := le_max_right c.now (last + (seconds d + jitter))
  dsimp only
  linarith

theorem checkStep_paceOk (hallowed : c.job.allowed = true) (full : List Full) (rest : List Window) :
    PaceOk rows (checkStep c s.rows newDialog full rest) := by
  cases rest with
  | nil =>
      simp only [checkStep]
      split
      · trivial
      · exact hallowed
  | cons w rest =>
      simp only [checkStep]
      split
      · exact hallowed
      · split
        · split <;> exact hallowed
        · exact hallowed

/-- **Moves.** A task plans no send too early. -/
theorem PaceOk.moves (h : PaceOk s.rows p) (hmove : Moves cfg s p p') : PaceOk s.rows p' := by
  cases hmove with
  | call a hallowed => exact hallowed
  | readSettings a job =>
      have hallowed : job.allowed = true := h
      unfold WriteLimits.readSettings
      split
      · trivial
      · split
        · trivial
        · split
          · trivial
          · split
            · exact hallowed
            · split <;> exact hallowed
  | checkWindow c newDialog rest full => exact checkStep_paceOk h full rest
  | pace c newDialog hjitter =>
      unfold paceStep
      dsimp only
      split
      · trivial
      · rename_i hwait
        refine ⟨h, now_le_planned c s.rows _, ?_, planned_after hjitter⟩
        exact sub_le_iff_le_add'.mp (not_lt.mp hwait)
  | abort p => trivial
  | keep slot => trivial
  | _ => exact h

/-! ## The table -/

/-- The pause that is in force for an account. -/
def pauseInForce (cfg : Config) (a : Nat) : Option Nat :=
  (limitsInForce cfg a).bind fun limits => limits.minIntervalSec.filter (· ≠ 0)

structure Paced (cfg : Config) (s : State) : Prop where
  phases : ∀ t, PaceOk s.rows (s.phase t)
  /-- Newest row first, the planned times of an account's sends fall by the pause from row to row. -/
  spaced : ∀ a d, pauseInForce cfg a = some d →
    s.rows.Pairwise fun e e' => isSend a e = true → isSend a e' = true → e'.atTime + seconds d ≤ e.atTime
  waits : ∀ e ∈ s.rows, (s.origin e.id).made ≤ e.atTime ∧ e.atTime ≤ (s.origin e.id).made + seconds maxWaitSec

theorem init_paced (cfg : Config) (start : Time) : Paced cfg (State.init start) where
  phases _ := trivial
  spaced _ _ _ := List.Pairwise.nil
  waits _ h := by cases h

/-- Every send is a call of its own. -/
theorem send_of_mem_newRows {nextId : Nat} {e : WriteEvent} (hallowed : c.job.allowed = true)
    (he : e ∈ newRows c newDialog atTime nextId) (hkind : e.kind = .send) :
    ∃ tool chatId, c.job = .reserve .send tool chatId := by
  have hmem : Kind.send ∈ c.job.needs.kinds := by
    rw [← hkind, ← List.mem_reverse, ← newRows_kinds c newDialog atTime nextId]
    exact List.mem_map_of_mem he
  cases hjob : c.job with
  | reserve kind tool chatId =>
      rw [hjob] at hmem
      obtain rfl : Kind.send = kind := by simpa [Job.needs] using hmem
      exact ⟨tool, chatId, rfl⟩
  | bundle needs tool chatId =>
      rw [hjob] at hmem hallowed
      obtain ⟨entry, hentry, hrep⟩ := List.mem_flatMap.mp hmem
      have hin := List.all_eq_true.mp hallowed entry hentry
      rw [← List.eq_of_mem_replicate hrep] at hin
      exact absurd hin (by decide)

theorem newRows_spaced {nextId a : Nat} {d : Nat} (hallowed : c.job.allowed = true) :
    (newRows c newDialog atTime nextId).Pairwise fun e e' =>
      isSend a e = true → isSend a e' = true → e'.atTime + seconds d ≤ e.atTime := by
  by_cases hsends : ∃ e ∈ newRows c newDialog atTime nextId, e.kind = .send
  · obtain ⟨e, he, hkind⟩ := hsends
    obtain ⟨tool, chatId, hjob⟩ := send_of_mem_newRows hallowed he hkind
    have hone : (newRows c newDialog atTime nextId).length = 1 := by
      rw [← List.length_map (f := (·.kind)), newRows_kinds, hjob]
      rfl
    obtain ⟨x, hx⟩ := List.length_eq_one_iff.mp hone
    rw [hx]
    exact List.pairwise_singleton _ _
  · refine List.pairwise_of_forall_mem_list fun e he _ _ hsend => ?_
    exact absurd ⟨e, he, (isSend_account hsend).2⟩ hsends

/-- **Commit.** The new send comes after all that are stored. -/
theorem Paced.commit (h : Paced cfg s) (hinv : Inv cfg s) (hph : s.phase t = .store c newDialog atTime) :
    Paced cfg (commit cfg s t c newDialog atTime) := by
  obtain ⟨hallowed, hnow, hwait, hafter⟩ : PaceOk s.rows (.store c newDialog atTime) := hph ▸ h.phases t
  have hset : SettingsOk cfg c.eff c.limits c.job :=
    (hph ▸ hinv.phases t : PhaseOk cfg s.rows (.store c newDialog atTime)).1
  have hsec : (s.phase t).section? = some c := by
    rw [hph]
    rfl
  refine ⟨fun t' => ?_, fun a d hd => ?_, fun e he => ?_⟩
  · rcases eq_or_ne t' t with rfl | hne
    · simp [MyPerson.WriteLimits.commit, PaceOk]
    · have hok : PaceOk (newRows c newDialog atTime s.nextId ++ c.view s.rows) (s.phase t') :=
        (h.phases t').keeps fun c' hc' => keeps_commit s.rows fun hacc => hne (hinv.alone hsec hc' hacc)
      simpa [MyPerson.WriteLimits.commit, hne] using hok
  · refine List.pairwise_append.mpr ⟨newRows_spaced hallowed, (h.spaced a d hd).sublist (view_sublist c s.rows), ?_⟩
    intro e he e' he' hsend hsend'
    obtain ⟨-, -, hacc, -, -, hat⟩ := mem_newRows he
    obtain ⟨tool, chatId, hjob⟩ := send_of_mem_newRows hallowed he (isSend_account hsend).2
    obtain rfl : c.account = a := hacc.symm.trans (isSend_account hsend).1
    have hmin : c.minInterval = some d := by
      unfold pauseInForce at hd
      rw [hset.inForce, Option.bind_some] at hd
      unfold Section.minInterval
      rw [hjob]
      exact hd
    rw [hat]
    exact hafter d hmin e' he' hsend'
  · rcases List.mem_append.mp he with he | he
    · obtain ⟨hid, -, -, -, -, hat⟩ := mem_newRows he
      have hmade : ((MyPerson.WriteLimits.commit cfg s t c newDialog atTime).origin e.id).made = c.now := by
        simp [MyPerson.WriteLimits.commit, originOf, hid]
      rw [hmade, hat]
      exact ⟨hnow, hwait⟩
    · have hmem := (view_sublist c s.rows).subset he
      have hold : (MyPerson.WriteLimits.commit cfg s t c newDialog atTime).origin e.id = s.origin e.id :=
        if_neg (Nat.not_le.mpr (hinv.fresh e hmem))
      rw [hold]
      exact h.waits e hmem

theorem Paced.release (h : Paced cfg s) (slot : Slot) : Paced cfg (release s t slot) := by
  have hsub : (slot.rowsLeft s.rows).Sublist s.rows := List.filter_sublist
  refine ⟨fun t' => ?_, fun a d hd => (h.spaced a d hd).sublist hsub, fun e he => h.waits e (hsub.subset he)⟩
  rcases eq_or_ne t' t with rfl | hne
  · simp [MyPerson.WriteLimits.release, PaceOk]
  · have hok := (h.phases t').keeps fun c _ => Keeps.of_sublist c.account hsub
    simpa [MyPerson.WriteLimits.release, hne] using hok

/-- **Step.** -/
theorem step_paced {a : Action} (hstep : step cfg s a = some s') (hinv : Inv cfg s) (h : Paced cfg s) :
    Paced cfg s' := by
  cases step_cases hstep with
  | moves t p hmove hphase hrows horigin =>
      refine ⟨fun t' => ?_, fun a d hd => ?_, fun e he => ?_⟩
      · rw [hphase, hrows]
        rcases eq_or_ne t' t with rfl | hne
        · rw [Function.update_self]
          exact (h.phases t').moves hmove
        · rw [Function.update_of_ne hne]
          exact h.phases t'
      · rw [hrows]
        exact h.spaced a d hd
      · rw [hrows] at he
        rw [horigin]
        exact h.waits e he
  | message m => exact ⟨h.phases, h.spaced, h.waits⟩
  | released t slot => exact h.release slot
  | committed t c newDialog atTime hphase => exact h.commit hinv hphase

/-- **Run.** -/
theorem run_paced {ok : State → Action → Prop} (hrun : Run (step cfg) ok s s') (hinv : Inv cfg s) (h : Paced cfg s) :
    Inv cfg s' ∧ Paced cfg s' :=
  hrun.invariant (P := fun x => Inv cfg x ∧ Paced cfg x)
    (fun _ _ _ hx _ hstep => ⟨step_inv hstep hx.1, step_paced hstep hx.1 hx.2⟩) ⟨hinv, h⟩

/-! ## The main result -/

structure PauseHolds (cfg : Config) (s : State) : Prop where
  /-- Any two stored sends of an account are planned `min_interval_sec` apart. -/
  apart : ∀ a limits d, limitsInForce cfg a = some limits → limits.minIntervalSec = some d →
    s.rows.Pairwise fun e e' => isSend a e = true → isSend a e' = true → seconds d ≤ |e.atTime - e'.atTime|
  /-- A call that is granted was planned no earlier than its own time and no later than the longest wait. -/
  granted : ∀ t c newDialog atTime, s.phase t = .store c newDialog atTime →
    c.now ≤ atTime ∧ atTime ≤ c.now + seconds maxWaitSec
  stored : ∀ e ∈ s.rows, (s.origin e.id).made ≤ e.atTime ∧ e.atTime ≤ (s.origin e.id).made + seconds maxWaitSec
  refused : ∀ t error, s.phase t = .refused error → ∀ e ∈ s.rows, (s.origin e.id).task ≠ t

theorem Paced.pauseHolds (h : Paced cfg s) (hinv : Inv cfg s) : PauseHolds cfg s := by
  refine ⟨fun a limits d hlimits hd => ?_, fun t c newDialog atTime hph => ?_, h.waits, fun t error hph e he htask => ?_⟩
  · by_cases hzero : d = 0
    · refine List.pairwise_of_forall fun e e' _ _ => ?_
      rw [hzero]
      exact abs_nonneg _
    · have hpause : pauseInForce cfg a = some d := by
        unfold pauseInForce
        rw [hlimits, Option.bind_some, hd]
        simp [hzero]
      refine (h.spaced a d hpause).imp fun hle hsend hsend' => ?_
      exact (le_sub_iff_add_le'.mpr (hle hsend hsend')).trans (le_abs_self _)
  · have hok : PaceOk s.rows (.store c newDialog atTime) := hph ▸ h.phases t
    exact ⟨hok.2.1, hok.2.2.1⟩
  · obtain ⟨slot, hslot, -⟩ := hinv.owners e he
    rw [htask, hph] at hslot
    cases hslot

/-- **Pause between sends.** In every reachable state any two stored sends of an account are planned at least its
    `min_interval_sec` apart, whatever slots were given back, purged or refused; no call waits longer than
    `maxWaitSec` or is planned before it was made, and a refused call stores nothing. -/
theorem sends_keep_pause (cfg : Config) (start : Time) (s : State)
    (hrun : Run (step cfg) Always (State.init start) s) : PauseHolds cfg s := by
  obtain ⟨hinv, hpaced⟩ := run_paced hrun (init_inv cfg start) (init_paced cfg start)
  exact hpaced.pauseHolds hinv

/-- The two sends of a run are planned four seconds apart. -/
theorem sends_keep_pause_example :
    windowsState.rows.length = 3 ∧ PauseHolds windowsConfig windowsState :=
  ⟨by decide, sends_keep_pause windowsConfig 0 windowsState (Run.get_exec windowsRun_possible)⟩

end MyPerson.WriteLimits
