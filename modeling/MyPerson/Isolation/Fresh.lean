import MyPerson.Isolation.Advance
import MyPerson.Isolation.Commits

/-!
# `Isolation.Fresh` — copy plus delta, and a fresh copy

The invariant of every run whose legacy writes the next delta carries: up to the filter of the delta that starts
from it, the tables are what the legacy tables ask for. A delta that nothing interrupts closes the rest, and so
does a copy into empty tables, so both leave the same messages and media.

## Contents
- `Inv`, its step and its run;
- `Sealed`, of a run that nothing interrupts;
- `Finishes`, `CopiedAfresh`, `copy_delta_fresh`;
- runs on one supergroup: an edit that is carried, and one that is stored too late.
-/

namespace MyPerson.Isolation

open Lib
open WriteLimits (Platform)

variable {ctx : Ctx} {E : Excuse} {s t : State} {L : Legacy}

/-! ## The invariant -/

/-- The mark up to whose filter the facts of a run hold: a copy leaves the watermark, a delta moves it to the
    position it has read. -/
def RunState.target (r : RunState) (s : State) : Option Mark :=
  if r.since.isNone then s.watermark else some r.position

structure Inv (ctx : Ctx) (s : State) : Prop where
  valid : s.legacy.Valid ctx
  kept : Kept ctx s.legacy s.tables
  unmarked : s.watermark = none → s.tables = .empty ∧ s.copied = false ∧
    ∀ r, s.run = some r → ∃ rest, r.stage = .reading rest
  current : ∀ w, s.watermark = some w → Current ctx w.excuse s.legacy s.tables
  whole : s.copied = true → ∀ w, s.watermark = some w → Whole ctx w.excuse s.legacy s.tables
  since : ∀ r w, s.run = some r → r.since = some w → s.watermark = some w ∧ s.copied = true
  facts : ∀ r w, s.run = some r → r.target s = some w → Facts ctx w.excuse s.legacy s.tables r.stage

theorem valid_empty : Legacy.empty.Valid ctx :=
  ⟨fun _ => List.nodup_nil, fun _ => List.nodup_nil, fun _ _ h => absurd h List.not_mem_nil,
    fun _ h => absurd h List.not_mem_nil, fun _ h => absurd h List.not_mem_nil,
    fun _ _ h => absurd h List.not_mem_nil⟩

theorem kept_empty : Kept ctx L .empty :=
  ⟨List.nodup_nil, fun _ h => absurd h List.not_mem_nil, (by rintro _ _ ⟨⟩), (by rintro _ _ ⟨⟩)⟩

theorem current_empty : Current ctx E L .empty := by
  rintro _ _ _ _ _ ⟨⟩

theorem inv_start (ctx : Ctx) (clock : Nat) : Inv ctx (State.start .empty clock) :=
  ⟨valid_empty, kept_empty, fun _ => ⟨rfl, rfl, (by rintro _ ⟨⟩)⟩, (by rintro _ ⟨⟩), (by rintro ⟨⟩), (by rintro _ _ ⟨⟩),
    (by rintro _ _ ⟨⟩)⟩

/-- A run ends, or is given up: what it has committed stays. -/
theorem Inv.withoutRun (h : Inv ctx s) : Inv ctx { s with run := none } :=
  ⟨h.valid, h.kept, fun hw => ⟨(h.unmarked hw).1, (h.unmarked hw).2.1, (by rintro _ ⟨⟩)⟩, h.current, h.whole,
    (by rintro _ _ ⟨⟩), (by rintro _ _ ⟨⟩)⟩

theorem Inv.tick (h : Inv ctx s) (d : Nat) : Inv ctx { s with clock := s.clock + d } :=
  ⟨h.valid, h.kept, h.unmarked, h.current, h.whole, h.since, h.facts⟩

/-- A run that still reads its position has established nothing. -/
theorem Inv.reading (h : Inv ctx s) {since : Option Mark} {position : Mark} {rest : List Source}
    (hsince : ∀ w, since = some w → s.watermark = some w ∧ s.copied = true) :
    Inv ctx { s with run := some ⟨since, position, .reading rest⟩ } := by
  refine ⟨h.valid, h.kept, fun hw => ⟨(h.unmarked hw).1, (h.unmarked hw).2.1, ?_⟩, h.current, h.whole, ?_, ?_⟩
  · rintro _ ⟨⟩
    exact ⟨rest, rfl⟩
  · rintro _ w ⟨⟩ hr
    exact hsince w hr
  · rintro _ w ⟨⟩ -
    exact trivial

/-- **Transaction.** -/
theorem Inv.commit (h : Inv ctx s) {L' : Legacy} (hcarries : Carries ctx s (.commit L')) :
    Inv ctx { s with legacy := L' } := by
  obtain ⟨hL', hfollows, hahead⟩ := hcarries
  have hmark : ∀ w, s.watermark = some w → Ahead ctx w.excuse s.legacy L' := by
    intro w hw
    exact hahead w (by simp [State.marks, hw])
  refine ⟨hL', h.kept.commit hfollows h.valid hL', h.unmarked, ?current, ?whole, h.since, ?facts⟩
  case current => exact fun w hw => (h.current w hw).commit hfollows h.valid hL' h.kept (hmark w hw)
  case whole => exact fun hcopied w hw => (h.whole hcopied w hw).commit h.valid (hmark w hw)
  case facts =>
    intro r w (hr : s.run = some r) htarget
    have hfacts := h.facts r w hr htarget
    -- the first reads promise nothing, after them the run has a mark
    by_cases hreading : ∃ rest, r.stage = .reading rest
    · obtain ⟨rest, hrest⟩ := hreading
      rw [hrest]
      exact trivial
    · have hmarked : Ahead ctx w.excuse s.legacy L' := by
        cases hsince : r.since with
        | none => exact hmark w (by simpa [RunState.target, hsince] using htarget)
        | some w₀ =>
            have hposition : r.mark = some w := by
              have htarget' : r.position = w := by simpa [RunState.target, hsince] using htarget
              unfold RunState.mark
              rw [hsince, htarget']
              cases hstage : r.stage with
              | reading rest => exact absurd ⟨rest, hstage⟩ hreading
              | _ => rfl
            exact hahead w (by simp [State.marks, hr, hposition])
      exact Facts.commit (s := s) hr hfacts hfollows h.valid hL' h.kept hmarked

/-! ## A statement of a run -/

theorem Inv.marked (h : Inv ctx s) {r : RunState} (hr : s.run = some r) (hreading : ∀ rest, r.stage ≠ .reading rest) :
    ∃ w, s.watermark = some w := by
  cases hw : s.watermark with
  | some w => exact ⟨w, rfl⟩
  | none =>
      obtain ⟨rest, hrest⟩ := (h.unmarked hw).2.2 r hr
      exact absurd hrest (hreading rest)

/-- The tables after a statement, the watermark being `w`. -/
theorem Inv.runStage_facts (h : Inv ctx s) {r : RunState} (hr : s.run = some r) {w : Mark} (hw : s.watermark = some w)
    {T' : Tables} {stage' : Stage} (hstage : runStage ctx s.legacy s.tables r.since r.stage = some (T', stage')) :
    Kept ctx s.legacy T' ∧ Current ctx w.excuse s.legacy T' ∧
      ∀ w', r.target s = some w' → Facts ctx w'.excuse s.legacy T' stage' := by
  cases hsince : r.since with
  | none =>
      have htarget : r.target s = some w := by simp [RunState.target, hsince, hw]
      rw [hsince] at hstage
      have hbasis : Basis ctx w.excuse s.legacy s.tables none := h.current w hw
      obtain ⟨hkept, hbasis, hfacts⟩ := Isolation.runStage_facts h.valid h.kept hbasis (h.facts r w hr htarget) hstage
      refine ⟨hkept, hbasis, fun w' hw' => ?_⟩
      rw [htarget] at hw'
      cases hw'
      exact hfacts
  | some w₀ =>
      obtain ⟨hw₀, hcopied⟩ := h.since r w₀ hr hsince
      obtain rfl : w = w₀ := Option.some.inj (hw.symm.trans hw₀)
      have htarget : r.target s = some r.position := by simp [RunState.target, hsince]
      rw [hsince] at hstage
      have hbasis : Basis ctx r.position.excuse s.legacy s.tables (some w) := ⟨h.current w hw, h.whole hcopied w hw⟩
      obtain ⟨hkept, hbasis, hfacts⟩ := Isolation.runStage_facts h.valid h.kept hbasis
        (h.facts r r.position hr htarget) hstage
      refine ⟨hkept, hbasis.1, fun w' hw' => ?_⟩
      rw [htarget] at hw'
      cases hw'
      exact hfacts

theorem Inv.runStage (h : Inv ctx s) {r : RunState} (hr : s.run = some r) (hreading : ∀ rest, r.stage ≠ .reading rest)
    {T' : Tables} {stage' : Stage} (hstage : runStage ctx s.legacy s.tables r.since r.stage = some (T', stage')) :
    Inv ctx { s with tables := T', run := some { r with stage := stage' } } := by
  obtain ⟨w, hw⟩ := h.marked hr hreading
  obtain ⟨hchats, hrows, hmedia⟩ := runStage_grows hstage
  obtain ⟨hkept, hcurrent, hfacts⟩ := h.runStage_facts hr hw hstage
  refine ⟨h.valid, hkept, fun hnone => ?unmarked, fun w' hw' => ?current, fun hcopied w' hw' => ?whole, ?since, ?facts⟩
  case unmarked => exact absurd (hw.symm.trans hnone) (by rintro ⟨⟩)
  case current =>
    obtain rfl : w = w' := Option.some.inj (hw.symm.trans hw')
    exact hcurrent
  case whole => exact (h.whole hcopied w' hw').mono hchats hrows hmedia
  case since =>
    rintro _ w' ⟨⟩ hsince
    exact h.since r w' hr hsince
  case facts =>
    rintro _ w' ⟨⟩ htarget
    exact hfacts w' htarget

/-- The position is read: the first copy marks it, on empty tables. -/
theorem Inv.mark (h : Inv ctx s) {r : RunState} (hr : s.run = some r) :
    Inv ctx { s with
      watermark := if r.since.isNone then s.watermark.or (some r.position) else s.watermark
      run := some { r with stage := .identities } } := by
  cases hsince : r.since with
  | some w =>
      have hmarked := h.since r w hr hsince
      refine ⟨h.valid, h.kept, fun hnone => absurd (hmarked.1.symm.trans hnone) (by rintro ⟨⟩), h.current, h.whole, ?_,
        (by rintro _ w' ⟨⟩ -; exact trivial)⟩
      rintro _ w' ⟨⟩ hsince'
      exact h.since r w' hr (hsince.trans hsince')
  | none =>
      cases hold : s.watermark with
      | some w₀ =>
          -- an older mark stays
          refine ⟨h.valid, h.kept, (by rintro ⟨⟩), ?_, ?_, (by rintro _ w ⟨⟩ ⟨⟩),
            (by rintro _ w' ⟨⟩ -; exact trivial)⟩
          · rintro w ⟨⟩
            exact h.current w₀ hold
          · rintro hcopied w ⟨⟩
            exact h.whole hcopied w₀ hold
      | none =>
          obtain ⟨hempty, hcopied, -⟩ := h.unmarked hold
          refine ⟨h.valid, h.kept, (by rintro ⟨⟩), fun w _ => ?_, fun hcopied' => ?_, (by rintro _ w ⟨⟩ ⟨⟩),
            (by rintro _ w' ⟨⟩ -; exact trivial)⟩
          · show Current ctx w.excuse s.legacy s.tables
            rw [hempty]
            exact current_empty
          · exact absurd (hcopied.symm.trans hcopied') (by decide)

/-- The run ends: a delta writes its position. -/
theorem Inv.finish (h : Inv ctx s) {r : RunState} (hr : s.run = some r) (hstage : r.stage = .rest) :
    Inv ctx { s with
      watermark := if r.since.isNone then s.watermark else some r.position
      copied := r.since.isNone || s.copied
      run := none } := by
  obtain ⟨w, hw⟩ := h.marked hr (fun rest hrest => by rw [hstage] at hrest; cases hrest)
  have hrest : ∀ w', r.target s = some w' → Facts ctx w'.excuse s.legacy s.tables .rest :=
    fun w' hw' => hstage ▸ h.facts r w' hr hw'
  cases hsince : r.since with
  | none =>
      have hfacts := hrest w (by simp [RunState.target, hsince, hw])
      refine ⟨h.valid, h.kept, fun hnone => absurd (hw.symm.trans hnone) (by rintro ⟨⟩), h.current, fun _ w' hw' => ?_,
        (by rintro _ _ ⟨⟩), (by rintro _ _ ⟨⟩)⟩
      obtain rfl : w = w' := Option.some.inj (hw.symm.trans hw')
      exact .of_rest hfacts
  | some w₀ =>
      have hfacts := hrest r.position (by simp [RunState.target, hsince])
      refine ⟨h.valid, h.kept, (by rintro ⟨⟩), ?_, ?_, (by rintro _ _ ⟨⟩), (by rintro _ _ ⟨⟩)⟩
      · rintro w' ⟨⟩
        exact .of_rest hfacts
      · rintro - w' ⟨⟩
        exact .of_rest hfacts

/-- What a statement of a run is. -/
theorem advance_cases {r : RunState} (h : advance ctx s r = some t) :
    (∃ source rest, r.stage = .reading (source :: rest) ∧ t = { s with
      run := some { r with position := r.position.read source s.legacy, stage := .reading rest } }) ∨
    (r.stage = .reading [] ∧ t = { s with
      watermark := if r.since.isNone then s.watermark.or (some r.position) else s.watermark
      run := some { r with stage := .identities } }) ∨
    (r.stage = .rest ∧ t = { s with
      watermark := if r.since.isNone then s.watermark else some r.position
      copied := r.since.isNone || s.copied
      run := none }) ∨
    ((∀ rest, r.stage ≠ .reading rest) ∧ r.stage ≠ .rest ∧ ∃ T' stage',
      runStage ctx s.legacy s.tables r.since r.stage = some (T', stage') ∧
      t = { s with tables := T', run := some { r with stage := stage' } }) := by
  unfold advance at h
  split at h
  case h_1 source rest hstage =>
    cases h
    exact Or.inl ⟨source, rest, hstage, rfl⟩
  case h_2 hstage =>
    cases h
    exact Or.inr (Or.inl ⟨hstage, rfl⟩)
  case h_3 hstage =>
    cases h
    exact Or.inr (Or.inr (Or.inl ⟨hstage, rfl⟩))
  case h_4 hcons hnil hrest =>
    obtain ⟨⟨T', stage'⟩, hrun, rfl⟩ := Option.map_eq_some_iff.mp h
    refine Or.inr (Or.inr (Or.inr ⟨fun rest hstage => ?_, hrest, T', stage', hrun, rfl⟩))
    cases rest with
    | nil => exact hnil hstage
    | cons source rest => exact hcons source rest hstage

/-- **Statement.** -/
theorem Inv.advance (h : Inv ctx s) {r : RunState} (hr : s.run = some r) (hadvance : advance ctx s r = some t) :
    Inv ctx t := by
  rcases advance_cases hadvance with ⟨source, rest, hstage, rfl⟩ | ⟨hstage, rfl⟩ | ⟨hstage, rfl⟩ |
    ⟨hreading, -, T', stage', hstage, rfl⟩
  · exact h.reading fun w hw => h.since r w hr hw
  · exact h.mark hr
  · exact h.finish hr hstage
  · exact h.runStage hr hreading hstage

/-- **Step.** -/
theorem inv_step {action : Action} (h : Inv ctx s) (hok : Carries ctx s action) (hstep : step ctx s action = some t) :
    Inv ctx t := by
  cases action with
  | tick d =>
      cases hstep
      exact h.tick d
  | commit L' =>
      cases hstep
      exact h.commit hok
  | startCopy =>
      simp only [step] at hstep
      split at hstep
      · cases hstep
        exact h.reading (by rintro _ ⟨⟩)
      · cases hstep
  | startDelta =>
      simp only [step] at hstep
      split at hstep
      · rename_i w hrun hw
        cases hstep
        refine h.reading ?_
        rintro _ ⟨⟩
        exact ⟨hw, hok⟩
      · cases hstep
  | advance =>
      obtain ⟨r, hr, hadvance⟩ := Option.bind_eq_some_iff.mp hstep
      exact h.advance hr hadvance
  | abort =>
      obtain ⟨r, -, rfl⟩ := Option.map_eq_some_iff.mp hstep
      exact h.withoutRun

/-- **Run.** -/
theorem inv_run {clock : Nat} (h : Run (step ctx) (Carries ctx) (State.start .empty clock) s) : Inv ctx s :=
  h.invariant (fun _ _ _ hinv hok hstep => inv_step hinv hok hstep) (inv_start ctx clock)

/-! ## A run that nothing interrupts -/

/-- No transaction, no start, no stop. -/
def Quiet : State → Action → Prop
  | _, .advance | _, .tick _ => True
  | _, _ => False

/-- The run and its end, while the legacy tables stay `L`: the facts hold up to nothing. -/
structure Sealed (ctx : Ctx) (L : Legacy) (s : State) : Prop where
  legacy : s.legacy = L
  kept : Kept ctx L s.tables
  underway : ∀ r, s.run = some r → Basis ctx .nothing L s.tables r.since ∧ Facts ctx .nothing L s.tables r.stage
  ended : s.run = none → Facts ctx .nothing L s.tables .rest

theorem sealed_step (hL : L.Valid ctx) {action : Action} (h : Sealed ctx L s) (hok : Quiet s action)
    (hstep : step ctx s action = some t) : Sealed ctx L t := by
  cases action with
  | tick d =>
      cases hstep
      exact ⟨h.legacy, h.kept, h.underway, h.ended⟩
  | advance =>
      obtain ⟨r, hr, hadvance⟩ := Option.bind_eq_some_iff.mp hstep
      obtain ⟨hbasis, hfacts⟩ := h.underway r hr
      rcases advance_cases hadvance with ⟨source, rest, hstage, rfl⟩ | ⟨hstage, rfl⟩ | ⟨hstage, rfl⟩ |
        ⟨-, -, T', stage', hstage, rfl⟩
      · exact ⟨h.legacy, h.kept, (by rintro _ ⟨⟩; exact ⟨hbasis, trivial⟩), (by rintro ⟨⟩)⟩
      · exact ⟨h.legacy, h.kept, (by rintro _ ⟨⟩; exact ⟨hbasis, trivial⟩), (by rintro ⟨⟩)⟩
      · exact ⟨h.legacy, h.kept, (by rintro _ ⟨⟩), fun _ => hstage ▸ hfacts⟩
      · obtain ⟨hkept, hbasis, hfacts⟩ := runStage_facts hL h.kept hbasis hfacts (h.legacy ▸ hstage)
        exact ⟨h.legacy, hkept, (by rintro _ ⟨⟩; exact ⟨hbasis, hfacts⟩), (by rintro ⟨⟩)⟩
  | commit _ => exact hok.elim
  | startCopy => exact hok.elim
  | startDelta => exact hok.elim
  | abort => exact hok.elim

theorem exact_of_sealed (hL : L.Valid ctx) (hs : Sealed ctx L s) (h : Run (step ctx) Quiet s t)
    (hend : t.run = none) : Exact ctx L t.tables := by
  have ht : Sealed ctx L t := h.invariant (fun _ _ _ hx hok hstep => sealed_step hL hx hok hstep) hs
  exact .of_facts hL ht.kept (ht.ended hend)

/-! ## Copy plus delta equals a fresh copy -/

/-- A run started in `s` comes to its end in `t`, and nothing is written meanwhile. -/
def Finishes (ctx : Ctx) (start : Action) (s t : State) : Prop :=
  ∃ u, step ctx s start = some u ∧ Run (step ctx) Quiet u t ∧ t.run = none

/-- After a delta the messages and media are those of a copy into empty tables, and each message of a private chat
    or basic group has one Telegram account. -/
def CopiedAfresh (ctx : Ctx) (s : State) : Prop :=
  ∀ t, Finishes ctx .startDelta s t →
    (∀ clock f, Finishes ctx .startCopy (State.start s.legacy clock) f →
      t.tables.messages = f.tables.messages ∧ t.tables.media = f.tables.media) ∧
    ∀ m ∈ s.legacy.messages .telegram, s.legacy.privateChat m.chatId = true →
      ∃! a, ctx.AccountOn .telegram a ∧ (t.tables.messages (keyOf a m)).isSome

theorem exact_delta (h : Inv ctx s) (hcopied : s.copied = true) (hdelta : Finishes ctx .startDelta s t) :
    Exact ctx s.legacy t.tables := by
  obtain ⟨u, hstart, hrun, hend⟩ := hdelta
  refine exact_of_sealed h.valid ?_ hrun hend
  simp only [step] at hstart
  split at hstart
  · rename_i w hnone hw
    cases hstart
    refine ⟨rfl, h.kept, ?_, (by rintro ⟨⟩)⟩
    rintro _ ⟨⟩
    exact ⟨⟨h.current w hw, h.whole hcopied w hw⟩, trivial⟩
  · cases hstart

theorem exact_fresh {clock : Nat} (hL : L.Valid ctx) (hcopy : Finishes ctx .startCopy (State.start L clock) t) :
    Exact ctx L t.tables := by
  obtain ⟨u, hstart, hrun, hend⟩ := hcopy
  refine exact_of_sealed hL ?_ hrun hend
  cases hstart
  refine ⟨rfl, kept_empty, ?_, (by rintro ⟨⟩)⟩
  rintro _ ⟨⟩
  exact ⟨current_empty, trivial⟩

/-- An account has the row of a message where it wants the message. -/
theorem Exact.isSome_iff {T : Tables} {m : LegacyMessage} {p : Platform} {a : Int} (hL : L.Valid ctx)
    (h : Exact ctx L T) (hm : m ∈ L.messages p) (ha : ctx.AccountOn p a) :
    (T.messages (keyOf a m)).isSome ↔ Wants ctx L p m a := by
  constructor
  · intro hsome
    obtain ⟨row, hrow⟩ := Option.isSome_iff_exists.mp hsome
    obtain ⟨q, m', b, hw, hk, -⟩ := (h.rows _ row).mp hrow
    obtain ⟨rfl, hchat, hmessage⟩ := MessageKey.mk.injEq .. ▸ hk
    obtain rfl := ha.unique (hw.accountOn hL)
    rw [hL.eq_of_key hm hw.message hchat hmessage]
    exact hw
  · intro hw
    rw [(h.rows _ _).mpr ⟨p, m, a, hw, rfl, rfl⟩]
    rfl

/-- **Copy plus delta.** In every run whose legacy writes the deltas carry, a delta after a whole copy leaves what a
    fresh copy would. -/
theorem copy_delta_fresh (ctx : Ctx) (clock : Nat) {s : State}
    (h : Run (step ctx) (Carries ctx) (State.start .empty clock) s) (hcopied : s.copied = true) :
    CopiedAfresh ctx s := by
  have hinv := inv_run h
  intro t hdelta
  have hexact := exact_delta hinv hcopied hdelta
  refine ⟨fun clock f hcopy => hexact.unique (exact_fresh hinv.valid hcopy), fun m hm hprivate => ?_⟩
  refine ⟨ownerD ctx m, ⟨accountOn_ownerD m, ?_⟩, ?_⟩
  · rw [hexact.isSome_iff hinv.valid hm (accountOn_ownerD m)]
    exact (wants_private hm hprivate).mpr rfl
  · rintro a ⟨ha, hrow⟩
    exact (wants_private hm hprivate).mp ((hexact.isSome_iff hinv.valid hm ha).mp hrow)

/-! ## A supergroup with one member -/

def twoAccounts : Ctx where
  accounts := [⟨1, .telegram, "work", 100⟩, ⟨2, .telegram, "personal-ro", 200⟩]
  low := 1
  high := 2
  max := none
  splitDate := 0
  splitId := 0
  unique := by decide
  lowHere := ⟨⟨1, .telegram, "work", 100⟩, by decide, rfl, rfl⟩
  highHere := ⟨⟨2, .telegram, "personal-ro", 200⟩, by decide, rfl, rfl⟩
  maxHere := by rintro _ ⟨⟩

/-- The one message of the chat, perhaps edited. -/
def clubPost (text : String) (editDate : Option Nat) : LegacyMessage :=
  ⟨1, 7, 10, some 100, none, none, none, none, none, some text, none, 3, some editDate.isSome, editDate, none, none,
    none⟩

def club (text : String) (editDate : Option Nat) : Legacy where
  chats p := match p with
    | .telegram => [⟨10, .supergroup, some 5⟩]
    | .max => []
  messages p := match p with
    | .telegram => [clubPost text editDate]
    | .max => []
  media _ := []
  users _ := []
  membership := [(1, 10)]
  access := []
  watch := []
  audit := []
  members := []
  registry := []

theorem valid_club (text : String) (editDate : Option Nat) : (club text editDate).Valid twoAccounts := by
  refine ⟨fun p => ?_, fun p => ?_, fun p m hm => ?_, ?_, fun _ h => absurd h List.not_mem_nil,
    fun _ _ h => absurd h List.not_mem_nil⟩
  · cases p <;> simp [club]
  · cases p <;> simp [club]
  · cases p with
    | telegram =>
        obtain rfl := List.mem_singleton.mp hm
        rfl
    | max => cases hm
  · rintro mm hmm
    obtain rfl := List.mem_singleton.mp hmm
    exact ⟨⟨1, .telegram, "work", 100⟩, by decide, rfl⟩

/-- Nothing is copied yet. -/
theorem follows_start (L L' : Legacy) (clock : Nat) : Follows ctx (State.start L clock) L' :=
  ⟨fun _ h => absurd h List.not_mem_nil, (by rintro _ _ _ ⟨⟩), (by rintro _ _ ⟨_, _, ⟨⟩⟩), (by rintro _ ⟨_, _, ⟨⟩⟩),
    (by rintro _ ⟨_, _, ⟨⟩⟩), (by rintro _ ⟨⟩), (by rintro _ _ _ _ _ ⟨_, _, ⟨⟩⟩)⟩

def isAdvance : State → Action → Bool
  | _, .advance => true
  | _, _ => false

theorem Finishes.of_execOk {start : Action} {s u t : State} {as : List Action} (hstart : step ctx s start = some u)
    (h : execOk (step ctx) isAdvance u as = some t) (hend : t.run = none) : Finishes ctx start s t := by
  refine ⟨u, hstart, Run.of_execOk (fun _ a ha => ?_) h, hend⟩
  cases a <;> first | exact trivial | cases ha

/-- A copy of `L` into empty tables, started at 50. -/
def copying (L : Legacy) : State :=
  { State.start L 50 with run := some ⟨none, ⟨50, fun _ => none⟩, .reading sources⟩ }

def copyEnd (L : Legacy) : Option State :=
  execOk (step twoAccounts) isAdvance (copying L) (List.replicate 24 .advance)

/-- The message is stored, and copied at 50. -/
def clubCopied : State := (copyEnd (club "a" none)).get (by decide)

theorem clubCopied_run : Run (step twoAccounts) (Carries twoAccounts) (State.start .empty 50) clubCopied := by
  have hcommit : Carries twoAccounts (State.start .empty 50) (.commit (club "a" none)) :=
    ⟨valid_club _ _, follows_start _ _ _, fun _ h => absurd h List.not_mem_nil⟩
  have hstart : Run (step twoAccounts) (Carries twoAccounts) (State.start .empty 50) (copying (club "a" none)) :=
    .tail .startCopy (Run.single _ hcommit rfl) trivial rfl
  refine hstart.trans ((Run.get_execOk _).mono fun s a h => ?_)
  cases a <;> first | exact trivial | cases h

theorem clubCopied_ended : clubCopied.run = none := Option.isNone_iff_eq_none.mp (by decide)

theorem clubCopied_legacy : clubCopied.legacy = club "a" none := rfl

/-- An edit at 60 is newer than the watermark. -/
theorem clubCopied_carries : Carries twoAccounts clubCopied (.commit (club "b" (some 60))) := by
  have hmessage : ∀ {L : Legacy} {text editDate p m}, L = club text editDate → m ∈ L.messages p →
      p = .telegram ∧ m = clubPost text editDate := by
    rintro _ text editDate p m rfl hm
    cases p with
    | telegram => exact ⟨rfl, List.mem_singleton.mp hm⟩
    | max => cases hm
  have hpending : ∀ w ∈ clubCopied.marks, pending w .telegram (clubPost "b" (some 60)) = true := by decide
  refine ⟨valid_club _ _, ⟨by decide, ?staged, ?kept, ?private_, ?posts, ?settled, ?media⟩, fun w hw => ?ahead⟩
  case staged =>
    intro r _ _ hr
    rw [clubCopied_ended] at hr
    cases hr
  case kept =>
    rintro p m ⟨a, hwants, -⟩
    obtain ⟨rfl, rfl⟩ := hmessage clubCopied_legacy hwants.message
    refine ⟨clubPost "b" (some 60), List.mem_singleton_self _, rfl, rfl, rfl, rfl, by decide, rfl, ?_, ?_, ?_⟩
    · exact fun _ => Or.inl rfl
    · rintro ⟨⟩
    · rintro _ ⟨⟩
  case private_ => exact fun _ _ => rfl
  case posts =>
    rintro m ⟨a, hwants, -⟩ hpost
    obtain ⟨-, rfl⟩ := hmessage clubCopied_legacy hwants.message
    exact absurd hpost (by decide)
  case settled =>
    intro r hr
    rw [clubCopied_ended] at hr
    cases hr
  case media => exact fun _ _ _ hd => absurd hd List.not_mem_nil
  case ahead =>
    refine ⟨fun p m a hwants => ?_, fun p m a hwants => ?_, fun _ _ _ _ _ hd => absurd hd List.not_mem_nil,
      fun _ _ _ _ hyoung => hyoung⟩
    · obtain ⟨rfl, rfl⟩ := hmessage rfl hwants.message
      exact Or.inr (hpending w hw)
    · obtain ⟨rfl, rfl⟩ := hmessage rfl hwants.message
      have hsame : candidates twoAccounts (club "b" (some 60)) allRules
          = candidates twoAccounts clubCopied.legacy allRules := by decide
      exact Or.inl ⟨clubPost "a" none, ⟨List.mem_singleton_self _, hsame ▸ hwants.owner, rfl⟩, rfl, rfl, rfl⟩

/-- A delta after the copy, the legacy tables being `L`. -/
def deltaEnd (L : Legacy) : Option State :=
  execOk (step twoAccounts) isAdvance
    { clubCopied with legacy := L, run := some ⟨clubCopied.watermark, ⟨50, fun _ => none⟩, .reading sources⟩ }
    (List.replicate 23 .advance)

/-- The text of the copied message. -/
def State.clubText (s : State) : Option String := (s.tables.messages ⟨1, 10, 7⟩).bind MessageRow.text

theorem copy_delta_fresh_edit :
    CopiedAfresh twoAccounts { clubCopied with legacy := club "b" (some 60) } ∧
      (deltaEnd (club "b" (some 60))).map State.clubText = some (some "b") :=
  ⟨copy_delta_fresh twoAccounts 50 (.tail _ clubCopied_run clubCopied_carries rfl) (by decide), by decide⟩

/-! ## A late edit -/

/-- The legacy tables keep their keys, and a delta starts after a whole copy: all that the operator sees to. -/
def Lawful (ctx : Ctx) (s : State) : Action → Prop
  | .commit L' => L'.Valid ctx
  | .startDelta => s.copied = true
  | _ => True

/-- **A delta misses an edit** that was made at 40 and stored after the copy at 50. -/
theorem late_edit_missed :
    ¬ ∀ (ctx : Ctx) (clock : Nat) (s : State), Run (step ctx) (Lawful ctx) (State.start .empty clock) s →
      s.copied = true → CopiedAfresh ctx s := by
  intro h
  have hrun : Run (step twoAccounts) (Lawful twoAccounts) (State.start .empty 50)
      { clubCopied with legacy := club "b" (some 40) } := by
    refine .tail (.commit (club "b" (some 40))) (clubCopied_run.mono fun s a ha => ?_) (valid_club _ _) rfl
    cases a with
    | commit L' => exact ha.1
    | _ => exact ha
  have hdelta : Finishes twoAccounts .startDelta { clubCopied with legacy := club "b" (some 40) }
      ((deltaEnd (club "b" (some 40))).get (by decide)) :=
    .of_execOk rfl (Option.some_get _).symm (Option.isNone_iff_eq_none.mp (by decide))
  have hcopy : Finishes twoAccounts .startCopy (State.start (club "b" (some 40)) 50)
      ((copyEnd (club "b" (some 40))).get (by decide)) :=
    .of_execOk rfl (Option.some_get _).symm (Option.isNone_iff_eq_none.mp (by decide))
  have hsame := ((h twoAccounts 50 _ hrun (by decide) _ hdelta).1 50 _ hcopy).1
  have htext := congrArg (fun rows : Table MessageKey MessageRow => (rows ⟨1, 10, 7⟩).bind MessageRow.text) hsame
  exact absurd htext (by decide)

end MyPerson.Isolation
