import MyPerson.Repo.Merge
import MyPerson.MaxSync.Jobs

/-!
# `MaxSync.Gaps` — the cursor without gaps

`newest_time_ms` means "everything up to here, without gaps". A live message moves it only in a chat
that is in `caught_up`, so all depends on how a chat gets there. In a run whose steps meet `meets` no
cursor passes a message that is not stored (`cursor_no_gap`). Four kinds of steps do not: a pass that
outlives its connection marks chats in the next one; `_forward` stops at its limit and the chat is
marked all the same; a page that was not fetched from the cursor jumps over a gap; and two messages of
one millisecond.

## Contents
- `meets`: the condition on the steps;
- `CatchUpOk`, `Inv` and their preservation, step by step;
- `cursor_no_gap`, and a pass that outlives its connection (`cursor_no_gap_fails`).
-/

namespace MyPerson.MaxSync

open Lib Repo MaxIngest

variable {cfg : Config} {s t u : State} {c c' : Nat} {m x : Msg}

/-! ## The condition -/

/-- Messages come with later times and larger ids; a pass marks chats only in its own connection, and a
    chat only after its tail was reached; pages join. -/
def meets (s : State) : Action → Bool
  | .grow c m => (s.history c).all fun old => old.time < m.time && old.id < m.id
  | .markNoTail => s.catchup.all fun t =>
      match t.phase with
      | .read fresh _ _ => !fresh || t.gen == s.gen
      | _ => true
  | .mark => s.catchup.all fun t =>
      match t.phase with
      | .job _ (.ended tail) _ => tail && t.gen == s.gen
      | _ => true
  | .job a => s.catchup.all fun t =>
      match t.phase with
      | .job c job _ => jobMeets s c job a
      | _ => true
  | .backfillJob i a => (s.backfills i).all fun b => jobMeets s b.chat b.job a
  | _ => true

/-! ## Passes in progress -/

/-- The chat's row knows of the message, or of a later one. -/
def KnownLast (s : State) (c : Nat) (last : Option Msg) : Prop :=
  ∀ l, last = some l → ∃ chat i, s.store.chats c = some chat ∧ chat.lastMessageExternalId = some i ∧ l.id ≤ i

/-- Since it was listed with its last message, the chat is covered after it. -/
structure SeenLast (s : State) (c : Nat) (last : Option Msg) : Prop where
  good : Good s c (After last)
  mem : ∀ l, last = some l → l ∈ s.history c

/-- What a pass in the current connection knows of the chats. -/
def Looked (cfg : Config) (s : State) : Phase → Prop
  | .listing l => ∀ c last, l.shown c = some last →
      SeenLast s c last ∧ ((c, last) ∈ l.page ∨ KnownLast s c last)
  | .listed fresh => fresh = true → ∀ c ∈ cfg.chats, ∃ last, SeenLast s c last ∧ KnownLast s c last
  | .read fresh noTail _ => fresh = true → ∀ c ∈ noTail, Good s c (AfterBorn s c)
  | .job c job _ => JobLooked s c job
  | _ => True

structure CatchUpOk (cfg : Config) (s : State) (t : CatchUp) : Prop where
  gen : t.gen ≤ s.gen
  job : ∀ c j todo, t.phase = .job c j todo → JobOk s c j
  page : ∀ l, t.phase = .listing l → ∀ c m, (c, some m) ∈ l.page → m ∈ s.history c
  looked : t.gen = s.gen → Live s ∧ Looked cfg s t.phase

structure Inv (cfg : Config) (s : State) : Prop where
  world : World s
  caught : ∀ c ∈ s.caughtUp, Live s ∧ Good s c (AfterBorn s c)
  catchup : ∀ t, s.catchup = some t → CatchUpOk cfg s t
  backfills : ∀ i b, s.backfills i = some b → JobOk s b.chat b.job

theorem KnownLast.grows {last : Option Msg} (h : KnownLast s c last) (hgrows : Grows s u) :
    KnownLast u c last := by
  intro l hl
  obtain ⟨chat, i, hchat, hi, hle⟩ := h l hl
  obtain ⟨chat', i', hchat', hi', hle'⟩ := hgrows.last c chat i hchat hi
  exact ⟨chat', i', hchat', hi', Int.le_trans hle hle'⟩

theorem SeenLast.keeps {last : Option Msg} (h : SeenLast s c last) (hkeeps : Keeps s u) (hlive : Live s)
    (hgen : u.gen = s.gen) : SeenLast u c last :=
  ⟨hkeeps.good hlive hgen c _ h.good, fun l hl => hkeeps.grows.mem (h.mem l hl)⟩

theorem Looked.keeps {phase : Phase} (h : Looked cfg s phase) (hkeeps : Keeps s u) (hlive : Live s)
    (hgen : u.gen = s.gen) : Looked cfg u phase := by
  cases phase with
  | listing l =>
      intro c last hshown
      obtain ⟨hseen, hknown⟩ := h c last hshown
      exact ⟨hseen.keeps hkeeps hlive hgen, hknown.imp_right fun hk => hk.grows hkeeps.grows⟩
  | listed fresh =>
      intro hfresh c hc
      obtain ⟨last, hseen, hknown⟩ := h hfresh c hc
      exact ⟨last, hseen.keeps hkeeps hlive hgen, hknown.grows hkeeps.grows⟩
  | read fresh noTail todo =>
      intro hfresh c hc
      exact (hkeeps.good hlive hgen c _ (h hfresh c hc)).mono fun _ hb => hkeeps.grows.afterBorn hb
  | job c job todo => exact JobLooked.keeps h hkeeps hlive hgen
  | chats todo | asleep => trivial

/-- A pass is not disturbed by what others do in its connection. -/
theorem CatchUpOk.keeps {p : CatchUp} (h : CatchUpOk cfg s p) (hkeeps : Keeps s u) (hw : World u)
    (hgen : u.gen = s.gen) : CatchUpOk cfg u p := by
  refine ⟨by rw [hgen]; exact h.gen, fun c j todo hp => (h.job c j todo hp).grows hkeeps.grows (hw.times c),
    fun l hl c m hmem => hkeeps.grows.mem (h.page l hl c m hmem), fun hp => ?_⟩
  obtain ⟨hlive, hlooked⟩ := h.looked (hp.trans hgen)
  exact ⟨hkeeps.live hlive hgen, hlooked.keeps hkeeps hlive hgen⟩

/-- **Carry.** What a step in a connection has to show. -/
theorem Inv.carry (h : Inv cfg s) (hkeeps : Keeps s u) (hw : World u) (hgen : u.gen = s.gen)
    (hcaught : ∀ c ∈ u.caughtUp, c ∈ s.caughtUp ∨ (Live u ∧ Good u c (AfterBorn u c)))
    (hcatchup : ∀ p, u.catchup = some p → s.catchup = some p ∨ CatchUpOk cfg u p)
    (hbackfills : ∀ i b, u.backfills i = some b → s.backfills i = some b ∨ JobOk u b.chat b.job) :
    Inv cfg u := by
  refine ⟨hw, fun c hc => ?_, fun p hp => ?_, fun i b hb => ?_⟩
  · rcases hcaught c hc with hold | hnew
    · obtain ⟨hlive, hgood⟩ := h.caught c hold
      exact ⟨hkeeps.live hlive hgen,
        (hkeeps.good hlive hgen c _ hgood).mono fun _ hb => hkeeps.grows.afterBorn hb⟩
    · exact hnew
  · rcases hcatchup p hp with hold | hnew
    · exact (h.catchup p hold).keeps hkeeps hw hgen
    · exact hnew
  · rcases hbackfills i b hb with hold | hnew
    · exact (h.backfills i b hold).grows hkeeps.grows (hw.times b.chat)
    · exact hnew

/-- Nothing but the tasks changes. -/
theorem Inv.still (h : Inv cfg s) (hkeeps : Keeps s u) (hw : World u) (hgen : u.gen = s.gen)
    (hcaught : u.caughtUp = s.caughtUp) (hcatchup : u.catchup = s.catchup)
    (hbackfills : u.backfills = s.backfills) : Inv cfg u :=
  h.carry hkeeps hw hgen (fun c hc => Or.inl (hcaught ▸ hc)) (fun p hp => Or.inl (hcatchup ▸ hp))
    fun i b hb => Or.inl (by rw [hbackfills] at hb; exact hb)

/-! ## The server, the connection, the frames -/

/-- A message of the server is later than all before it. -/
theorem world_grow (h : World s) (hmeets : meets s (.grow c m) = true)
    (hstep : liveStep cfg s (.grow c m) = some u) : World u := by
  have hlater : ∀ old ∈ s.history c, old.time < m.time ∧ old.id < m.id := by
    simpa [meets] using hmeets
  obtain ⟨-, hu⟩ := Option.ite_none_right_eq_some.mp hstep
  cases hu
  have hhistory : ∀ c', Function.update s.history c (s.history c ++ [m]) c' = s.history c' ∨
      (c' = c ∧ Function.update s.history c (s.history c ++ [m]) c' = s.history c' ++ [m]) := by
    intro c'
    by_cases hc : c' = c
    · subst hc
      exact Or.inr ⟨rfl, Function.update_self ..⟩
    · exact Or.inl (Function.update_of_ne hc ..)
  have hmem : ∀ c', ∀ m' ∈ s.history c', m' ∈ Function.update s.history c (s.history c ++ [m]) c' := by
    intro c' m' hm'
    rcases hhistory c' with heq | ⟨-, heq⟩ <;> rw [heq]
    · exact hm'
    · exact List.mem_append_left _ hm'
  have htimes : ∀ c', Ascending Msg.time (Function.update s.history c (s.history c ++ [m]) c') := by
    intro c'
    rcases hhistory c' with heq | ⟨rfl, heq⟩ <;> rw [heq]
    · exact h.times c'
    · exact (h.times c').snoc fun b hb => (hlater b hb).1
  refine ⟨htimes, ?ids, ?line, h.born, ?cursor, ?gapFree, ?last, ?decided⟩
  case ids =>
    intro c'
    rcases hhistory c' with heq | ⟨rfl, heq⟩
    · show Ascending Msg.id (Function.update s.history c (s.history c ++ [m]) c')
      rw [heq]
      exact h.ids c'
    · show Ascending Msg.id (Function.update s.history c' (s.history c' ++ [m]) c')
      rw [heq]
      exact (h.ids c').snoc fun b hb => (hlater b hb).2
  case line =>
    intro c'
    have hold := h.line c'
    by_cases hc : c' = c ∧ s.conn = .up
    · obtain ⟨rfl, hup⟩ := hc
      have hline : State.line { s with
          history := Function.update s.history c' (s.history c' ++ [m])
          stream := if s.conn = .up then Function.update s.stream c' (s.stream c' ++ [m]) else s.stream } c'
          = s.line c' ++ [m] := by
        simp [State.line, hup]
      constructor
      · rw [hline]
        exact hold.ascending.snoc fun b hb => (hlater b (hold.subset hb)).1
      · rw [hline]
        intro m' hm'
        show m' ∈ Function.update s.history c' (s.history c' ++ [m]) c'
        rw [Function.update_self]
        rcases List.mem_append.mp hm' with hm' | hm'
        · exact List.mem_append_left _ (hold.subset hm')
        · exact List.mem_append_right _ hm'
    · have hline : State.line { s with
          history := Function.update s.history c (s.history c ++ [m])
          stream := if s.conn = .up then Function.update s.stream c (s.stream c ++ [m]) else s.stream } c'
          = s.line c' := by
        by_cases hup : s.conn = .up
        · have hne : c' ≠ c := fun hcc => hc ⟨hcc, hup⟩
          simp [State.line, hup, Function.update_of_ne hne]
        · simp [State.line, hup]
      exact ⟨by rw [hline]; exact hold.ascending, by rw [hline]; exact fun m' hm' => hmem c' m' (hold.subset hm')⟩
  case cursor =>
    intro c' n hn
    obtain ⟨m', hm', htime⟩ := h.cursor c' n hn
    exact ⟨m', hmem c' m' hm', htime⟩
  case gapFree =>
    intro c' n hn m' hm' hborn hle
    rcases hhistory c' with heq | ⟨rfl, heq⟩
    · exact h.gapFree c' n hn m' (heq ▸ hm') hborn hle
    · have hsplit : m' ∈ s.history c' ++ [m] := heq ▸ hm'
      rcases List.mem_append.mp hsplit with hold | hnew
      · exact h.gapFree c' n hn m' hold hborn hle
      · -- the cursor stands at an older message
        obtain ⟨m₀, hm₀, htime⟩ := h.cursor c' n hn
        have hlt := (hlater m₀ hm₀).1
        rw [List.mem_singleton.mp hnew] at hle
        omega
  case last =>
    intro c' chat hchat
    refine (h.last c' chat hchat).imp_right ?_
    rintro ⟨m', hm', hrow⟩
    exact ⟨m', hmem c' m' hm', hrow⟩
  case decided =>
    intro c' hd
    obtain ⟨y, left, hy, hall⟩ := h.decided c' hd
    refine ⟨y, left, hy, fun m' hm' hborn hle => ?_⟩
    have hymem : y ∈ s.history c' := (h.line c').subset (List.mem_append_left _ (hy ▸ List.mem_cons_self))
    rcases hhistory c' with heq | ⟨rfl, heq⟩
    · exact hall m' (heq ▸ hm') hborn hle
    · have hsplit : m' ∈ s.history c' ++ [m] := heq ▸ hm'
      rcases List.mem_append.mp hsplit with hold | hnew
      · exact hall m' hold hborn hle
      · have hlt := (hlater y hymem).1
        rw [List.mem_singleton.mp hnew] at hle
        omega

/-- Frames leave the stream: they arrive, or are lost. -/
theorem World.of_lines (h : World s) (hhistory : u.history = s.history) (hstore : u.store = s.store)
    (hcursors : u.cursors = s.cursors) (hborn : u.born = s.born)
    (hline : ∀ c, (u.line c).Sublist (s.line c)) (hdecided : ∀ c, u.decided c = some true → HeadOk u c) :
    World u := by
  have hnewest : ∀ c, u.newest c = s.newest c := fun c => by simp [State.newest, hcursors]
  refine ⟨?times, ?ids, ?line, ?born, ?cursor, ?gapFree, ?last, hdecided⟩
  case times => exact fun c => by rw [hhistory]; exact h.times c
  case ids => exact fun c => by rw [hhistory]; exact h.ids c
  case line =>
    intro c
    exact ⟨(h.line c).ascending.sublist (hline c), by
      rw [hhistory]; exact fun m hm => (h.line c).subset ((hline c).subset hm)⟩
  case born => exact fun c => by rw [hborn, hnewest]; exact h.born c
  case cursor => exact fun c n hn => by rw [hhistory]; exact h.cursor c n ((hnewest c).symm.trans hn)
  case gapFree =>
    intro c n hn m hm hb hle
    have hstored := h.gapFree c n ((hnewest c).symm.trans hn) m (by rw [← hhistory]; exact hm)
      (fun b hbs => hb b (by rw [hborn]; exact hbs)) hle
    unfold Stored
    rw [hstore]
    exact hstored
  case last =>
    intro c chat hchat
    rw [hstore] at hchat
    rw [hhistory]
    exact h.last c chat hchat

theorem world_drop (h : World s) : World { s with conn := .down, stream := fun _ => [] } := by
  refine h.of_lines rfl rfl rfl rfl (fun c => ?_) fun c hd => h.decided c hd
  show (s.queue c ++ []).Sublist (s.queue c ++ s.stream c)
  rw [List.append_nil]
  exact List.sublist_append_left ..

theorem world_arrive (h : World s) (hstep : liveStep cfg s (.arrive c) = some u) : World u := by
  simp only [liveStep] at hstep
  split at hstep
  · cases hstep
  · rename_i f rest hstream
    have hrest : ∀ c', (Function.update s.stream c rest c').Sublist (s.stream c') := by
      intro c'
      by_cases hc : c' = c
      · subst hc
        rw [Function.update_self, hstream]
        exact List.sublist_cons_self ..
      · rw [Function.update_of_ne hc]
    split at hstep
    · cases hstep
      refine h.of_lines rfl rfl rfl rfl (fun c' => ?_) fun c' hd => ?_
      · by_cases hc : c' = c
        · subst hc
          simp [State.line, hstream]
        · simp [State.line, Function.update_of_ne hc]
      · obtain ⟨y, left, hy, hall⟩ := h.decided c' hd
        by_cases hc : c' = c
        · subst hc
          exact ⟨y, left ++ [f], by simp [hy], hall⟩
        · exact ⟨y, left, (Function.update_of_ne hc ..).trans hy, hall⟩
    · cases hstep
      exact h.of_lines rfl rfl rfl rfl (fun c' => (List.Sublist.refl _).append (hrest c'))
        fun c' hd => h.decided c' hd

/-- Before the first frame at the lock of a chat that is caught up, everything is stored. -/
theorem headOk_of_caught (hw : World s) (hgood : Good s c (AfterBorn s c)) (hqueue : s.queue c ≠ []) :
    HeadOk s c := by
  obtain ⟨y, left, hy⟩ := List.exists_cons_of_ne_nil hqueue
  have hline : s.line c = y :: (left ++ s.stream c) := by simp [State.line, hy]
  have hasc := (hw.line c).ascending
  have hymem : y ∈ s.line c := hline ▸ List.mem_cons_self
  refine ⟨y, left, hy, fun m hm hborn hle => ?_⟩
  refine (hgood.ordered y hymem m hm hborn hle).imp_right fun hwaits => ?_
  have hfirst : y.time ≤ m.time := by
    rw [hline] at hasc hwaits
    exact hasc.head_le hwaits
  exact hasc.eq_of_time hwaits hymem (by omega)

theorem world_commit {rest : Rest} (h : World s) (hstep : liveStep cfg s (.commit c rest) = some u) :
    World u := by
  simp only [liveStep] at hstep
  split at hstep
  · rename_i f left adv hqueue hdecided
    cases hstep
    have hf : f ∈ s.history c :=
      (h.line c).subset (List.mem_append_left _ (hqueue ▸ List.mem_cons_self))
    have hstored : World (s.storeMessage c f rest adv) := by
      refine world_storeMessage h hf rest adv ?_
      rintro rfl n hn hlt m hm hborn hle
      obtain ⟨y, left', hy, hall⟩ := h.decided c hdecided
      rw [hqueue] at hy
      cases hy
      exact hall m hm hborn hle
    refine hstored.of_lines rfl rfl rfl rfl (fun c' => ?_) fun c' hd => ?_
    · by_cases hc : c' = c
      · subst hc
        simp [State.line, hqueue]
      · simp [State.line, Function.update_of_ne hc]
    · by_cases hc : c' = c
      · subst hc
        have hnone : Function.update s.decided c' none c' = some true := hd
        rw [Function.update_self] at hnone
        cases hnone
      · have hold : Function.update s.decided c none c' = some true := hd
        rw [Function.update_of_ne hc] at hold
        obtain ⟨y, left', hy, hall⟩ := hstored.decided c' (by simpa using hold)
        refine ⟨y, left', ?_, hall⟩
        show Function.update s.queue c left c' = y :: left'
        rw [Function.update_of_ne hc]
        simpa using hy
  · cases hstep

/-- What a listing knows as it starts: nothing of chats without messages. -/
theorem looked_newListing (s : State) : Looked cfg s (.listing s.newListing) := by
  intro c last hshown
  have hcases : (if (s.history c).isEmpty then some none else none) = some last := hshown
  obtain ⟨hempty, hlast⟩ := Option.ite_none_right_eq_some.mp hcases
  cases hlast
  refine ⟨⟨good_of_stored fun m hm _ => ?_, fun l hl => (by cases hl)⟩, Or.inr fun l hl => (by cases hl)⟩
  rw [List.isEmpty_iff.mp hempty] at hm
  cases hm

theorem catchUpOk_newListing (s : State) {gen : Nat} (hgen : gen ≤ s.gen) (hlive : gen = s.gen → Live s) :
    CatchUpOk cfg s ⟨gen, .listing s.newListing⟩ := by
  refine ⟨hgen, nofun, fun l hl c m hmem => ?_, fun hp => ⟨hlive hp, looked_newListing s⟩⟩
  cases hl
  cases hmem

/-- **Step.** The server, the connection and the frames. -/
theorem inv_live {a : Action} (h : Inv cfg s) (hmeets : meets s a = true)
    (hstep : liveStep cfg s a = some u) : Inv cfg u := by
  cases a with
  | grow c m =>
      have hw := world_grow h.world hmeets hstep
      have hkeeps := keeps_grow h.world.line hw.times hstep
      obtain ⟨-, hu⟩ := Option.ite_none_right_eq_some.mp hstep
      cases hu
      exact h.still hkeeps hw rfl rfl rfl rfl
  | drop =>
      cases hstep
      exact h.still (keeps_drop h.world.line) (world_drop h.world) rfl rfl rfl rfl
  | reset =>
      obtain ⟨-, hu⟩ := Option.ite_none_right_eq_some.mp hstep
      cases hu
      have hsame : SameTables s
          { s with conn := .connecting, gen := s.gen + 1, caughtUp := [], identityOk := false } :=
        ⟨rfl, rfl, rfl, rfl, rfl, rfl⟩
      have hgrows := hsame.grows
      refine ⟨hsame.world h.world rfl, nofun, fun p hp => ?_,
        fun i b hb => (h.backfills i b hb).grows hgrows (h.world.times b.chat)⟩
      have hold := h.catchup p hp
      have hgen : p.gen ≤ s.gen := hold.gen
      refine ⟨Nat.le_succ_of_le hgen, fun c j todo hj => (hold.job c j todo hj).grows hgrows (h.world.times c),
        hold.page, fun hp => ?_⟩
      -- a pass of an earlier connection
      have hnew : p.gen = s.gen + 1 := hp
      omega
  | connect =>
      obtain ⟨hconn, hu⟩ := Option.ite_none_right_eq_some.mp hstep
      cases hu
      have hsame : SameTables s { s with conn := .up } := ⟨rfl, rfl, rfl, rfl, rfl, rfl⟩
      exact h.still ⟨hsame.grows, fun hlive => absurd hconn hlive.conn, fun hlive => absurd hconn hlive.conn⟩
        (hsame.world h.world rfl) rfl rfl rfl rfl
  | identify =>
      obtain ⟨-, hu⟩ := Option.ite_none_right_eq_some.mp hstep
      cases hu
      have hsame : SameTables s { s with identityOk := true } := ⟨rfl, rfl, rfl, rfl, rfl, rfl⟩
      exact h.still ⟨hsame.grows, fun hlive _ => ⟨hlive.conn, rfl⟩,
        fun _ _ c p hgood => ⟨hgood.ordered, hgood.complete⟩⟩ (hsame.world h.world rfl) rfl rfl rfl rfl
  | authorize =>
      obtain ⟨⟨hconn, hid⟩, hu⟩ := Option.ite_none_right_eq_some.mp hstep
      cases hu
      have hsame : SameTables s { s with catchup := some ⟨s.gen, .listing s.newListing⟩ } :=
        ⟨rfl, rfl, rfl, rfl, rfl, rfl⟩
      refine h.carry (hsame.keeps rfl rfl) (hsame.world h.world rfl) rfl (fun c hc => Or.inl hc)
        (fun p hp => Or.inr ?_) fun i b hb => Or.inl hb
      cases hp
      exact catchUpOk_newListing _ (Nat.le_refl _) fun _ => ⟨by simp [hconn], hid⟩
  | arrive c =>
      have hw := world_arrive h.world hstep
      have hkeeps := keeps_arrive hstep
      simp only [liveStep] at hstep
      split at hstep
      · cases hstep
      · split at hstep <;> cases hstep <;> exact h.still hkeeps hw rfl rfl rfl rfl
  | decide c =>
      obtain ⟨hfree, hu⟩ := Option.ite_none_left_eq_some.mp hstep
      cases hu
      have hsame : SameTables s
          { s with decided := Function.update s.decided c (some (s.caughtUp.contains c)) } :=
        ⟨rfl, rfl, rfl, rfl, rfl, rfl⟩
      refine h.still (hsame.keeps rfl rfl) ?_ rfl rfl rfl rfl
      refine h.world.of_lines rfl rfl rfl rfl (fun _ => List.Sublist.refl _) fun c' hd => ?_
      have hcases : Function.update s.decided c (some (s.caughtUp.contains c)) c' = some true := hd
      by_cases hc : c' = c
      · subst hc
        rw [Function.update_self] at hcases
        have hin : c' ∈ s.caughtUp := by simpa using hcases
        have hqueue : s.queue c' ≠ [] := by
          intro hnil
          simp [hnil] at hfree
        obtain ⟨y, left, hy, hall⟩ := headOk_of_caught h.world (h.caught c' hin).2 hqueue
        exact ⟨y, left, hy, hall⟩
      · rw [Function.update_of_ne hc] at hcases
        exact h.world.decided c' hcases
  | commit c rest =>
      have hw := world_commit h.world hstep
      have hkeeps := keeps_commit (h.world.newest_of_born c) hstep
      simp only [liveStep] at hstep
      split at hstep
      · cases hstep
        exact h.still hkeeps hw (by simp) (by simp) (by simp) (by simp)
      · cases hstep
  | list cs | storeList chatType | endList fresh | candidates inactive todo | markNoTail | nextChat | job a
  | skip | mark | endPass | wake | cancel | backfill i c forward limit stop | backfillJob i a
  | backfillEnd i => cases hstep

/-! ## Backfills -/

theorem inv_backfill {a : Action} (h : Inv cfg s) (hmeets : meets s a = true)
    (hstep : backfillStep cfg s a = some u) : Inv cfg u := by
  have hsame : ∀ backfills, (∀ i b, backfills i = some b → s.backfills i = some b ∨ JobOk s b.chat b.job) →
      Inv cfg { s with backfills } := by
    intro backfills hjobs
    have hsame : SameTables s { s with backfills } := ⟨rfl, rfl, rfl, rfl, rfl, rfl⟩
    refine h.carry (hsame.keeps rfl rfl) (hsame.world h.world rfl) rfl (fun c hc => Or.inl hc)
      (fun p hp => Or.inl hp) fun i b hb => ?_
    exact (hjobs i b hb).imp_right fun hj => hj.grows hsame.grows (h.world.times b.chat)
  cases a with
  | backfill i c forward limit stop =>
      obtain ⟨-, hu⟩ := Option.ite_none_right_eq_some.mp hstep
      cases hu
      refine hsame _ fun i' b hb => ?_
      by_cases hi : i' = i
      · subst hi
        rw [Function.update_self] at hb
        cases hb
        cases forward <;> exact Or.inr trivial
      · rw [Function.update_of_ne hi] at hb
        exact Or.inl hb
  | backfillJob i a =>
      simp only [backfillStep] at hstep
      split at hstep
      · rename_i b hb
        obtain ⟨⟨s', j'⟩, hjob, hu⟩ := Option.map_eq_some_iff.mp hstep
        cases hu
        have hgoes := jobStep_spec h.world (h.backfills i b hb) (by simpa [meets, hb] using hmeets) hjob
        have hmid : Inv cfg s' :=
          h.still hgoes.keeps hgoes.world hgoes.gen hgoes.caughtUp hgoes.catchup hgoes.backfills
        have hsame : SameTables s'
            { s' with backfills := Function.update s.backfills i (some { b with job := j' }) } :=
          ⟨rfl, rfl, rfl, rfl, rfl, rfl⟩
        refine hmid.carry (hsame.keeps rfl rfl) (hsame.world hmid.world rfl) rfl (fun c hc => Or.inl hc)
          (fun p hp => Or.inl hp) fun i' b' hb' => ?_
        have hcases : Function.update s.backfills i (some { b with job := j' }) i' = some b' := hb'
        by_cases hi : i' = i
        · subst hi
          rw [Function.update_self] at hcases
          cases hcases
          exact Or.inr (hgoes.ok.grows hsame.grows (hgoes.world.times b.chat))
        · rw [Function.update_of_ne hi] at hcases
          exact Or.inl (by rw [hgoes.backfills]; exact hcases)
      · cases hstep
  | backfillEnd i =>
      cases hstep
      refine hsame _ fun i' b hb => ?_
      by_cases hi : i' = i
      · subst hi
        rw [Function.update_self] at hb
        cases hb
      · rw [Function.update_of_ne hi] at hb
        exact Or.inl hb
  | grow c m | drop | reset | connect | identify | authorize | arrive c | decide c | commit c rest | list cs
  | storeList chatType | endList fresh | candidates inactive todo | markNoTail | nextChat | job a | skip | mark
  | endPass | wake | cancel => cases hstep

/-! ## Passes of the catch-up -/

/-- A step of the pass itself that leaves the tables alone. -/
theorem Inv.phase (h : Inv cfg s) {p : CatchUp} (hp : s.catchup = some p) (phase : Phase)
    (hjob : ∀ c j todo, phase = .job c j todo → JobOk s c j)
    (hpage : ∀ l, phase = .listing l → ∀ c m, (c, some m) ∈ l.page → m ∈ s.history c)
    (hlooked : p.gen = s.gen → Live s → Looked cfg s p.phase → Looked cfg s phase) :
    Inv cfg (s.setPhase p phase) := by
  have hsame : SameTables s (s.setPhase p phase) := ⟨rfl, rfl, rfl, rfl, rfl, rfl⟩
  have hkeeps := hsame.keeps rfl rfl
  have hold := h.catchup p hp
  refine h.carry hkeeps (hsame.world h.world rfl) rfl (fun c hc => Or.inl hc) (fun q hq => Or.inr ?_)
    fun i b hb => Or.inl hb
  cases hq
  refine ⟨hold.gen, fun c j todo hj => (hjob c j todo hj).grows hsame.grows (h.world.times c), hpage,
    fun hgen => ?_⟩
  obtain ⟨hlive, hlook⟩ := hold.looked hgen
  exact ⟨hkeeps.live hlive rfl, (hlooked hgen hlive hlook).keeps hkeeps hlive rfl⟩

/-- Neither the job of a chat nor a listing. -/
def Phase.plain : Phase → Bool
  | .listing _ | .job .. => false
  | _ => true

theorem Inv.plainPhase (h : Inv cfg s) {p : CatchUp} (hp : s.catchup = some p) (phase : Phase)
    (hplain : phase.plain = true)
    (hlooked : p.gen = s.gen → Live s → Looked cfg s p.phase → Looked cfg s phase) :
    Inv cfg (s.setPhase p phase) := by
  refine h.phase hp phase (fun c j todo heq => ?_) (fun l heq => ?_) hlooked
  · rw [heq] at hplain
    cases hplain
  · rw [heq] at hplain
    cases hplain

/-- A listed chat without a tail is covered. -/
theorem good_of_noTail (hw : World s) {last : Option Msg} (hseen : SeenLast s c last) (hknown : KnownLast s c last)
    (hnoTail : s.noTail c = true) : Good s c (AfterBorn s c) := by
  refine good_of_reached hw hseen.good fun l hl => ?_
  obtain ⟨chat, i, hchat, hi, hle⟩ := hknown l hl
  rcases hw.last c chat hchat with ⟨hnone, -⟩ | ⟨m, hm, hid, hat⟩
  · rw [hi] at hnone
    cases hnone
  · unfold State.noTail at hnoTail
    rw [hchat] at hnoTail
    dsimp only at hnoTail
    rw [hat] at hnoTail
    cases hn : s.newest c with
    | none =>
        rw [hn] at hnoTail
        cases hnoTail
    | some n =>
        rw [hn] at hnoTail
        have hmn : m.time ≤ n.time := by
          have hround : dtToMs (msToDt m.time) ≤ n.time := by simpa using hnoTail
          unfold dtToMs msToDt at hround
          omega
        have hlm : l.time ≤ m.time := by
          by_contra hlater
          have hlt := (hw.times c).lt_of_lt (hw.ids c) hm (hseen.mem l hl) (Int.not_le.mp hlater)
          rw [hi] at hid
          cases hid
          omega
        exact ⟨n, rfl, Int.le_trans hlm hmn⟩

/-- A listed message is a message of its chat. -/
theorem upsertChat_ok {history : Nat → List Msg} {chats : Table Nat Chat} (chatType : ChatType)
    {listed : Nat × Option Msg} (hok : ∀ c chat, chats c = some chat → ChatOk (history c) chat)
    (hlisted : ∀ m, listed.2 = some m → m ∈ history listed.1) :
    ∀ c chat, upsertChat chats chatType listed c = some chat → ChatOk (history c) chat := by
  have hnew : ∀ chat : Chat, chat.lastMessageExternalId = listed.2.map Msg.id →
      chat.lastMessageAt = listed.2.map (fun m => msToDt m.time) → ChatOk (history listed.1) chat := by
    intro chat hid hat
    cases hl : listed.2 with
    | none =>
        rw [hl] at hid hat
        exact Or.inl ⟨hid, hat⟩
    | some l =>
        rw [hl] at hid hat
        exact Or.inr ⟨l, hlisted l hl, hid, hat⟩
  intro c chat hchat
  unfold upsertChat at hchat
  by_cases hc : c = listed.1
  · subst hc
    cases hold : chats listed.1 with
    | none =>
        simp only [hold, Function.update_self] at hchat
        cases hchat
        exact hnew _ rfl rfl
    | some old =>
        simp only [hold] at hchat
        split at hchat
        · rw [Function.update_self] at hchat
          cases hchat
          exact hnew _ rfl rfl
        · exact hok _ chat hchat
  · cases hold : chats listed.1 with
    | none =>
        simp only [hold, Function.update_of_ne hc] at hchat
        exact hok c chat hchat
    | some old =>
        simp only [hold] at hchat
        split at hchat
        · rw [Function.update_of_ne hc] at hchat
          exact hok c chat hchat
        · exact hok c chat hchat

theorem upsertChats_ok {history : Nat → List Msg} (chatType : ChatType) (page : List (Nat × Option Msg))
    (hpage : ∀ c m, (c, some m) ∈ page → m ∈ history c) :
    ∀ chats : Table Nat Chat, (∀ c chat, chats c = some chat → ChatOk (history c) chat) →
      ∀ c chat, page.foldl (fun chats listed => upsertChat chats chatType listed) chats c = some chat →
        ChatOk (history c) chat := by
  induction page with
  | nil => exact fun chats hok => hok
  | cons listed page ih =>
      intro chats hok
      refine ih (fun c m hmem => hpage c m (List.mem_cons_of_mem _ hmem)) _ (upsertChat_ok chatType hok ?_)
      intro m hm
      exact hpage listed.1 m (by rw [← hm]; exact List.mem_cons_self)

/-- After the store of a page the rows know of its messages. -/
theorem upsertChats_known (chatType : ChatType) {l : Msg} (page : List (Nat × Option Msg))
    (hmem : (c, some l) ∈ page) :
    ∀ chats : Table Nat Chat, ∃ chat i,
      page.foldl (fun chats listed => upsertChat chats chatType listed) chats c = some chat ∧
        chat.lastMessageExternalId = some i ∧ l.id ≤ i := by
  induction page with
  | nil => cases hmem
  | cons listed page ih =>
      intro chats
      rcases List.mem_cons.mp hmem with rfl | hmem
      · obtain ⟨chat, i, hchat, hi, hle⟩ : ∃ chat i, upsertChat chats chatType (c, some l) c = some chat ∧
            chat.lastMessageExternalId = some i ∧ l.id ≤ i := by
          unfold upsertChat
          cases hold : chats c with
          | none => exact ⟨⟨chatType, some l.id, some (msToDt l.time)⟩, l.id, by simp, rfl, Int.le_refl _⟩
          | some old =>
              by_cases hmove : (old.lastMessageExternalId.all fun i => i < l.id) = true
              · exact ⟨{ old with lastMessageExternalId := some l.id, lastMessageAt := some (msToDt l.time) },
                  l.id, by simp [hmove], rfl, Int.le_refl _⟩
              · cases hi : old.lastMessageExternalId with
                | none => simp [hi] at hmove
                | some i =>
                    rw [hi] at hmove
                    have hle : l.id ≤ i := by simpa using hmove
                    refine ⟨old, i, ?_, hi, hle⟩
                    simpa [hi, Int.not_lt.mpr hle] using hold
        obtain ⟨chat', i', hchat', hi', hle'⟩ := upsertChats_last chatType page _ chat i hchat hi
        exact ⟨chat', i', hchat', hi', Int.le_trans hle hle'⟩
      · exact ih hmem _

/-- **Step.** A pass of the catch-up. -/
theorem inv_catchup {p : CatchUp} {a : Action} (h : Inv cfg s) (hmeets : meets s a = true)
    (hp : s.catchup = some p) (hstep : catchupStep cfg s p a = some u) : Inv cfg u := by
  have hold := h.catchup p hp
  have hquiet : ∀ caughtUp : List Nat, (∀ c ∈ caughtUp, c ∈ s.caughtUp ∨ (Live s ∧ Good s c (AfterBorn s c))) →
      Inv cfg { s with caughtUp } := by
    intro caughtUp hcaught
    have hsame : SameTables s { s with caughtUp } := ⟨rfl, rfl, rfl, rfl, rfl, rfl⟩
    have hkeeps := hsame.keeps rfl rfl
    refine h.carry hkeeps (hsame.world h.world rfl) rfl (fun c hc => ?_) (fun q hq => Or.inl hq)
      fun i b hb => Or.inl hb
    refine (hcaught c hc).imp_right ?_
    rintro ⟨hlive, hgood⟩
    exact ⟨hkeeps.live hlive rfl, hkeeps.good hlive rfl c _ hgood⟩
  cases a with
  | list cs =>
      simp only [catchupStep] at hstep
      split at hstep
      · rename_i l hphase
        obtain ⟨⟨-, -, hnil⟩, hu⟩ := Option.ite_none_right_eq_some.mp hstep
        cases hu
        refine h.phase hp _ (fun _ _ _ hj => by cases hj) (fun l' hl' c m hmem => ?_) fun hgen hlive hlook => ?_
        · cases hl'
          obtain ⟨c', -, heq⟩ := List.mem_map.mp hmem
          obtain ⟨rfl, hlast⟩ := Prod.mk.inj heq
          exact List.mem_of_getLast? hlast
        · rw [hphase] at hlook
          intro c last hshown
          have hcases : (if c ∈ cs then some (s.history c).getLast? else l.shown c) = some last := hshown
          by_cases hc : c ∈ cs
          · rw [if_pos hc] at hcases
            cases hcases
            exact ⟨⟨good_after_last h.world c, fun m hm => List.mem_of_getLast? hm⟩,
              Or.inl (List.mem_map.mpr ⟨c, hc, rfl⟩)⟩
          · rw [if_neg hc] at hcases
            obtain ⟨hseen, hknown⟩ := hlook c last hcases
            refine ⟨hseen, Or.inr (hknown.resolve_left ?_)⟩
            rw [hnil]
            exact List.not_mem_nil
      · cases hstep
  | storeList chatType =>
      simp only [catchupStep] at hstep
      split at hstep
      · rename_i l hphase
        cases hstep
        have hpage := hold.page l hphase
        have hlast := upsertChats_ok chatType l.page hpage s.store.chats fun c chat hchat => h.world.last c chat hchat
        have hgrows : Grows s { s.setPhase p (.listing { l with page := [] }) with
            store := { s.store with
              chats := l.page.foldl (fun chats listed => upsertChat chats chatType listed) s.store.chats } } :=
          ⟨fun c => ⟨[], (List.append_nil _).symm⟩, fun _ _ hs => hs, fun c n hn => ⟨n, hn, Int.le_refl _⟩,
            fun _ _ hb => hb, fun c chat i hchat hi => upsertChats_last chatType l.page _ chat i hchat hi⟩
        have hkeeps := Keeps.of_tables hgrows rfl (fun _ => rfl) rfl rfl
        have hw := h.world.of_same (t := { s.setPhase p (.listing { l with page := [] }) with
            store := { s.store with
              chats := l.page.foldl (fun chats listed => upsertChat chats chatType listed) s.store.chats } })
          rfl rfl rfl rfl (fun _ => rfl) rfl hlast rfl
        refine h.carry hkeeps hw rfl (fun c hc => Or.inl hc) (fun q hq => Or.inr ?_) fun i b hb => Or.inl hb
        cases hq
        refine ⟨hold.gen, fun _ _ _ hj => (by cases hj), fun l' hl' c m hmem => ?_, fun hgen => ?_⟩
        · cases hl'
          cases hmem
        · obtain ⟨hlive, hlook⟩ := hold.looked hgen
          refine ⟨hkeeps.live hlive rfl, ?_⟩
          rw [hphase] at hlook
          intro c last hshown
          obtain ⟨hseen, hknown⟩ := hlook c last hshown
          refine ⟨hseen.keeps hkeeps hlive rfl, Or.inr ?_⟩
          rcases hknown with hin | hknown
          · intro m hm
            subst hm
            exact upsertChats_known chatType l.page hin _
          · exact hknown.grows hgrows
      · cases hstep
  | endList fresh =>
      simp only [catchupStep] at hstep
      split at hstep
      · rename_i l hphase
        obtain ⟨hdone, hu⟩ := Option.ite_none_right_eq_some.mp hstep
        cases hu
        refine h.plainPhase hp _ rfl fun _ _ hlook => ?_
        rw [hphase] at hlook
        intro hfresh c hc
        obtain ⟨hnil, hall⟩ := hdone hfresh
        obtain ⟨last, hshown⟩ := Option.isSome_iff_exists.mp (hall c hc)
        obtain ⟨hseen, hknown⟩ := hlook c last hshown
        refine ⟨last, hseen, hknown.resolve_left ?_⟩
        rw [hnil]
        exact List.not_mem_nil
      · cases hstep
  | candidates inactive todo =>
      simp only [catchupStep] at hstep
      split at hstep
      · rename_i fresh hphase
        obtain ⟨-, hu⟩ := Option.ite_none_right_eq_some.mp hstep
        cases hu
        refine h.plainPhase hp _ rfl fun _ _ hlook => ?_
        rw [hphase] at hlook
        intro hfresh c hc
        obtain ⟨hchat, hcond⟩ := List.mem_filter.mp hc
        have hnoTail : s.noTail c = true := (Bool.and_eq_true_iff.mp hcond).1
        obtain ⟨last, hseen, hknown⟩ := hlook hfresh c hchat
        exact good_of_noTail h.world hseen hknown hnoTail
      · cases hstep
  | markNoTail =>
      simp only [catchupStep] at hstep
      split at hstep
      · rename_i fresh noTail todo hphase
        cases hstep
        have hmark : Inv cfg { s with caughtUp := if fresh then noTail ++ s.caughtUp else s.caughtUp } := by
          refine hquiet _ fun c hc => ?_
          cases fresh with
          | false => exact Or.inl hc
          | true =>
              rcases List.mem_append.mp hc with hnew | hin
              · have hgen : p.gen = s.gen := by simpa [meets, hp, hphase] using hmeets
                obtain ⟨hlive, hlook⟩ := hold.looked hgen
                rw [hphase] at hlook
                exact Or.inr ⟨hlive, hlook rfl c hnew⟩
              · exact Or.inl hin
        exact hmark.plainPhase hp (.chats todo) rfl fun _ _ _ => trivial
      · cases hstep
  | nextChat =>
      simp only [catchupStep] at hstep
      split at hstep
      · rename_i c isNew todo hphase
        cases hstep
        refine h.phase hp _ (fun c' j todo' hj => ?_) (fun _ hl => by cases hl) fun _ _ _ => ?_
        · cases hj
          cases isNew <;> trivial
        · cases isNew <;> trivial
      · cases hstep
  | job a =>
      simp only [catchupStep] at hstep
      split at hstep
      · rename_i c j todo hphase
        obtain ⟨-, hmap⟩ := Option.ite_none_right_eq_some.mp hstep
        obtain ⟨⟨s', j'⟩, hjob, hu⟩ := Option.map_eq_some_iff.mp hmap
        cases hu
        have hgoes := jobStep_spec h.world (hold.job c j todo hphase) (by simpa [meets, hp, hphase] using hmeets)
          hjob
        have hmid : Inv cfg s' :=
          h.still hgoes.keeps hgoes.world hgoes.gen hgoes.caughtUp hgoes.catchup hgoes.backfills
        refine hmid.phase (hgoes.catchup.trans hp) _ (fun c' j'' todo' hj => ?_)
          (fun _ hl => by cases hl) fun hgen hlive _ => ?_
        · cases hj
          exact hgoes.ok
        · have hgen' : p.gen = s.gen := hgen.trans hgoes.gen
          obtain ⟨hliveOld, hlook⟩ := hold.looked hgen'
          rw [hphase] at hlook
          exact hgoes.looked hliveOld hlook
      · cases hstep
  | skip =>
      simp only [catchupStep] at hstep
      split at hstep
      · cases hstep
        exact h.plainPhase hp _ rfl fun _ _ _ => trivial
      · cases hstep
  | mark =>
      simp only [catchupStep] at hstep
      split at hstep
      · rename_i c tail todo hphase
        cases hstep
        have hcond : tail = true ∧ p.gen = s.gen := by simpa [meets, hp, hphase] using hmeets
        obtain ⟨rfl, hgen⟩ := hcond
        obtain ⟨hlive, hlook⟩ := hold.looked hgen
        rw [hphase] at hlook
        have hmark : Inv cfg { s with caughtUp := c :: s.caughtUp } := by
          refine hquiet _ fun c' hc' => ?_
          rcases List.mem_cons.mp hc' with rfl | hin
          · exact Or.inr ⟨hlive, hlook⟩
          · exact Or.inl hin
        exact hmark.plainPhase hp (.chats todo) rfl fun _ _ _ => trivial
      · cases hstep
  | endPass =>
      simp only [catchupStep] at hstep
      split at hstep
      · cases hstep
        exact h.plainPhase hp _ rfl fun _ _ _ => trivial
      · cases hstep
  | wake =>
      simp only [catchupStep] at hstep
      split at hstep
      · cases hstep
        refine h.phase hp _ (fun _ _ _ hj => by cases hj) (fun l' hl' c m hmem => ?_)
          fun _ _ _ => looked_newListing s
        cases hl'
        cases hmem
      · cases hstep
  | cancel =>
      cases hstep
      have hsame : SameTables s { s with catchup := none } := ⟨rfl, rfl, rfl, rfl, rfl, rfl⟩
      exact h.carry (hsame.keeps rfl rfl) (hsame.world h.world rfl) rfl (fun c hc => Or.inl hc)
        (fun _ hq => by cases hq) fun i b hb => Or.inl hb
  | grow c m | drop | reset | connect | identify | authorize | arrive c | decide c | commit c rest
  | backfill i c forward limit stop | backfillJob i a | backfillEnd i => cases hstep

/-! ## Runs -/

theorem inv_start (cfg : Config) (accountUser : Option Int) : Inv cfg (start accountUser) := by
  refine ⟨⟨fun c => List.Pairwise.nil, fun c => List.Pairwise.nil, fun c => ⟨List.Pairwise.nil, fun _ hm => hm⟩,
    fun c => rfl, nofun, nofun, nofun,
    nofun⟩, nofun, nofun, nofun⟩

/-- **Step.** -/
theorem inv_step {a : Action} (h : Inv cfg s) (hmeets : meets s a = true) (hstep : step cfg s a = some u) :
    Inv cfg u := by
  unfold step at hstep
  split at hstep
  · exact inv_live h hmeets hstep
  · exact inv_live h hmeets hstep
  · exact inv_live h hmeets hstep
  · exact inv_live h hmeets hstep
  · exact inv_live h hmeets hstep
  · exact inv_live h hmeets hstep
  · exact inv_live h hmeets hstep
  · exact inv_live h hmeets hstep
  · exact inv_live h hmeets hstep
  · exact inv_backfill h hmeets hstep
  · exact inv_backfill h hmeets hstep
  · exact inv_backfill h hmeets hstep
  · obtain ⟨p, hp, hcatchup⟩ := Option.bind_eq_some_iff.mp hstep
    exact inv_catchup h hmeets hp hcatchup

/-- Every server message between the first and the current `newest_time_ms` of a chat is stored. -/
def NoGap (s : State) : Prop :=
  ∀ c b n, s.born c = some b → s.newest c = some n →
    ∀ m ∈ s.history c, b ≤ m.time → m.time ≤ n.time → Stored s c m.id

/-- The chats in `caught_up` are caught up in the current connection: every message since the row began
    is stored, or its frame is on its way. -/
def CaughtUpToTail (s : State) : Prop := ∀ c ∈ s.caughtUp, Live s ∧ Good s c (AfterBorn s c)

/-- **No gap.** In every run whose steps meet the condition, the cursors pass no message that is not
    stored, and `caught_up` holds only chats that are caught up. -/
theorem cursor_no_gap (cfg : Config) (accountUser : Option Int) (s : State)
    (h : Run (step cfg) (fun x a => meets x a = true) (start accountUser) s) :
    NoGap s ∧ CaughtUpToTail s := by
  have hinv : Inv cfg s := h.invariant (fun _ _ _ hx hmeets hstep => inv_step hx hmeets hstep)
    (inv_start cfg accountUser)
  refine ⟨fun c b n hb hn m hm hbm hmn => ?_, hinv.caught⟩
  refine hinv.world.gapFree c n hn m hm (fun b' hb' => ?_) hmn
  rw [hb] at hb'
  cases hb'
  exact hbm

/-! ## A pass that outlives its connection -/

def msgAt (id time : Int) : Msg := ⟨none, id, time, .other, false, withPhoto⟩

def oneChatOnly : Config := ⟨[0], 20⟩

def rest : Rest := ⟨0, 1, .privateChat⟩

/-- A first connection: the only chat gets its seed and is caught up. -/
def firstPass : List Action :=
  [.grow 0 (msgAt 1 10), .reset, .connect, .identify, .authorize, .list [0], .storeList .privateChat,
    .endList true, .candidates [] [0], .markNoTail, .nextChat, .job (.fetch [msgAt 1 10]), .job (.store rest),
    .job .move, .mark, .endPass]

/-- The next pass reads that the chat has no tail, and marks it after the next reset. -/
def stalePass : List Action :=
  firstPass ++ [.wake, .list [0], .storeList .privateChat, .endList true, .candidates [] [], .drop,
    .grow 0 (msgAt 2 20), .reset, .markNoTail, .connect, .identify, .grow 0 (msgAt 3 30), .arrive 0, .decide 0,
    .commit 0 rest]

theorem stalePass_possible : (exec (step oneChatOnly) (start none) stalePass).isSome = true := by
  decide +kernel

/-- The live message has moved the cursor over the one that came while the connection was down. -/
theorem cursor_no_gap_fails :
    ∃ s, Run (step oneChatOnly) Always (start none) s ∧ ¬NoGap s := by
  refine ⟨_, Run.get_exec stalePass_possible, fun hgap => ?_⟩
  have hstored := hgap 0 10 ⟨30, 3⟩ (by decide +kernel) (by decide +kernel) (msgAt 2 20) (by decide +kernel)
    (by decide +kernel) (by decide +kernel)
  have hmissing : ¬Stored ((exec (step oneChatOnly) (start none) stalePass).get stalePass_possible) 0 2 := by
    unfold Stored
    decide +kernel
  exact hmissing hstored

/-- A live message in a chat that is caught up. -/
def liveMessage : List Action :=
  firstPass ++ [.grow 0 (msgAt 2 20), .arrive 0, .decide 0, .commit 0 rest]

theorem liveMessage_possible : (execOk (step oneChatOnly) meets (start none) liveMessage).isSome = true := by
  decide +kernel

theorem cursor_no_gap_live :
    NoGap ((execOk (step oneChatOnly) meets (start none) liveMessage).get liveMessage_possible) ∧
      CaughtUpToTail ((execOk (step oneChatOnly) meets (start none) liveMessage).get liveMessage_possible) :=
  cursor_no_gap oneChatOnly none _ (Run.get_execOk liveMessage_possible)

end MyPerson.MaxSync
