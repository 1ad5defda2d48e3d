import MyPerson.MaxSync.Coverage

/-!
# `MaxSync.Jobs` — pages that leave no gap

The tables and the lines are sound (`World`) as long as the cursor of a chat passes no message that is
not stored (`GapFree`). A frame may move the cursor when everything before it is stored (`HeadOk`), a
page of `_forward` because it goes on where the cursor stands (`ForwardOk`), and the page of a seed or
of `_backward`, which was not fetched from the cursor, when it reaches back to it (`pageJoins`).

## Contents
- `GapFree`, `World`, and `world_storeMessage`;
- `JobOk` and `JobLooked`: what a job in progress guarantees, and what it knows of the chat's tail;
- `jobMeets`, `jobStep_spec`: every step of a job keeps them.
-/

namespace MyPerson.MaxSync

open Lib Repo MaxIngest

variable {cfg : Config} {s t : State} {c c' : Nat} {m x : Msg}

/-! ## Sound tables -/

/-- The cursor passes no message that is not stored. -/
def GapFree (s : State) (c : Nat) : Prop :=
  ∀ n, s.newest c = some n → ∀ m ∈ s.history c, AfterBorn s c m.time → m.time ≤ n.time → Stored s c m.id

/-- The last message of a chat's row is a message of the chat. -/
def ChatOk (history : List Msg) (chat : Chat) : Prop :=
  (chat.lastMessageExternalId = none ∧ chat.lastMessageAt = none) ∨
    ∃ m ∈ history, chat.lastMessageExternalId = some m.id ∧ chat.lastMessageAt = some (msToDt m.time)

def LastOk (s : State) (c : Nat) : Prop := ∀ chat, s.store.chats c = some chat → ChatOk (s.history c) chat

/-- All that comes before the first frame at the lock is stored. -/
def HeadOk (s : State) (c : Nat) : Prop :=
  ∃ x left, s.queue c = x :: left ∧
    ∀ m ∈ s.history c, AfterBorn s c m.time → m.time ≤ x.time → Stored s c m.id ∨ m = x

structure World (s : State) : Prop where
  times : ∀ c, Ascending Msg.time (s.history c)
  ids : ∀ c, Ascending Msg.id (s.history c)
  line : ∀ c, LineOk s c
  born : ∀ c, (s.born c).isSome = (s.newest c).isSome
  cursor : ∀ c n, s.newest c = some n → ∃ m ∈ s.history c, m.time = n.time
  gapFree : ∀ c, GapFree s c
  last : ∀ c, LastOk s c
  decided : ∀ c, s.decided c = some true → HeadOk s c

theorem World.newest_of_born (h : World s) (c : Nat) (b : Int) (hb : s.born c = some b) :
    (s.newest c).isSome = true := by
  rw [← h.born c, hb]
  rfl

/-- An item is its time. -/
theorem World.eq_of_time (h : World s) (hm : m ∈ s.history c) (hx : x ∈ s.history c)
    (heq : m.time = x.time) : m = x := (h.times c).eq_of_time hm hx heq

theorem HeadOk.grows (h : HeadOk s c) (hgrows : Grows s t) (hasc : Ascending Msg.time (t.history c))
    (hqueue : t.queue c = s.queue c) (hline : LineOk s c) : HeadOk t c := by
  obtain ⟨x, left, hx, hall⟩ := h
  have hxmem : x ∈ s.history c :=
    hline.subset (List.mem_append_left _ (hx ▸ List.mem_cons_self))
  refine ⟨x, left, hqueue.trans hx, fun m hm hborn hle => ?_⟩
  have hold : m ∈ s.history c := hgrows.mem_of_le hasc hxmem hm hle
  exact (hall m hold (hgrows.afterBorn hborn) hle).imp_left (hgrows.stored c m.id)

/-- The stub row and the move of the last message. -/
theorem lastOk_storeMessage (h : LastOk s c') (hm : m ∈ s.history c) (rest : Rest) (adv : Bool) :
    LastOk (s.storeMessage c m rest adv) c' := by
  intro chat hchat
  rw [storeMessage_chats] at hchat
  rw [storeMessage_history]
  obtain ⟨old, hold, hmoved⟩ := Option.map_eq_some_iff.mp hchat
  have hrow : ChatOk (s.history c') old := by
    split at hold
    · by_cases hc : c' = c
      · subst hc
        rw [Function.update_self] at hold
        cases hold
        exact Or.inl ⟨rfl, rfl⟩
      · rw [Function.update_of_ne hc] at hold
        exact h old hold
    · exact h old hold
  split at hmoved
  · rename_i hcond
    subst hmoved
    have hc : c' = c := hcond.1
    subst hc
    exact Or.inr ⟨m, hm, rfl, rfl⟩
  · subst hmoved
    exact hrow

/-- **Store.** Storing a message of the server leaves no gap, if it moves the cursor only over stored
    messages. -/
theorem world_storeMessage (h : World s) (hm : m ∈ s.history c) (rest : Rest) (adv : Bool)
    (hcover : adv = true → ∀ n, s.newest c = some n → n.time < m.time →
      ∀ m' ∈ s.history c, AfterBorn s c m'.time → m'.time ≤ m.time → Stored s c m'.id ∨ m' = m) :
    World (s.storeMessage c m rest adv) := by
  have hgrows := grows_storeMessage s c m rest adv (h.newest_of_born c)
  have hself : Stored (s.storeMessage c m rest adv) c m.id := (stored_storeMessage ..).mpr (Or.inr ⟨rfl, rfl⟩)
  have hline : ∀ c', (s.storeMessage c m rest adv).line c' = s.line c' := fun c' => by simp [State.line]
  refine ⟨?times, ?ids, ?line, ?born, ?cursor, ?gapFree, ?last, ?decided⟩
  case times => simpa using h.times
  case ids => simpa using h.ids
  case line =>
    intro c'
    constructor
    · rw [hline]
      exact (h.line c').ascending
    · rw [hline, storeMessage_history]
      exact (h.line c').subset
  case born =>
    intro c'
    cases adv with
    | false => exact h.born c'
    | true =>
        by_cases hc : c' = c
        · subst hc
          rw [storeMessage_born, storeMessage_newest]
          cases hn : s.newest c' with
          | none => simp
          | some n =>
              have hb := h.born c'
              rw [hn] at hb
              by_cases hlt : n.time < m.time <;> simpa [hlt] using hb
        · rw [storeMessage_newest_ne s c m rest true hc, ← h.born c', storeMessage_born]
          split
          · rw [Function.update_of_ne hc]
          · rfl
  case cursor =>
    intro c' n hn
    rw [storeMessage_history]
    by_cases hc : c' = c
    · subst hc
      cases adv with
      | false => exact h.cursor c' n hn
      | true =>
          rw [storeMessage_newest] at hn
          cases hold : s.newest c' with
          | none =>
              rw [hold] at hn
              cases hn
              exact ⟨m, hm, rfl⟩
          | some n₀ =>
              rw [hold] at hn
              dsimp only at hn
              split at hn
              · cases hn
                exact ⟨m, hm, rfl⟩
              · cases hn
                exact h.cursor c' _ hold
    · rw [storeMessage_newest_ne s c m rest adv hc] at hn
      exact h.cursor c' n hn
  case gapFree =>
    intro c' n hn m' hm' hborn hle
    rw [storeMessage_history] at hm'
    have hbornOld := hgrows.afterBorn hborn
    by_cases hc : c' = c
    · subst hc
      cases adv with
      | false => exact hgrows.stored c' m'.id (h.gapFree c' n hn m' hm' hbornOld hle)
      | true =>
          rw [storeMessage_newest] at hn
          cases hold : s.newest c' with
          | none =>
              -- the row is new: it starts at this message
              rw [hold] at hn
              cases hn
              have hstart : m.time ≤ m'.time := by
                refine hborn m.time ?_
                rw [storeMessage_born, hold]
                exact Function.update_self ..
              have heq : m' = m := h.eq_of_time hm' hm (by simp at hle; omega)
              exact heq ▸ hself
          | some n₀ =>
              rw [hold] at hn
              dsimp only at hn
              split at hn
              · rename_i hlt
                cases hn
                rcases hcover rfl n₀ hold hlt m' hm' hbornOld hle with hstored | rfl
                · exact hgrows.stored c' m'.id hstored
                · exact hself
              · cases hn
                exact hgrows.stored c' m'.id (h.gapFree c' _ hold m' hm' hbornOld hle)
    · rw [storeMessage_newest_ne s c m rest adv hc] at hn
      exact hgrows.stored c' m'.id (h.gapFree c' n hn m' hm' hbornOld hle)
  case last => exact fun c' => lastOk_storeMessage (h.last c') hm rest adv
  case decided =>
    intro c' hdecided
    rw [storeMessage_decided] at hdecided
    exact (h.decided c' hdecided).grows hgrows (by simpa using h.times c') (by simp) (h.line c')

/-- A state with the same histories, lines and tables, as far as they count. -/
theorem World.of_same (h : World s) (hhistory : t.history = s.history) (hqueue : t.queue = s.queue)
    (hstream : t.stream = s.stream) (hmessages : t.store.messages = s.store.messages)
    (hnewest : ∀ c, t.newest c = s.newest c) (hborn : t.born = s.born) (hlast : ∀ c, LastOk t c)
    (hdecided : t.decided = s.decided) : World t := by
  have hline : ∀ c, t.line c = s.line c := fun c => by simp [State.line, hqueue, hstream]
  have hstored : ∀ c id, Stored t c id ↔ Stored s c id := fun c id => by simp [Stored, hmessages]
  have hafter : ∀ c time, AfterBorn t c time ↔ AfterBorn s c time := fun c time => by
    simp [AfterBorn, hborn]
  refine ⟨?times, ?ids, ?line, ?born, ?cursor, ?gapFree, hlast, ?decided⟩
  case times => exact fun c => by rw [hhistory]; exact h.times c
  case ids => exact fun c => by rw [hhistory]; exact h.ids c
  case line =>
    intro c
    exact ⟨by rw [hline]; exact (h.line c).ascending, by rw [hline, hhistory]; exact (h.line c).subset⟩
  case born => exact fun c => by rw [hborn, hnewest]; exact h.born c
  case cursor => exact fun c n hn => by rw [hhistory]; exact h.cursor c n ((hnewest c).symm.trans hn)
  case gapFree =>
    intro c n hn m hm hb hle
    rw [hnewest] at hn
    rw [hhistory] at hm
    exact (hstored c m.id).mpr (h.gapFree c n hn m hm ((hafter c _).mp hb) hle)
  case decided =>
    intro c hd
    rw [hdecided] at hd
    obtain ⟨x, left, hx, hall⟩ := h.decided c hd
    refine ⟨x, left, by rw [hqueue]; exact hx, fun m hm hb hle => ?_⟩
    rw [hhistory] at hm
    exact (hall m hm ((hafter c _).mp hb) hle).imp_left (hstored c m.id).mpr

theorem SameTables.world (h : SameTables s t) (hw : World s) (hdecided : t.decided = s.decided) : World t := by
  refine hw.of_same h.history h.queue h.stream (by rw [h.store]) (fun c => by simp [State.newest, h.cursors])
    h.born (fun c chat hchat => ?_) hdecided
  rw [h.store] at hchat
  rw [h.history]
  exact hw.last c chat hchat

/-! ## Jobs in progress -/

/-- A page that was not fetched from the cursor: it has no holes, and what is not left is stored. -/
structure PageOk (s : State) (c : Nat) (page left : List Msg) : Prop where
  convex : Convex Msg.time (s.history c) page
  subset : left ⊆ page
  done : ∀ y ∈ page, y ∈ left ∨ (Stored s c y.id ∧ ∃ n, s.newest c = some n ∧ y.time ≤ n.time)

/-- A page of `_forward`: whatever comes before a message that is left is stored or left. -/
structure ForwardOk (s : State) (c : Nat) (limit stored : Nat) (left newer : List Msg) : Prop where
  sorted : left.Pairwise fun a b => a.time ≤ b.time
  subset : left ⊆ s.history c
  cover : ∀ x ∈ left, ∀ m ∈ s.history c, AfterBorn s c m.time → m.time ≤ x.time →
    Stored s c m.id ∨ m ∈ left
  whole : stored + left.length < limit → ∀ y ∈ newer, y ∈ left ∨ ∃ n, s.newest c = some n ∧ y.time ≤ n.time

/-- What a job in progress guarantees. -/
def JobOk (s : State) (c : Nat) : Job → Prop
  | .seedStore page left => PageOk s c page left
  | .backwardStore _ _ _ left inRange _ => PageOk s c inRange left
  | .forward limit stored cursor _ => stored < limit ∧ ∃ n, s.newest c = some n ∧ cursor ≤ n.time
  | .forwardStore limit stored left newer => ForwardOk s c limit stored left newer
  | _ => True

/-- What a job of a catch-up knows of the tail of its chat. -/
def JobLooked (s : State) (c : Nat) : Job → Prop
  | .seedStore page _ => ∃ last, Good s c (After last) ∧ ∀ l, last = some l → l ∈ page
  | .ended true => Good s c (AfterBorn s c)
  | _ => True

/-- **The condition on pages.** A page that was not fetched from the cursor moves an existing cursor only
    where it reaches back to it, and only when its older messages are stored. -/
def pageJoins (s : State) (c : Nat) (page left : List Msg) (m : Msg) : Bool :=
  match s.newest c with
  | none => true
  | some newest =>
      m.time ≤ newest.time ||
        (page.any (fun y => y.time ≤ newest.time) && left.all fun y => m.time ≤ y.time)

/-- The condition on the steps of a job: pages join, and a seed shows something unless the chat has no
    messages. -/
def jobMeets (s : State) (c : Nat) : Job → JobAction → Bool
  | .seed, .fetch page => !page.isEmpty || (s.history c).isEmpty
  | .seedStore page (m :: left), .store _ => pageJoins s c page left m
  | .backwardStore _ _ _ (m :: left) inRange _, .store _ => pageJoins s c inRange left m
  | _, _ => true

theorem PageOk.grows {page left : List Msg} (h : PageOk s c page left) (hgrows : Grows s t)
    (hasc : Ascending Msg.time (t.history c)) : PageOk t c page left := by
  refine ⟨?_, h.subset, fun y hy => ?_⟩
  · obtain ⟨new, hnew⟩ := hgrows.history c
    rw [hnew] at hasc ⊢
    exact h.convex.append hasc
  · refine (h.done y hy).imp_right ?_
    rintro ⟨hstored, n, hn, hle⟩
    obtain ⟨n', hn', hle'⟩ := hgrows.newest c n hn
    exact ⟨hgrows.stored c y.id hstored, n', hn', by omega⟩

theorem ForwardOk.grows {limit stored : Nat} {left newer : List Msg}
    (h : ForwardOk s c limit stored left newer) (hgrows : Grows s t)
    (hasc : Ascending Msg.time (t.history c)) : ForwardOk t c limit stored left newer := by
  refine ⟨h.sorted, fun y hy => hgrows.mem (h.subset hy), fun y hy m hm hborn hle => ?_, fun hwhole y hy => ?_⟩
  · have hold : m ∈ s.history c := hgrows.mem_of_le hasc (h.subset hy) hm hle
    exact (h.cover y hy m hold (hgrows.afterBorn hborn) hle).imp_left (hgrows.stored c m.id)
  · refine (h.whole hwhole y hy).imp_right ?_
    rintro ⟨n, hn, hle⟩
    obtain ⟨n', hn', hle'⟩ := hgrows.newest c n hn
    exact ⟨n', hn', by omega⟩

/-- A job is not disturbed by what others do. -/
theorem JobOk.grows {j : Job} (h : JobOk s c j) (hgrows : Grows s t)
    (hasc : Ascending Msg.time (t.history c)) : JobOk t c j := by
  cases j with
  | seedStore page left => exact PageOk.grows h hgrows hasc
  | backwardStore limit stored stop left inRange past => exact PageOk.grows h hgrows hasc
  | forward limit stored cursor seen =>
      obtain ⟨hlt, n, hn, hle⟩ := h
      obtain ⟨n', hn', hle'⟩ := hgrows.newest c n hn
      exact ⟨hlt, n', hn', by omega⟩
  | forwardStore limit stored left newer => exact ForwardOk.grows h hgrows hasc
  | seed | forwardRead limit | backwardRead limit stop | backward limit stored stop cursor | ended tail =>
      trivial

theorem JobLooked.keeps {j : Job} (h : JobLooked s c j) (hkeeps : Keeps s t) (hlive : Live s)
    (hgen : t.gen = s.gen) : JobLooked t c j := by
  cases j with
  | seedStore page left =>
      obtain ⟨last, hgood, hlast⟩ := h
      exact ⟨last, hkeeps.good hlive hgen c _ hgood, hlast⟩
  | ended tail =>
      cases tail with
      | false => trivial
      | true => exact (hkeeps.good hlive hgen c _ h).mono fun _ hb => hkeeps.grows.afterBorn hb
  | seed | forwardRead limit | forward limit stored cursor seen | forwardStore limit stored left newer
  | backwardRead limit stop | backward limit stored stop cursor
  | backwardStore limit stored stop left inRange past => trivial

/-! ## The steps of a job -/

/-- What a page that joins the cursor covers. -/
theorem cover_of_joins {page left : List Msg} (hw : World s) (h : PageOk s c page (m :: left))
    (hjoins : pageJoins s c page left m = true) {n : Mark} (hn : s.newest c = some n) (hlt : n.time < m.time)
    (hx : x ∈ s.history c) (hborn : AfterBorn s c x.time) (hle : x.time ≤ m.time) :
    Stored s c x.id ∨ x = m := by
  have hm : m ∈ page := h.subset List.mem_cons_self
  have hreach : (∃ y ∈ page, y.time ≤ n.time) ∧ ∀ y ∈ left, m.time ≤ y.time := by
    have hnot : ¬m.time ≤ n.time := by omega
    unfold pageJoins at hjoins
    rw [hn] at hjoins
    simpa [hnot] using hjoins
  by_cases hold : x.time ≤ n.time
  · exact Or.inl (hw.gapFree c n hn x hx hborn hold)
  · obtain ⟨⟨y, hy, hyn⟩, hleft⟩ := hreach
    have hpage : x ∈ page := h.convex.between y hy m hm x hx (by omega) hle
    rcases h.done x hpage with hin | ⟨hstored, -⟩
    · rcases List.mem_cons.mp hin with rfl | hin
      · exact Or.inr rfl
      · have hmx := hleft x hin
        exact Or.inr (hw.eq_of_time hx (h.convex.subset hm) (by omega))
    · exact Or.inl hstored

/-- After the store of a message of a page. -/
theorem pageOk_store {page left : List Msg} (hw : World s) (h : PageOk s c page (m :: left)) (rest : Rest) :
    PageOk (s.storeMessage c m rest true) c page left := by
  have hgrows := grows_storeMessage s c m rest true (hw.newest_of_born c)
  have hnext := h.grows hgrows (by simpa using hw.times c)
  refine ⟨hnext.convex, fun y hy => h.subset (List.mem_cons_of_mem m hy), fun y hy => ?_⟩
  rcases hnext.done y hy with hin | hdone
  · rcases List.mem_cons.mp hin with rfl | hin
    · refine Or.inr ⟨(stored_storeMessage ..).mpr (Or.inr ⟨rfl, rfl⟩), ?_⟩
      rw [storeMessage_newest]
      cases hn : s.newest c with
      | none => exact ⟨_, rfl, Int.le_refl _⟩
      | some n =>
          by_cases hlt : n.time < y.time
          · exact ⟨_, if_pos hlt, Int.le_refl _⟩
          · exact ⟨n, if_neg hlt, Int.not_lt.mp hlt⟩
    · exact Or.inl hin
  · exact Or.inr hdone

/-- After the store of a message of `_forward`. -/
theorem forwardOk_store {limit stored : Nat} {left newer : List Msg} (hw : World s)
    (h : ForwardOk s c limit stored (m :: left) newer) (rest : Rest) :
    ForwardOk (s.storeMessage c m rest true) c limit (stored + 1) left newer := by
  have hgrows := grows_storeMessage s c m rest true (hw.newest_of_born c)
  have hnext := h.grows hgrows (by simpa using hw.times c)
  have hself : Stored (s.storeMessage c m rest true) c m.id := (stored_storeMessage ..).mpr (Or.inr ⟨rfl, rfl⟩)
  refine ⟨(List.pairwise_cons.mp h.sorted).2, fun y hy => hnext.subset (List.mem_cons_of_mem m hy), ?_, ?_⟩
  · intro y hy m' hm' hborn hle
    rcases hnext.cover y (List.mem_cons_of_mem m hy) m' hm' hborn hle with hstored | hin
    · exact Or.inl hstored
    · rcases List.mem_cons.mp hin with rfl | hin
      · exact Or.inl hself
      · exact Or.inr hin
  · intro hwhole y hy
    have hlen : stored + (m :: left).length < limit := by
      rw [List.length_cons]
      omega
    rcases hnext.whole hlen y hy with hin | hdone
    · rcases List.mem_cons.mp hin with rfl | hin
      · refine Or.inr ?_
        rw [storeMessage_newest]
        cases hn : s.newest c with
        | none => exact ⟨_, rfl, Int.le_refl _⟩
        | some n =>
            by_cases hlt : n.time < y.time
            · exact ⟨_, if_pos hlt, Int.le_refl _⟩
            · exact ⟨n, if_neg hlt, Int.not_lt.mp hlt⟩
      · exact Or.inl hin
    · exact Or.inr hdone

/-- The page of `_forward` covers what comes before each of its messages. -/
theorem forwardOk_fetch (hw : World s) {limit stored : Nat} {cursor : Int} {seen : List Int} {page : List Msg}
    {k : Nat} (hlt : stored < limit) {n : Mark} (hn : s.newest c = some n) (hle : cursor ≤ n.time)
    (hpage : page.Perm (oldestFrom Msg.time (s.history c) cursor k)) :
    ForwardOk s c limit stored
      ((sortByTime Msg.time (newerThan cursor seen page)).take (limit - stored)) (newerThan cursor seen page) := by
  have hsub : sortByTime Msg.time (newerThan cursor seen page) ⊆ s.history c := by
    intro y hy
    have hnewer : y ∈ newerThan cursor seen page := (sortByTime_perm _).mem_iff.mp hy
    exact (mem_oldestFrom_le (hpage.mem_iff.mp (List.mem_filter.mp hnewer).1)).1
  have hsorted : (sortByTime Msg.time (newerThan cursor seen page)).Pairwise fun a b => a.time ≤ b.time :=
    sortByTime_sorted _
  refine ⟨hsorted.sublist (List.take_sublist ..), fun y hy => hsub (List.mem_of_mem_take hy), ?_, ?_⟩
  · intro y hy m hm hborn hmy
    by_cases hold : m.time ≤ n.time
    · exact Or.inl (hw.gapFree c n hn m hm hborn hold)
    · have hynewer : y ∈ newerThan cursor seen page := (sortByTime_perm _).mem_iff.mp (List.mem_of_mem_take hy)
      have hyold : y ∈ oldestFrom Msg.time (s.history c) cursor k :=
        hpage.mem_iff.mp (List.mem_filter.mp hynewer).1
      have hmold := mem_oldestFrom (hw.times c) hyold hm (by omega) hmy
      have hmnewer : m ∈ newerThan cursor seen page := by
        refine List.mem_filter.mpr ⟨hpage.mem_iff.mpr hmold, ?_⟩
        have hcm : cursor < m.time := by omega
        simp [hcm]
      exact Or.inr (mem_take_sorted (hw.times c) hsub hsorted hy ((sortByTime_perm _).mem_iff.mpr hmnewer) hmy)
  · intro hwhole y hy
    refine Or.inl ?_
    rw [List.length_take] at hwhole
    have hall : (sortByTime Msg.time (newerThan cursor seen page)).take (limit - stored)
        = sortByTime Msg.time (newerThan cursor seen page) := by
      refine List.take_of_length_le ?_
      omega
    rw [hall]
    exact (sortByTime_perm _).mem_iff.mpr hy

/-- A page of `_forward` that shows nothing newer: the cursor is at the end of the chat. -/
theorem tail_of_forward (hw : World s) {cursor : Int} {seen : List Int} {page : List Msg} {k : Nat} (hk : 2 ≤ k)
    (hpage : page.Perm (oldestFrom Msg.time (s.history c) cursor k))
    (hempty : newerThan cursor seen page = []) (hm : m ∈ s.history c) : m.time ≤ cursor := by
  refine tail_of_oldestFrom (hw.times c) hk (fun y hy => ?_) hm
  have hnot := List.filter_eq_nil_iff.mp hempty y (hpage.mem_iff.mpr hy)
  by_contra hlater
  exact hnot (by simp [Int.not_le.mp hlater])

/-- What a step of a job keeps and establishes. -/
structure JobGoes (s t : State) (c : Nat) (j j' : Job) : Prop where
  keeps : Keeps s t
  world : World t
  ok : JobOk t c j'
  looked : Live s → JobLooked s c j → JobLooked t c j'
  gen : t.gen = s.gen
  caughtUp : t.caughtUp = s.caughtUp
  catchup : t.catchup = s.catchup
  backfills : t.backfills = s.backfills

theorem Keeps.refl (s : State) : Keeps s s := SameTables.keeps ⟨rfl, rfl, rfl, rfl, rfl, rfl⟩ rfl rfl

/-- A step that reads, or asks the server. -/
theorem JobGoes.here {j j' : Job} (hw : World s) (hok : JobOk s c j')
    (hlooked : JobLooked s c j → JobLooked s c j') : JobGoes s s c j j' :=
  ⟨Keeps.refl s, hw, hok, fun _ => hlooked, rfl, rfl, rfl, rfl⟩

/-- A step that stores the next message. -/
theorem JobGoes.store {j j' : Job} (hw : World s) (hm : m ∈ s.history c) (rest : Rest)
    (hcover : ∀ n, s.newest c = some n → n.time < m.time →
      ∀ m' ∈ s.history c, AfterBorn s c m'.time → m'.time ≤ m.time → Stored s c m'.id ∨ m' = m)
    (hok : JobOk (s.storeMessage c m rest true) c j')
    (hlooked : JobLooked (s.storeMessage c m rest true) c j → JobLooked (s.storeMessage c m rest true) c j') :
    JobGoes s (s.storeMessage c m rest true) c j j' := by
  have hkeeps := keeps_storeMessage s c m rest true (hw.newest_of_born c)
  exact ⟨hkeeps, world_storeMessage hw hm rest true fun _ => hcover, hok,
    fun hlive hl => hlooked (hl.keeps hkeeps hlive (by simp)), by simp, by simp, by simp, by simp⟩

theorem moveOldest_cursor (s : State) (c : Nat) (mark : Mark) (c' : Nat) :
    (s.moveOldest c mark).newest c' = s.newest c' := by
  show (Function.update s.cursors c _ c').bind Cursor.newest = _
  by_cases hc : c' = c
  · subst hc
    rw [Function.update_self]
    exact moveOldest_newest ..
  · rw [Function.update_of_ne hc]

/-- `_move_oldest` moves the other end of the cursor. -/
theorem JobGoes.move {j j' : Job} (hw : World s) (mark : Mark) (hok : JobOk s c j')
    (hlooked : JobLooked s c j → JobLooked s c j') : JobGoes s (s.moveOldest c mark) c j j' := by
  have hgrows : Grows s (s.moveOldest c mark) := Grows.of_same rfl rfl (moveOldest_cursor s c mark) rfl rfl
  have hkeeps : Keeps s (s.moveOldest c mark) := Keeps.of_tables hgrows rfl (fun _ => rfl) rfl rfl
  have hworld : World (s.moveOldest c mark) :=
    hw.of_same rfl rfl rfl rfl (moveOldest_cursor s c mark) rfl (fun c' => hw.last c') rfl
  exact ⟨hkeeps, hworld, hok.grows hgrows (hw.times c), fun hlive hl => (hlooked hl).keeps hkeeps hlive rfl,
    rfl, rfl, rfl, rfl⟩

/-- A chat all of whose messages are stored. -/
theorem good_of_stored {p : Int → Prop} (h : ∀ m ∈ s.history c, p m.time → Stored s c m.id) : Good s c p :=
  ⟨fun _ _ m hm hp _ => Or.inl (h m hm hp), fun _ m hm hp => Or.inl (h m hm hp)⟩

/-- Nothing comes after the last message. -/
theorem good_after_last (hw : World s) (c : Nat) : Good s c (After (s.history c).getLast?) := by
  refine good_of_stored fun m hm hafter => ?_
  cases hlast : (s.history c).getLast? with
  | none =>
      rw [List.getLast?_eq_none_iff.mp hlast] at hm
      cases hm
  | some l =>
      obtain ⟨init, hinit⟩ := List.getLast?_eq_some_iff.mp hlast
      have hasc := hw.times c
      have hlt := hafter l hlast
      rw [hinit] at hasc hm
      rcases List.mem_append.mp hm with hin | hend
      · exact absurd (hasc.lt_of_append hin (List.mem_singleton_self l)) (by omega)
      · rw [List.mem_singleton.mp hend] at hlt
        exact absurd hlt (Int.lt_irrefl _)

/-- A chat is covered from the start of its cursor on, once the cursor has reached the message after which
    it was covered. -/
theorem good_of_reached (hw : World s) {last : Option Msg} (h : Good s c (After last))
    (hreached : ∀ l, last = some l → ∃ n, s.newest c = some n ∧ l.time ≤ n.time) :
    Good s c (AfterBorn s c) := by
  refine h.widen fun m hm hborn => ?_
  by_cases hafter : After last m.time
  · exact Or.inl hafter
  · obtain ⟨l, hl, hle⟩ : ∃ l, last = some l ∧ m.time ≤ l.time := by
      simpa [After] using hafter
    obtain ⟨n, hn, hln⟩ := hreached l hl
    exact Or.inr (hw.gapFree c n hn m hm hborn (by omega))

theorem two_le_pageOf {limit stored : Nat} (h : stored < limit) : 2 ≤ pageOf (limit - stored) true := by
  simp only [pageOf, pageSize, if_true]
  omega

/-- The loop of `_forward` goes on where the cursor stands. -/
theorem forwardLoop_ok {limit stored : Nat} {cursor : Int} (seen : List Int)
    (h : stored < limit → ∃ n, s.newest c = some n ∧ cursor ≤ n.time) :
    JobOk s c (forwardLoop limit stored cursor seen) ∧ JobLooked s c (forwardLoop limit stored cursor seen) := by
  unfold forwardLoop
  by_cases hlt : stored < limit
  · rw [if_pos hlt]
    exact ⟨⟨hlt, h hlt⟩, trivial⟩
  · rw [if_neg hlt]
    exact ⟨trivial, trivial⟩

theorem backwardLoop_ok (s : State) (c limit stored : Nat) (stop cursor : Option Int) :
    JobOk s c (backwardLoop limit stored stop cursor) ∧ JobLooked s c (backwardLoop limit stored stop cursor) := by
  unfold backwardLoop
  split <;> exact ⟨trivial, trivial⟩

/-- **Step.** Every step of a job whose pages join leaves no gap. -/
theorem jobStep_spec {j j' : Job} {a : JobAction} (hw : World s) (hj : JobOk s c j)
    (hmeets : jobMeets s c j a = true) (h : jobStep cfg s c j a = some (t, j')) : JobGoes s t c j j' := by
  unfold jobStep at h
  split at h
  · -- the page of a seed
    rename_i page
    obtain ⟨hpage, heq⟩ := Option.ite_none_right_eq_some.mp h
    cases heq
    by_cases hempty : page.isEmpty = true
    · rw [if_pos hempty]
      have hnone : s.history c = [] := by simpa [jobMeets, hempty] using hmeets
      refine JobGoes.here hw trivial fun _ => good_of_stored fun m hm _ => ?_
      rw [hnone] at hm
      cases hm
    · rw [if_neg hempty]
      have hconv := (convex_newestUpTo (hw.times c) none cfg.seed).perm hpage
      refine JobGoes.here hw ⟨hconv, fun _ hy => hy, fun y hy => Or.inl hy⟩ fun _ => ?_
      refine ⟨_, good_after_last hw c, fun l hl => hpage.mem_iff.mpr (getLast?_mem_newestUpTo ?_ hl)⟩
      by_contra hzero
      have hseed : cfg.seed = 0 := by omega
      have hnothing : newestUpTo Msg.time (s.history c) none cfg.seed = [] := by simp [newestUpTo, hseed]
      rw [hnothing] at hpage
      simp [hpage.eq_nil] at hempty
  · -- a message of a seed
    rename_i page m left rest
    cases h
    have hpage : PageOk s c page (m :: left) := hj
    exact JobGoes.store hw (hpage.convex.subset (hpage.subset List.mem_cons_self)) rest
      (fun n hn hlt x hx hborn hle => cover_of_joins hw hpage hmeets hn hlt hx hborn hle)
      (pageOk_store hw hpage rest) fun hl => hl
  · -- a seed is stored
    rename_i page
    obtain ⟨m, -, heq⟩ := Option.map_eq_some_iff.mp h
    cases heq
    have hpage : PageOk s c page [] := hj
    refine JobGoes.move hw _ trivial ?_
    rintro ⟨last, hgood, hlast⟩
    refine good_of_reached hw hgood fun l hl => ?_
    rcases hpage.done l (hlast l hl) with hin | ⟨-, hreached⟩
    · cases hin
    · exact hreached
  · -- the cursor of `_forward`
    obtain ⟨newest, hn, heq⟩ := Option.map_eq_some_iff.mp h
    cases heq
    obtain ⟨hok, hlooked⟩ := forwardLoop_ok [newest.id] fun _ => ⟨newest, hn, Int.le_refl _⟩
    exact JobGoes.here hw hok fun _ => hlooked
  · -- a page of `_forward`
    rename_i limit stored cursor seen page
    obtain ⟨hpage, heq⟩ := Option.ite_none_right_eq_some.mp h
    cases heq
    obtain ⟨hlt, n, hn, hle⟩ := hj
    by_cases hempty : (newerThan cursor seen page).isEmpty = true
    · rw [if_pos hempty]
      refine JobGoes.here hw trivial fun _ => good_of_stored fun m hm hborn => ?_
      have htail := tail_of_forward hw (two_le_pageOf hlt) hpage (List.isEmpty_iff.mp hempty) hm
      exact hw.gapFree c n hn m hm hborn (by omega)
    · rw [if_neg hempty]
      exact JobGoes.here hw (forwardOk_fetch hw hlt hn hle hpage) fun _ => trivial
  · -- a message of `_forward`
    rename_i limit stored m left newer rest
    cases h
    have hforward : ForwardOk s c limit stored (m :: left) newer := hj
    refine JobGoes.store hw (hforward.subset List.mem_cons_self) rest ?_ (forwardOk_store hw hforward rest)
      fun _ => trivial
    intro n hn hlt x hx hborn hle
    refine (hforward.cover m List.mem_cons_self x hx hborn hle).imp_right fun hin => ?_
    rcases List.mem_cons.mp hin with rfl | hin
    · rfl
    · have hmx := (List.pairwise_cons.mp hforward.sorted).1 x hin
      exact hw.eq_of_time hx (hforward.subset List.mem_cons_self) (by omega)
  · -- the loop of `_forward` goes on
    rename_i limit stored newer
    obtain ⟨newest, hlast, heq⟩ := Option.map_eq_some_iff.mp h
    cases heq
    have hforward : ForwardOk s c limit stored [] newer := hj
    have hmem : newest ∈ newer := (sortByTime_perm _).mem_iff.mp (List.mem_of_getLast? hlast)
    obtain ⟨hok, hlooked⟩ := forwardLoop_ok
      ((newer.filter fun m => m.time == newest.time).map Msg.id) fun hlt =>
        (hforward.whole hlt newest hmem).resolve_left List.not_mem_nil
    exact JobGoes.here hw hok fun _ => hlooked
  · -- the cursor of `_backward`
    cases h
    obtain ⟨hok, hlooked⟩ := backwardLoop_ok ..
    exact JobGoes.here hw hok fun _ => hlooked
  · -- a page of `_backward`
    rename_i limit stored stop cursor page
    obtain ⟨hpage, heq⟩ := Option.ite_none_right_eq_some.mp h
    cases heq
    split
    · exact JobGoes.here hw trivial fun _ => trivial
    · refine JobGoes.here hw ⟨?_, fun _ hy => hy, fun y hy => Or.inl hy⟩ fun _ => trivial
      have hconv := (convex_newestUpTo (hw.times c) cursor (pageOf (limit - stored) cursor.isSome)).perm hpage
      have holder : Convex Msg.time (s.history c) (olderThan cursor page) := by
        refine hconv.filter fun y z m hy hz _ hmz => ?_
        cases cursor with
        | none => rfl
        | some t =>
            simp only [Option.all_some, decide_eq_true_eq] at hz ⊢
            omega
      have hstop : Convex Msg.time (s.history c)
          ((olderThan cursor page).filter fun m => stop.all fun t => t ≤ m.time) := by
        refine holder.filter fun y z m hy hz hym _ => ?_
        cases stop with
        | none => rfl
        | some t =>
            simp only [Option.all_some, decide_eq_true_eq] at hy ⊢
            omega
      exact (hstop.perm (sortByTimeDesc_perm _)).take (hw.times c) (sortByTimeDesc_sorted _) _
  · -- a message of `_backward`
    rename_i limit stored stop m left inRange past rest
    cases h
    have hpage : PageOk s c inRange (m :: left) := hj
    exact JobGoes.store hw (hpage.convex.subset (hpage.subset List.mem_cons_self)) rest
      (fun n hn hlt x hx hborn hle => cover_of_joins hw hpage hmeets hn hlt hx hborn hle)
      (pageOk_store hw hpage rest) fun _ => trivial
  · -- the oldest message of a page of `_backward`
    rename_i limit stored stop inRange past
    obtain ⟨m, -, heq⟩ := Option.map_eq_some_iff.mp h
    cases heq
    split
    · exact JobGoes.move hw _ trivial fun _ => trivial
    · obtain ⟨hok, hlooked⟩ := backwardLoop_ok s c limit (stored + inRange.length) stop (some m.time)
      exact JobGoes.move hw _ hok fun _ => hlooked
  · cases h

end MyPerson.MaxSync
