import MyPerson.MaxSync.System

/-!
# `MaxSync.Coverage` — which messages are stored or on their way

A chat may be marked as caught up when every message of it is stored or its frame is on its way, in the
order of the server (`Good`). Frames keep this up: whatever the server adds while the connection is up
comes as a frame, and frames of a chat are stored in their order. What a step adds to the tables and to
the histories is `Grows`; what it keeps of the coverage is `Keeps`.

## Contents
- `Stored`, `AfterBorn`, `Good`, `Live`;
- the tables after `storeMessage`;
- `Grows`, `Keeps`, and the steps of the server, the connection and the frames.
-/

namespace MyPerson.MaxSync

open Lib Repo MaxIngest

variable {cfg : Config} {s t : State} {c c' : Nat} {m x : Msg}

/-! ## Coverage -/

/-- The message is in the message store. -/
def Stored (s : State) (c : Nat) (id : Int) : Prop := (s.store.messages (c, id)).isSome = true

/-- Frames of a chat that are not stored yet. -/
def State.line (s : State) (c : Nat) : List Msg := s.queue c ++ s.stream c

/-- Not older than the first `newest_time_ms` of the chat. -/
def AfterBorn (s : State) (c : Nat) (time : Int) : Prop := ∀ b, s.born c = some b → b ≤ time

/-- Later than a message, if there is one. -/
def After (last : Option Msg) (time : Int) : Prop := ∀ l, last = some l → l.time < time

/-- The messages of a chat that `p` selects are stored or on their way: all of them while the connection
    is up, and in any case those before a frame that is on its way. -/
structure Good (s : State) (c : Nat) (p : Int → Prop) : Prop where
  ordered : ∀ f ∈ s.line c, ∀ m ∈ s.history c, p m.time → m.time ≤ f.time →
    Stored s c m.id ∨ m ∈ s.line c
  complete : s.conn = .up → ∀ m ∈ s.history c, p m.time → Stored s c m.id ∨ m ∈ s.line c

/-- Frames of the connection are taken in. -/
structure Live (s : State) : Prop where
  conn : s.conn ≠ .connecting
  identityOk : s.identityOk = true

/-- The frames of a chat are messages of it, in order. -/
structure LineOk (s : State) (c : Nat) : Prop where
  ascending : Ascending Msg.time (s.line c)
  subset : s.line c ⊆ s.history c

theorem Good.mono {p q : Int → Prop} (h : Good s c p) (hq : ∀ time, q time → p time) : Good s c q :=
  ⟨fun f hf m hm hqm hle => h.ordered f hf m hm (hq _ hqm) hle, fun hup m hm hqm =>
    h.complete hup m hm (hq _ hqm)⟩

/-- What is stored counts, whether selected or not. -/
theorem Good.widen {p q : Int → Prop} (h : Good s c p)
    (hq : ∀ m ∈ s.history c, q m.time → p m.time ∨ Stored s c m.id) : Good s c q := by
  constructor
  · intro f hf m hm hqm hle
    rcases hq m hm hqm with hp | hstored
    · exact h.ordered f hf m hm hp hle
    · exact Or.inl hstored
  · intro hup m hm hqm
    rcases hq m hm hqm with hp | hstored
    · exact h.complete hup m hm hp
    · exact Or.inl hstored

/-! ## The tables after a store -/

section

variable (s : State) (c : Nat) (m : Msg) (rest : Rest) (adv : Bool)

@[simp] theorem storeMessage_history : (s.storeMessage c m rest adv).history = s.history := by
  unfold State.storeMessage
  cases adv <;> rfl

@[simp] theorem storeMessage_conn : (s.storeMessage c m rest adv).conn = s.conn := by
  unfold State.storeMessage
  cases adv <;> rfl

@[simp] theorem storeMessage_gen : (s.storeMessage c m rest adv).gen = s.gen := by
  unfold State.storeMessage
  cases adv <;> rfl

@[simp] theorem storeMessage_identityOk : (s.storeMessage c m rest adv).identityOk = s.identityOk := by
  unfold State.storeMessage
  cases adv <;> rfl

@[simp] theorem storeMessage_stream : (s.storeMessage c m rest adv).stream = s.stream := by
  unfold State.storeMessage
  cases adv <;> rfl

@[simp] theorem storeMessage_queue : (s.storeMessage c m rest adv).queue = s.queue := by
  unfold State.storeMessage
  cases adv <;> rfl

@[simp] theorem storeMessage_decided : (s.storeMessage c m rest adv).decided = s.decided := by
  unfold State.storeMessage
  cases adv <;> rfl

@[simp] theorem storeMessage_caughtUp : (s.storeMessage c m rest adv).caughtUp = s.caughtUp := by
  unfold State.storeMessage
  cases adv <;> rfl

@[simp] theorem storeMessage_catchup : (s.storeMessage c m rest adv).catchup = s.catchup := by
  unfold State.storeMessage
  cases adv <;> rfl

@[simp] theorem storeMessage_backfills : (s.storeMessage c m rest adv).backfills = s.backfills := by
  unfold State.storeMessage
  cases adv <;> rfl

theorem storeMessage_store : (s.storeMessage c m rest adv).store
    = (s.storeMessage c m rest false).store := by
  cases adv <;> rfl

theorem stored_storeMessage (c' : Nat) (id : Int) :
    Stored (s.storeMessage c m rest adv) c' id ↔ Stored s c' id ∨ (c' = c ∧ id = m.id) := by
  unfold Stored
  rw [storeMessage_store]
  show (Function.update s.store.messages (c, m.id) (some _) (c', id)).isSome = true ↔ _
  by_cases hk : (c', id) = (c, m.id)
  · rw [hk, Function.update_self]
    cases hk
    simp
  · rw [Function.update_of_ne hk]
    have hne : ¬(c' = c ∧ id = m.id) := fun h => hk (by rw [h.1, h.2])
    simp [hne]

theorem advance_newest (row : Option Cursor) (mark : Mark) :
    (advance row mark).newest
      = match row.bind Cursor.newest with
        | none => some mark
        | some newest => if newest.time < mark.time then some mark else some newest := by
  cases row with
  | none => rfl
  | some cursor =>
      cases hn : cursor.newest with
      | none => simp [advance, hn]
      | some newest =>
          by_cases hlt : newest.time < mark.time <;> simp [advance, hn, hlt]

theorem storeMessage_newest_ne (h : c' ≠ c) : (s.storeMessage c m rest adv).newest c' = s.newest c' := by
  cases adv with
  | false => rfl
  | true =>
      show (Function.update s.cursors c _ c').bind Cursor.newest = _
      rw [Function.update_of_ne h]

theorem storeMessage_newest : (s.storeMessage c m rest true).newest c
    = match s.newest c with
      | none => some ⟨m.time, m.id⟩
      | some newest => if newest.time < m.time then some ⟨m.time, m.id⟩ else some newest := by
  show (Function.update s.cursors c _ c).bind Cursor.newest = _
  rw [Function.update_self]
  exact advance_newest ..

theorem storeMessage_born : (s.storeMessage c m rest true).born
    = if (s.newest c).isNone then Function.update s.born c (some m.time) else s.born := rfl

theorem storeMessage_chats : (s.storeMessage c m rest adv).store.chats
    = touchLastMessage (if (s.store.chats c).isNone then
        Function.update s.store.chats c (some ⟨rest.chatType, none, none⟩) else s.store.chats)
        c m.id (msToDt m.time) := by
  rw [storeMessage_store]
  rfl

end

theorem moveOldest_newest (row : Option Cursor) (mark : Mark) :
    (moveOldest row mark).newest = row.bind Cursor.newest := by
  cases row with
  | none => rfl
  | some cursor =>
      cases ho : cursor.oldest with
      | none => simp [moveOldest, ho]
      | some oldest => by_cases hlt : mark.time < oldest.time <;> simp [moveOldest, ho, hlt]

/-! ## What steps add -/

/-- Nothing stored is lost, cursors and last messages move forward, histories grow at their end. -/
structure Grows (s t : State) : Prop where
  history : ∀ c, ∃ new, t.history c = s.history c ++ new
  stored : ∀ c id, Stored s c id → Stored t c id
  newest : ∀ c n, s.newest c = some n → ∃ n', t.newest c = some n' ∧ n.time ≤ n'.time
  born : ∀ c b, s.born c = some b → t.born c = some b
  last : ∀ c chat i, s.store.chats c = some chat → chat.lastMessageExternalId = some i →
    ∃ chat' i', t.store.chats c = some chat' ∧ chat'.lastMessageExternalId = some i' ∧ i ≤ i'

theorem Grows.afterBorn (h : Grows s t) {time : Int} (hb : AfterBorn t c time) : AfterBorn s c time :=
  fun b hs => hb b (h.born c b hs)

theorem Grows.mem (h : Grows s t) (hm : m ∈ s.history c) : m ∈ t.history c := by
  obtain ⟨new, hnew⟩ := h.history c
  rw [hnew]
  exact List.mem_append_left _ hm

/-- New messages are later than old ones. -/
theorem Grows.mem_of_le (h : Grows s t) (hasc : Ascending Msg.time (t.history c)) (hx : x ∈ s.history c)
    (hm : m ∈ t.history c) (hle : m.time ≤ x.time) : m ∈ s.history c := by
  obtain ⟨new, hnew⟩ := h.history c
  rw [hnew] at hm hasc
  rcases List.mem_append.mp hm with hold | hlate
  · exact hold
  · exact absurd (hasc.lt_of_append hx hlate) (by omega)

/-- The tables are the same, or show the same. -/
theorem Grows.of_same (hhistory : t.history = s.history) (hmessages : t.store.messages = s.store.messages)
    (hnewest : ∀ c, t.newest c = s.newest c) (hborn : t.born = s.born)
    (hchats : t.store.chats = s.store.chats) : Grows s t := by
  refine ⟨fun c => ⟨[], by rw [hhistory, List.append_nil]⟩, fun c id h => ?_, fun c n h => ?_,
    fun c b h => by rwa [hborn], fun c chat i h hi => ⟨chat, i, by rwa [hchats], hi, Int.le_refl i⟩⟩
  · unfold Stored
    rwa [hmessages]
  · exact ⟨n, (hnewest c).trans h, Int.le_refl _⟩

theorem Grows.trans {u : State} (h₁ : Grows s t) (h₂ : Grows t u) : Grows s u := by
  constructor
  · intro c
    obtain ⟨new, hnew⟩ := h₁.history c
    obtain ⟨new', hnew'⟩ := h₂.history c
    exact ⟨new ++ new', by rw [hnew', hnew, List.append_assoc]⟩
  · exact fun c id h => h₂.stored c id (h₁.stored c id h)
  · intro c n h
    obtain ⟨n', hn', hle⟩ := h₁.newest c n h
    obtain ⟨n'', hn'', hle'⟩ := h₂.newest c n' hn'
    exact ⟨n'', hn'', by omega⟩
  · exact fun c b h => h₂.born c b (h₁.born c b h)
  · intro c chat i h hi
    obtain ⟨chat', i', h', hi', hle⟩ := h₁.last c chat i h hi
    obtain ⟨chat'', i'', h'', hi'', hle'⟩ := h₂.last c chat' i' h' hi'
    exact ⟨chat'', i'', h'', hi'', by omega⟩

/-- `touch_last_message` moves forward. -/
theorem touch_last (chats : Table Nat Chat) (c : Nat) (id : Int) (atTime : Time) {chat : Chat} {i : Int}
    (h : chats c' = some chat) (hi : chat.lastMessageExternalId = some i) :
    ∃ chat' i', touchLastMessage chats c id atTime c' = some chat' ∧
      chat'.lastMessageExternalId = some i' ∧ i ≤ i' := by
  unfold touchLastMessage
  rw [h]
  by_cases hmove : c' = c ∧ i ≤ id
  · refine ⟨_, id, rfl, ?_, hmove.2⟩
    simp [hi, hmove.1, hmove.2]
  · refine ⟨chat, i, ?_, hi, Int.le_refl i⟩
    have hnot : ¬(c' = c ∧ (chat.lastMessageExternalId.all fun last => last ≤ id) = true) := by
      rw [hi]
      simpa using hmove
    rw [Option.map_some, if_neg hnot]

/-- `store_message` adds to the tables. -/
theorem grows_storeMessage (s : State) (c : Nat) (m : Msg) (rest : Rest) (adv : Bool)
    (hborn : ∀ b, s.born c = some b → (s.newest c).isSome = true) :
    Grows s (s.storeMessage c m rest adv) := by
  constructor
  · exact fun c' => ⟨[], by simp⟩
  · exact fun c' id h => (stored_storeMessage ..).mpr (Or.inl h)
  · intro c' n hn
    by_cases hc : c' = c
    · subst hc
      cases adv with
      | false => exact ⟨n, hn, Int.le_refl _⟩
      | true =>
          rw [storeMessage_newest, hn]
          by_cases hlt : n.time < m.time
          · exact ⟨_, if_pos hlt, Int.le_of_lt hlt⟩
          · exact ⟨n, if_neg hlt, Int.le_refl _⟩
    · exact ⟨n, (storeMessage_newest_ne s c m rest adv hc).trans hn, Int.le_refl _⟩
  · intro c' b hb
    cases adv with
    | false => exact hb
    | true =>
        rw [storeMessage_born]
        by_cases hc : c' = c
        · subst hc
          have hsome := hborn b hb
          rw [Option.isSome_iff_exists] at hsome
          obtain ⟨n, hn⟩ := hsome
          simpa [hn] using hb
        · split
          · rwa [Function.update_of_ne hc]
          · exact hb
  · intro c' chat i hchat hi
    rw [storeMessage_chats]
    refine touch_last _ c m.id _ ?_ hi
    split
    · rename_i hnone
      have hne : c' ≠ c := by
        rintro rfl
        rw [hchat] at hnone
        cases hnone
      rwa [Function.update_of_ne hne]
    · exact hchat

/-- `upsert_chat` of a listed chat moves forward. -/
theorem upsertChat_last (chats : Table Nat Chat) (chatType : ChatType) (listed : Nat × Option Msg)
    {chat : Chat} {i : Int} (h : chats c = some chat) (hi : chat.lastMessageExternalId = some i) :
    ∃ chat' i', upsertChat chats chatType listed c = some chat' ∧ chat'.lastMessageExternalId = some i' ∧
      i ≤ i' := by
  unfold upsertChat
  by_cases hc : listed.1 = c
  · subst hc
    rw [h]
    cases hl : listed.2 with
    | none => exact ⟨chat, i, by simpa using h, hi, Int.le_refl i⟩
    | some l =>
        by_cases hlt : i < l.id
        · refine ⟨{ chat with lastMessageExternalId := some l.id, lastMessageAt := some (msToDt l.time) },
            l.id, ?_, rfl, Int.le_of_lt hlt⟩
          simp [hi, hlt]
        · refine ⟨chat, i, ?_, hi, Int.le_refl i⟩
          simpa [hi, hlt] using h
  · refine ⟨chat, i, ?_, hi, Int.le_refl i⟩
    cases chats listed.1 with
    | none =>
        show Function.update chats listed.1 _ c = some chat
        rwa [Function.update_of_ne (Ne.symm hc)]
    | some old =>
        dsimp only
        split
        · rwa [Function.update_of_ne (Ne.symm hc)]
        · exact h

/-- So does a whole page of them. -/
theorem upsertChats_last (chatType : ChatType) (page : List (Nat × Option Msg)) :
    ∀ (chats : Table Nat Chat) (chat : Chat) (i : Int), chats c = some chat →
      chat.lastMessageExternalId = some i →
      ∃ chat' i', page.foldl (fun chats listed => upsertChat chats chatType listed) chats c = some chat' ∧
        chat'.lastMessageExternalId = some i' ∧ i ≤ i' := by
  induction page with
  | nil => exact fun chats chat i h hi => ⟨chat, i, h, hi, Int.le_refl i⟩
  | cons listed page ih =>
      intro chats chat i h hi
      obtain ⟨chat', i', h', hi', hle⟩ := upsertChat_last chats chatType listed h hi
      obtain ⟨chat'', i'', h'', hi'', hle'⟩ := ih _ chat' i' h' hi'
      exact ⟨chat'', i'', h'', hi'', by omega⟩

/-! ## What steps keep -/

/-- A step that stays in the connection keeps coverage. -/
structure Keeps (s t : State) : Prop where
  grows : Grows s t
  live : Live s → t.gen = s.gen → Live t
  good : Live s → t.gen = s.gen → ∀ c p, Good s c p → Good t c p

/-- The lines, the connection and the histories are the same. -/
theorem Keeps.of_tables (hgrows : Grows s t) (hhistory : t.history = s.history)
    (hline : ∀ c, t.line c = s.line c) (hconn : t.conn = s.conn) (hid : t.identityOk = s.identityOk) :
    Keeps s t := by
  refine ⟨hgrows, fun hlive _ => ⟨by rw [hconn]; exact hlive.conn, by rw [hid]; exact hlive.identityOk⟩, ?_⟩
  intro _ _ c p hgood
  constructor
  · intro f hf m hm hp hle
    rw [hline] at hf ⊢
    rw [hhistory] at hm
    exact (hgood.ordered f hf m hm hp hle).imp_left (hgrows.stored c m.id)
  · intro hup m hm hp
    rw [hline]
    rw [hhistory] at hm
    exact (hgood.complete (hconn.symm.trans hup) m hm hp).imp_left (hgrows.stored c m.id)

/-- Every table, history and frame under way is as before. -/
structure SameTables (s t : State) : Prop where
  history : t.history = s.history
  store : t.store = s.store
  cursors : t.cursors = s.cursors
  born : t.born = s.born
  queue : t.queue = s.queue
  stream : t.stream = s.stream

theorem SameTables.grows (h : SameTables s t) : Grows s t :=
  Grows.of_same h.history (by rw [h.store]) (fun c => by simp [State.newest, h.cursors]) h.born (by rw [h.store])

theorem SameTables.keeps (h : SameTables s t) (hconn : t.conn = s.conn) (hid : t.identityOk = s.identityOk) :
    Keeps s t :=
  Keeps.of_tables h.grows h.history (fun c => by simp [State.line, h.queue, h.stream]) hconn hid

theorem keeps_storeMessage (s : State) (c : Nat) (m : Msg) (rest : Rest) (adv : Bool)
    (hborn : ∀ b, s.born c = some b → (s.newest c).isSome = true) :
    Keeps s (s.storeMessage c m rest adv) :=
  Keeps.of_tables (grows_storeMessage s c m rest adv hborn) (by simp) (fun c => by simp [State.line])
    (by simp) (by simp)

/-- A message of the server: over a connection its frame is on its way. -/
theorem keeps_grow (hline : ∀ c, LineOk s c) (hasc : ∀ c, Ascending Msg.time (t.history c))
    (hstep : liveStep cfg s (.grow c m) = some t) : Keeps s t := by
  obtain ⟨-, ht⟩ := Option.ite_none_right_eq_some.mp hstep
  cases ht
  have hgrows : Grows s { s with
      history := Function.update s.history c (s.history c ++ [m])
      stream := if s.conn = .up then Function.update s.stream c (s.stream c ++ [m]) else s.stream } := by
    refine ⟨fun c' => ?_, fun _ _ h => h, fun _ n h => ⟨n, h, Int.le_refl _⟩, fun _ _ h => h,
      fun _ chat i h hi => ⟨chat, i, h, hi, Int.le_refl i⟩⟩
    by_cases hc : c' = c
    · subst hc
      exact ⟨[m], Function.update_self ..⟩
    · exact ⟨[], by rw [List.append_nil]; exact Function.update_of_ne hc ..⟩
  refine ⟨hgrows, fun hlive _ => ⟨hlive.conn, hlive.identityOk⟩, ?_⟩
  intro _ _ c' p hgood
  by_cases hc : c' = c
  · subst hc
    by_cases hup : s.conn = .up
    · have hnewLine : State.line { s with
          history := Function.update s.history c' (s.history c' ++ [m])
          stream := if s.conn = .up then Function.update s.stream c' (s.stream c' ++ [m]) else s.stream } c'
          = s.line c' ++ [m] := by
        simp [State.line, hup]
      have hall : ∀ m' ∈ s.history c' ++ [m], p m'.time → Stored s c' m'.id ∨ m' ∈ s.line c' ++ [m] := by
        intro m' hm' hp
        rcases List.mem_append.mp hm' with hold | hnew
        · exact (hgood.complete hup m' hold hp).imp_right (List.mem_append_left _)
        · exact Or.inr (List.mem_append_right _ hnew)
      constructor
      · intro f _ m' hm' hp _
        rw [hnewLine]
        have hmem : m' ∈ Function.update s.history c' (s.history c' ++ [m]) c' := hm'
        rw [Function.update_self] at hmem
        exact hall m' hmem hp
      · intro _ m' hm' hp
        rw [hnewLine]
        have hmem : m' ∈ Function.update s.history c' (s.history c' ++ [m]) c' := hm'
        rw [Function.update_self] at hmem
        exact hall m' hmem hp
    · have hsameLine : State.line { s with
          history := Function.update s.history c' (s.history c' ++ [m])
          stream := if s.conn = .up then Function.update s.stream c' (s.stream c' ++ [m]) else s.stream } c'
          = s.line c' := by
        simp [State.line, hup]
      constructor
      · intro f hf m' hm' hp hle
        rw [hsameLine] at hf ⊢
        exact hgood.ordered f hf m'
          (hgrows.mem_of_le (hasc c') ((hline c').subset hf) hm' hle) hp hle
      · exact fun hup' => absurd hup' hup
  · have hsameLine : State.line { s with
        history := Function.update s.history c (s.history c ++ [m])
        stream := if s.conn = .up then Function.update s.stream c (s.stream c ++ [m]) else s.stream } c'
        = s.line c' := by
      by_cases hup : s.conn = .up <;> simp [State.line, hup, Function.update_of_ne hc]
    have hsame : Function.update s.history c (s.history c ++ [m]) c' = s.history c' :=
      Function.update_of_ne hc ..
    constructor
    · intro f hf m' hm' hp hle
      rw [hsameLine] at hf ⊢
      exact hgood.ordered f hf m' (hsame ▸ hm') hp hle
    · intro hup m' hm' hp
      rw [hsameLine]
      exact hgood.complete hup m' (hsame ▸ hm') hp

/-- Frames under way are lost; those before the ones that are left are not. -/
theorem keeps_drop (hline : ∀ c, LineOk s c) : Keeps s { s with conn := .down, stream := fun _ => [] } := by
  refine ⟨Grows.of_same rfl rfl (fun _ => rfl) rfl rfl, fun hlive _ => ⟨by simp, hlive.identityOk⟩, ?_⟩
  intro _ _ c p hgood
  have hqueue : State.line { s with conn := .down, stream := fun _ => [] } c = s.queue c := by
    simp [State.line]
  constructor
  · intro f hf m hm hp hle
    rw [hqueue] at hf ⊢
    rcases hgood.ordered f (List.mem_append_left _ hf) m hm hp hle with hstored | hwaits
    · exact Or.inl hstored
    · rcases List.mem_append.mp hwaits with hin | hout
      · exact Or.inr hin
      · have hlt := (hline c).ascending.lt_of_append hf hout
        exact absurd hle (by omega)
  · intro hup
    cases hup

/-- A frame that arrives over a live connection takes its place at the lock. -/
theorem keeps_arrive (hstep : liveStep cfg s (.arrive c) = some t) : Keeps s t := by
  simp only [liveStep] at hstep
  split at hstep
  · cases hstep
  · rename_i f rest hstream
    split at hstep
    · cases hstep
      refine Keeps.of_tables (Grows.of_same rfl rfl (fun _ => rfl) rfl rfl) rfl (fun c' => ?_) rfl rfl
      by_cases hc : c' = c
      · subst hc
        simp [State.line, hstream]
      · simp [State.line, Function.update_of_ne hc]
    · rename_i hclosed
      cases hstep
      exact ⟨Grows.of_same rfl rfl (fun _ => rfl) rfl rfl, fun hlive _ => absurd hlive.identityOk hclosed,
        fun hlive _ => absurd hlive.identityOk hclosed⟩

/-- The frame that leaves the line is stored. -/
theorem keeps_commit {rest : Rest} (hborn : ∀ b, s.born c = some b → (s.newest c).isSome = true)
    (hstep : liveStep cfg s (.commit c rest) = some t) : Keeps s t := by
  simp only [liveStep] at hstep
  split at hstep
  · rename_i f left adv hqueue hdecided
    cases hstep
    have hstore := keeps_storeMessage s c f rest adv hborn
    have hgrows : Grows s { s.storeMessage c f rest adv with
        queue := Function.update s.queue c left, decided := Function.update s.decided c none } :=
      hstore.grows.trans (Grows.of_same rfl rfl (fun _ => rfl) rfl rfl)
    have hself : Stored (s.storeMessage c f rest adv) c f.id := (stored_storeMessage ..).mpr (Or.inr ⟨rfl, rfl⟩)
    refine ⟨hgrows, fun hlive hgen => ?_, ?_⟩
    · have hkept := hstore.live hlive (by simp)
      exact ⟨hkept.conn, hkept.identityOk⟩
    · intro hlive hgen c' p hgood
      have hkept := hstore.good hlive (by simp) c' p hgood
      have hmid : (s.storeMessage c f rest adv).line c' = s.line c' := by simp [State.line]
      by_cases hc : c' = c
      · subst hc
        have hold : s.line c' = f :: State.line { s.storeMessage c' f rest adv with
            queue := Function.update s.queue c' left, decided := Function.update s.decided c' none } c' := by
          simp [State.line, hqueue]
        have hmove : ∀ m' : Msg, Stored (s.storeMessage c' f rest adv) c' m'.id ∨ m' ∈ s.line c' →
            Stored (s.storeMessage c' f rest adv) c' m'.id ∨ m' ∈ State.line { s.storeMessage c' f rest adv with
              queue := Function.update s.queue c' left, decided := Function.update s.decided c' none } c' := by
          intro m' hcase
          rcases hcase with hstored | hwaits
          · exact Or.inl hstored
          · rw [hold] at hwaits
            rcases List.mem_cons.mp hwaits with rfl | hwaits
            · exact Or.inl hself
            · exact Or.inr hwaits
        constructor
        · intro f' hf' m' hm' hp hle
          have hf'' : f' ∈ (s.storeMessage c' f rest adv).line c' := by
            rw [hmid, hold]
            exact List.mem_cons_of_mem _ hf'
          have hcase := hkept.ordered f' hf'' m' hm' hp hle
          rw [hmid] at hcase
          exact hmove m' hcase
        · intro hup m' hm' hp
          have hcase := hkept.complete hup m' hm' hp
          rw [hmid] at hcase
          exact hmove m' hcase
      · have hline : State.line { s.storeMessage c f rest adv with
            queue := Function.update s.queue c left, decided := Function.update s.decided c none } c'
            = (s.storeMessage c f rest adv).line c' := by
          simp [State.line, Function.update_of_ne hc]
        constructor
        · intro f' hf' m' hm' hp hle
          rw [hline] at hf' ⊢
          exact hkept.ordered f' hf' m' hm' hp hle
        · intro hup m' hm' hp
          rw [hline]
          exact hkept.complete hup m' hm' hp
  · cases hstep

end MyPerson.MaxSync
