import MyPerson.Telegram.Backfill

/-!
# `Telegram.Cursors` — what the cursors of a backfill enclose

A run reads one page of the history: below the oldest cursor or from the top (`ReadBack`), or above the
newest cursor. A page has no holes, so the stretch between the cursors grows by it without one, unless the
newest cursor jumps: in legacy mode to the chat's last message, over what was missed before it; in both
modes when a run from the top follows one that found the chat empty and called it fully synced.

## Contents
- `ReadBack`, the pages of a run;
- the cursors a run computes;
- `RowOk`, kept by a run below the oldest cursor, from the top, and forward;
- `meets`; `Sound`, its step and its run.
-/

namespace MyPerson.Telegram.Backfill

open Lib

variable {history stored stored' messages : List Nat} {row row' : SyncState} {s t : State} {id limit n o lo hi : Nat}

/-! ## Pages -/

/-- What a backward run reads below `offset`: messages of the chat, without a hole up to the offset. -/
structure ReadBack (history : List Nat) (offset : Option Nat) (limit : Nat) (messages : List Nat)
    (empty : Bool) : Prop where
  subset : ∀ id ∈ messages, id ∈ history ∧ ∀ o, offset = some o → id < o
  convex : ∀ x ∈ messages, ∀ id ∈ history, x ≤ id → (∀ o, offset = some o → id < o) → id ∈ messages
  all : empty = true → ∀ id ∈ history, (∀ o, offset = some o → id < o) → id ∈ messages
  page : offset = none → ∀ id, id ∈ messages ↔ id ∈ newestUpTo idOf history none limit

theorem mem_upTo_offset {offset : Option Nat} :
    id ∈ upTo idOf history (offset.map fun o => idOf o - 1) ↔
      id ∈ history ∧ ∀ o, offset = some o → id < o := by
  rw [mem_upTo]
  cases offset with
  | none => simp
  | some o =>
      simp only [Option.map_some, Option.some.injEq, forall_eq', idOf]
      constructor <;> rintro ⟨hid, hlt⟩ <;> exact ⟨hid, by omega⟩

theorem readBack_fetchBackward (hasc : Ascending idOf history) (offset : Option Nat) (limit : Nat) :
    ReadBack history offset limit (fetchBackward history limit offset).1.flatten
      (fetchBackward history limit offset).2 := by
  obtain ⟨hflat, hempty⟩ := readDown_spec hasc (by omega : 0 < 100) limit limit
    (offset.map fun o => idOf o - 1) (Nat.le_refl _)
  have hmem : ∀ id, id ∈ (fetchBackward history limit offset).1.flatten ↔
      id ∈ newestUpTo idOf history (offset.map fun o => idOf o - 1) limit := by
    intro id
    rw [← hflat]
    unfold fetchBackward
    simp only [List.mem_flatten, List.mem_map, List.mem_reverse]
    constructor
    · rintro ⟨_, ⟨page, hpage, rfl⟩, hid⟩
      exact ⟨page, hpage, List.mem_reverse.mp hid⟩
    · rintro ⟨page, hpage, hid⟩
      exact ⟨page.reverse, ⟨page, hpage, rfl⟩, List.mem_reverse.mpr hid⟩
  refine ⟨?subset, ?convex, ?all, ?page⟩
  case subset =>
    intro id hid
    exact mem_upTo_offset.mp (newestUpTo_subset ((hmem id).mp hid))
  case convex =>
    intro x hx id hid hle hlt
    rw [hmem] at hx ⊢
    exact mem_newestUpTo hasc hx (mem_upTo_offset.mpr ⟨hid, hlt⟩) (by simpa [idOf] using hle)
  case all =>
    intro he id hid hlt
    have hshort := hempty.mp he
    rw [hmem, newestUpTo, show ∀ k, k < limit → k - limit = 0 from fun k hk => by omega, List.drop_zero]
    · exact mem_upTo_offset.mpr ⟨hid, hlt⟩
    · exact hshort
  case page =>
    intro hnone id
    rw [hmem, hnone]
    rfl

theorem mem_fetchForward (hasc : Ascending idOf history) (limit minId : Nat) :
    (fetchForward history limit minId).flatten = oldestFrom idOf history (idOf minId + 1) limit :=
  readUp_spec hasc (by omega) limit limit _ (Nat.le_refl _)

/-! ## The cursors of a run -/

theorem orNone_of_pos (h : 0 < n) : orNone n = some n := by
  unfold orNone
  rw [if_neg (by omega)]

theorem orNone_eq_some (h : orNone n = some o) : n = o := by
  unfold orNone at h
  split at h
  · cases h
  · exact Option.some.inj h

/-- A fold that keeps one of two ids ends with the first one or with one of the list. -/
theorem foldl_pick_mem {f : Nat → Nat → Nat} (hf : ∀ a b, f a b = a ∨ f a b = b) (ids : List Nat) (a : Nat) :
    ids.foldl f a = a ∨ ids.foldl f a ∈ ids := by
  induction ids generalizing a with
  | nil => exact Or.inl rfl
  | cons id ids ih =>
      rw [List.foldl_cons, List.mem_cons]
      rcases ih (f a id) with heq | hmem
      · rw [heq]
        exact (hf a id).imp_right Or.inl
      · exact Or.inr (Or.inr hmem)

theorem foldl_oldestSeen_mem (ids : List Nat) (a : Nat) : ids.foldl oldestSeen a = a ∨ ids.foldl oldestSeen a ∈ ids := by
  apply foldl_pick_mem
  intro a b
  unfold oldestSeen
  split
  · exact Or.inr rfl
  · exact Or.inl rfl

theorem foldl_newestSeen_mem (ids : List Nat) (a : Nat) : ids.foldl newestSeen a = a ∨ ids.foldl newestSeen a ∈ ids := by
  apply foldl_pick_mem
  intro a b
  unfold newestSeen
  split
  · exact Or.inr rfl
  · exact Or.inl rfl

theorem foldl_newestSeen_ge (ids : List Nat) (a : Nat) : a ≤ ids.foldl newestSeen a := by
  induction ids generalizing a with
  | nil => exact Nat.le_refl a
  | cons id ids ih =>
      have hstep : a ≤ newestSeen a id := by
        unfold newestSeen
        split <;> omega
      exact Nat.le_trans hstep (ih _)

theorem lowest_mem {oldest : Option Nat} {ids : List Nat} (h : lowest oldest ids = some o) :
    oldest = some o ∨ o ∈ ids := by
  have hmem := (List.mem_filter.mp (List.min?_mem h)).1
  rcases List.mem_append.mp hmem with hold | hid
  · exact Or.inl (Option.mem_toList.mp hold)
  · exact Or.inr hid

theorem highest_mem {newest : Option Nat} {ids : List Nat} (h : highest newest ids = some n) :
    newest = some n ∨ n ∈ ids := by
  have hmem := (List.mem_filter.mp (List.max?_mem h)).1
  rcases List.mem_append.mp hmem with hold | hid
  · exact Or.inl (Option.mem_toList.mp hold)
  · exact Or.inr hid

theorem highest_ge {newest : Option Nat} {ids : List Nat} (hid : newest = some id ∨ id ∈ ids) (hpos : 0 < id) :
    ∃ n, highest newest ids = some n ∧ id ≤ n := by
  have hmem : id ∈ (newest.toList ++ ids).filter (· ≠ 0) := by
    rw [List.mem_filter, List.mem_append, Option.mem_toList]
    exact ⟨hid, by simpa using by omega⟩
  obtain ⟨n, hn⟩ := Option.isSome_iff_exists.mp (List.isSome_max?_of_mem hmem)
  exact ⟨n, hn, (List.max?_eq_some_iff.mp hn).2 id hmem⟩

/-- A cursor that each batch leaves or moves to one of its ids ends where it was or at one of them all. -/
theorem foldl_batches_mem {f : Option Nat → List Nat → Option Nat}
    (hf : ∀ {a : Option Nat} {ids : List Nat} {o : Nat}, f a ids = some o → a = some o ∨ o ∈ ids)
    (batches : List (List Nat)) :
    ∀ {a : Option Nat}, batches.foldl f a = some o → a = some o ∨ o ∈ batches.flatten := by
  induction batches with
  | nil => exact fun h => Or.inl h
  | cons batch batches ih =>
      intro a h
      rw [List.flatten_cons, List.mem_append]
      rcases ih h with hthis | hmem
      · exact (hf hthis).imp_right Or.inl
      · exact Or.inr (Or.inr hmem)

theorem foldl_highest_ge (batches : List (List Nat)) :
    ∀ {newest : Option Nat} {id : Nat}, newest = some id ∨ id ∈ batches.flatten → 0 < id →
      ∃ n, batches.foldl highest newest = some n ∧ id ≤ n := by
  induction batches with
  | nil =>
      intro newest id hid _
      rcases hid with hnew | hmem
      · exact ⟨id, hnew, Nat.le_refl _⟩
      · cases hmem
  | cons batch batches ih =>
      intro newest id hid hpos
      rw [List.foldl_cons]
      rw [List.flatten_cons, List.mem_append] at hid
      have hsplit : (newest = some id ∨ id ∈ batch) ∨ id ∈ batches.flatten := by tauto
      rcases hsplit with hhere | hlater
      · obtain ⟨n, hn, hle⟩ := highest_ge hhere hpos
        obtain ⟨n', hn', hle'⟩ := ih (Or.inl hn) (by omega)
        exact ⟨n', hn', by omega⟩
      · exact ih (Or.inr hlater) hpos

/-! ## Rows -/

/-- Every message from `lo` to `hi` is stored. -/
def Covered (history stored : List Nat) (lo hi : Nat) : Prop :=
  ∀ id ∈ history, lo ≤ id → id ≤ hi → id ∈ stored

theorem Covered.mono (h : Covered history stored lo hi) (hsub : stored ⊆ stored') : Covered history stored' lo hi :=
  fun id hid hlo hhi => hsub (h id hid hlo hhi)

structure RowOk (history stored : List Nat) (row : SyncState) : Prop where
  newest_mem : ∀ n, row.newest = some n → n ∈ history
  enclosed : ∀ o, row.oldest = some o →
    0 < o ∧ ∃ n, row.newest = some n ∧ o ≤ n ∧ Covered history stored o n
  fully : row.fullySynced = true → Covered history stored 0 (row.newest.getD 0)

/-- A run below the oldest cursor. The newest one may only move over what is stored. -/
theorem RowOk.backward_below {empty : Bool} (h : RowOk history stored row) (hpos : ∀ id ∈ history, 0 < id)
    (ho : row.oldest = some o) (hn : row.newest = some n) (hread : ReadBack history (some o) limit messages empty)
    (hsub : stored ⊆ stored') (hmessages : messages ⊆ stored')
    (holdest : ∀ o', row'.oldest = some o' → some o = some o' ∨ o' ∈ messages)
    (hnewest : ∃ n', row'.newest = some n' ∧ n' ∈ history ∧ n ≤ n' ∧ Covered history stored (n + 1) n')
    (hfully : row'.fullySynced = (empty || row.fullySynced)) : RowOk history stored' row' := by
  obtain ⟨hopos, n₁, hn₁, hon, hcover⟩ := h.enclosed o ho
  obtain rfl : n = n₁ := Option.some.inj (hn.symm.trans hn₁)
  obtain ⟨n', hn', hn'mem, hnn', hjump⟩ := hnewest
  -- from the old oldest cursor to the new newest one
  have hcover' : Covered history stored' o n' := by
    intro id hid hlo hhi
    by_cases hle : id ≤ n
    · exact hsub (hcover id hid hlo hle)
    · exact hsub (hjump id hid (by omega) hhi)
  refine ⟨?newest_mem, ?enclosed, ?fully⟩
  case newest_mem =>
    intro n'' hn''
    rw [hn'] at hn''
    exact Option.some.inj hn'' ▸ hn'mem
  case enclosed =>
    intro o' ho'
    rcases holdest o' ho' with heq | hmem
    · obtain rfl : o = o' := Option.some.inj heq
      exact ⟨hopos, n', hn', by omega, hcover'⟩
    · obtain ⟨ho'mem, hlt⟩ := hread.subset o' hmem
      have hlt := hlt o rfl
      refine ⟨hpos o' ho'mem, n', hn', by omega, fun id hid hlo hhi => ?_⟩
      by_cases hbelow : id < o
      · exact hmessages (hread.convex o' hmem id hid hlo fun _ he => Option.some.inj he ▸ hbelow)
      · exact hcover' id hid (by omega) hhi
  case fully =>
    intro hf id hid _ hhi
    rw [hn', Option.getD_some] at hhi
    rw [hfully, Bool.or_eq_true] at hf
    by_cases hbelow : id < o
    · rcases hf with hempty | hf
      · exact hmessages (hread.all hempty id hid fun _ he => Option.some.inj he ▸ hbelow)
      · refine hsub (h.fully hf id hid (Nat.zero_le _) ?_)
        rw [hn, Option.getD_some]
        omega
    · exact hcover' id hid (by omega) hhi

/-- A run from the top of the chat. -/
theorem RowOk.backward_top {empty : Bool} (row : SyncState) (hpos : ∀ id ∈ history, 0 < id)
    (hread : ReadBack history none limit messages empty) (hmessages : messages ⊆ stored')
    (holdest : ∀ o', row'.oldest = some o' → o' ∈ messages)
    (hnewest_mem : ∀ n', row'.newest = some n' → n' ∈ history)
    (hnewest : ∀ id ∈ messages, ∃ n', row'.newest = some n' ∧ id ≤ n')
    (hfully : row'.fullySynced = (empty || row.fullySynced))
    (hkept : row.fullySynced = true → Covered history stored' 0 (row'.newest.getD 0)) :
    RowOk history stored' row' := by
  refine ⟨hnewest_mem, ?enclosed, ?fully⟩
  case enclosed =>
    intro o' ho'
    have hmem := holdest o' ho'
    obtain ⟨n', hn', hle⟩ := hnewest o' hmem
    refine ⟨hpos o' (hread.subset o' hmem).1, n', hn', hle, fun id hid hlo _ => ?_⟩
    exact hmessages (hread.convex o' hmem id hid hlo fun _ he => nomatch he)
  case fully =>
    intro hf
    rw [hfully, Bool.or_eq_true] at hf
    rcases hf with hempty | hf
    · exact fun id hid _ _ => hmessages (hread.all hempty id hid fun _ he => nomatch he)
    · exact hkept hf

/-- A run above the newest cursor. -/
theorem RowOk.forward (h : RowOk history stored row) (hasc : Ascending idOf history)
    (hpos : ∀ id ∈ history, 0 < id)
    (hmessages : messages = oldestFrom idOf history (idOf (row.newest.getD 0) + 1) limit)
    (hsub : stored ⊆ stored') (hstored : messages ⊆ stored') (holdest : row'.oldest = row.oldest)
    (hfully : row'.fullySynced = row.fullySynced)
    (hnewest : ∀ n', row'.newest = some n' → row.newest = some n' ∨ n' ∈ messages)
    (hgrows : ∀ n, row.newest = some n → ∃ n', row'.newest = some n' ∧ n ≤ n') :
    RowOk history stored' row' := by
  -- all up to the new newest cursor is below the old one, or on the page
  have hgrow : ∀ lo, Covered history stored lo (row.newest.getD 0) →
      Covered history stored' lo (row'.newest.getD 0) := by
    intro lo hcover id hid hlo hhi
    by_cases hle : id ≤ row.newest.getD 0
    · exact hsub (hcover id hid hlo hle)
    · cases hn' : row'.newest with
      | none =>
          have := hpos id hid
          rw [hn', Option.getD_none] at hhi
          omega
      | some n' =>
          rw [hn', Option.getD_some] at hhi
          rcases hnewest n' hn' with hold | hmem
          · rw [hold, Option.getD_some] at hle
            omega
          · rw [hmessages] at hmem hstored
            exact hstored (mem_oldestFrom hasc hmem hid (by simp only [idOf]; omega) (by simpa [idOf] using hhi))
  refine ⟨?newest_mem, ?enclosed, ?fully⟩
  case newest_mem =>
    intro n' hn'
    rcases hnewest n' hn' with hold | hmem
    · exact h.newest_mem n' hold
    · rw [hmessages] at hmem
      exact (mem_oldestFrom_le hmem).1
  case enclosed =>
    intro o ho
    rw [holdest] at ho
    obtain ⟨hopos, n, hn, hon, hcover⟩ := h.enclosed o ho
    obtain ⟨n', hn', hle⟩ := hgrows n hn
    have hup := hgrow o (by rwa [hn])
    rw [hn'] at hup
    exact ⟨hopos, n', hn', by omega, hup⟩
  case fully =>
    intro hf
    rw [hfully] at hf
    exact hgrow 0 (h.fully hf)

/-! ## Stored messages -/

@[simp] theorem foldl_upsertMessage_history (ids : List Nat) (s : State) :
    (ids.foldl upsertMessage s).history = s.history := by
  induction ids generalizing s with
  | nil => rfl
  | cons id ids ih => exact ih (upsertMessage s id)

@[simp] theorem foldl_upsertMessage_newMode (ids : List Nat) (s : State) :
    (ids.foldl upsertMessage s).newMode = s.newMode := by
  induction ids generalizing s with
  | nil => rfl
  | cons id ids ih => exact ih (upsertMessage s id)

theorem mem_foldl_upsertMessage (ids : List Nat) (s : State) :
    id ∈ (ids.foldl upsertMessage s).stored ↔ id ∈ ids ∨ id ∈ s.stored := by
  induction ids generalizing s with
  | nil => simp
  | cons first ids ih =>
      rw [List.foldl_cons, ih, List.mem_cons]
      simp only [upsertMessage, List.mem_cons]
      tauto

/-- The chat's last message stays or is one of the new ones. -/
theorem lastMessage_foldl_mem (ids : List Nat) (s : State) :
    (ids.foldl upsertMessage s).lastMessage = s.lastMessage ∨
      ∃ l ∈ ids, (ids.foldl upsertMessage s).lastMessage = some l := by
  induction ids generalizing s with
  | nil => exact Or.inl rfl
  | cons id ids ih =>
      rw [List.foldl_cons]
      rcases ih (upsertMessage s id) with heq | ⟨l, hl, hlast⟩
      · rw [heq]
        unfold upsertMessage
        dsimp only
        split
        · exact Or.inr ⟨id, List.mem_cons_self .., rfl⟩
        · exact Or.inl rfl
      · exact Or.inr ⟨l, List.mem_cons_of_mem _ hl, hlast⟩

/-- In legacy mode the chat's last message is at or after each stored one. -/
theorem lastMessage_foldl_ge (ids : List Nat) :
    ∀ {s : State} {id : Nat}, s.newMode = false → id ∈ ids ∨ s.lastMessage = some id →
      ∃ l, (ids.foldl upsertMessage s).lastMessage = some l ∧ id ≤ l := by
  induction ids with
  | nil =>
      intro s id _ hid
      rcases hid with hmem | hlast
      · cases hmem
      · exact ⟨id, hlast, Nat.le_refl _⟩
  | cons first ids ih =>
      intro s id hmode hid
      rw [List.foldl_cons]
      have hfirst : ∃ l, (upsertMessage s first).lastMessage = some l ∧ first ≤ l ∧
          ∀ old, s.lastMessage = some old → old ≤ l := by
        unfold upsertMessage
        cases hlast : s.lastMessage with
        | none => exact ⟨first, by simp [hmode], Nat.le_refl _, fun old hold => nomatch hold⟩
        | some old =>
            by_cases hle : old ≤ first
            · exact ⟨first, by simp [hmode, hle], Nat.le_refl _, fun _ he => Option.some.inj he ▸ hle⟩
            · exact ⟨old, by simp [hle], by omega, fun _ he => Option.some.inj he ▸ Nat.le_refl _⟩
      obtain ⟨l, hl, hge, hold⟩ := hfirst
      obtain ⟨l', hl', hle'⟩ := @ih (upsertMessage s first) l hmode (Or.inr hl)
      rcases hid with hmem | hlast
      · rcases List.mem_cons.mp hmem with rfl | hmem
        · exact ⟨l', hl', by omega⟩
        · exact @ih (upsertMessage s first) id hmode (Or.inl hmem)
      · have := hold id hlast
        exact ⟨l', hl', by omega⟩

/-! ## Every state of a run -/

/-- What lies above the newest cursor up to the chat's last message is stored. -/
def LastFollows (s : State) : Prop :=
  ∀ id ∈ s.history, s.row.newest.getD 0 < id → id ≤ s.lastMessage.getD 0 → id ∈ s.stored

/-- What is not stored is among the newest `limit` messages. -/
def ReachesDown (s : State) (limit : Nat) : Prop :=
  ∀ id ∈ s.history, id ∈ s.stored ∨ id ∈ newestUpTo idOf s.history none limit

instance (s : State) : Decidable (LastFollows s) :=
  inferInstanceAs (Decidable (∀ id ∈ s.history, _ → _ → _))

instance (s : State) (limit : Nat) : Decidable (ReachesDown s limit) :=
  inferInstanceAs (Decidable (∀ id ∈ s.history, _ ∨ _))

/-- The backward runs that keep the cursors right. In legacy mode the newest cursor follows the chat's last
    message, so all before that one has to be there; in a chat that was called fully synced when it was
    empty, a run from the top has to reach down to what is stored. -/
def meets (s : State) : Op → Prop
  | .backward limit =>
      (s.newMode = false → s.row.oldest.isSome = true ∨ (s.row.fullySynced = true ∧ limit = 0) → LastFollows s) ∧
        (s.row.fullySynced = true → s.row.oldest = none → 0 < limit → ReachesDown s limit)
  | _ => True

instance (s : State) (op : Op) : Decidable (meets s op) :=
  match op with
  | .post _ => isTrue trivial
  | .event _ => isTrue trivial
  | .forward _ => isTrue trivial
  | .backward _ => inferInstanceAs (Decidable ((_ → _ → _) ∧ (_ → _ → _ → _)))

structure Sound (s : State) : Prop where
  asc : Ascending idOf s.history
  pos : ∀ id ∈ s.history, 0 < id
  last_mem : ∀ l, s.lastMessage = some l → l ∈ s.history
  row : RowOk s.history s.stored s.row

theorem sound_initial (newMode : Bool) : Sound (initial newMode) := by
  refine ⟨List.Pairwise.nil, ?_, ?_, ?_, ?_, ?_⟩
  · intro id hid
    cases hid
  · intro l hl
    cases hl
  · intro n hn
    cases hn
  · intro o ho
    cases ho
  · intro hf
    cases hf

theorem Sound.last_foldl (h : Sound s) {ids : List Nat} (hids : ids ⊆ s.history) {l : Nat}
    (hl : (ids.foldl upsertMessage s).lastMessage = some l) : l ∈ s.history := by
  rcases lastMessage_foldl_mem ids s with heq | ⟨l', hl', hlast⟩
  · exact h.last_mem l (heq.symm.trans hl)
  · obtain rfl : l' = l := Option.some.inj (hlast.symm.trans hl)
    exact hids hl'

/-- Messages of the chat are stored and the row is moved. -/
theorem Sound.store {ids : List Nat} (h : Sound s) (hids : ids ⊆ s.history)
    (hrow : RowOk s.history (ids.foldl upsertMessage s).stored row') :
    Sound { ids.foldl upsertMessage s with syncState := some row' } := by
  refine ⟨?asc, ?pos, ?last_mem, ?row⟩
  case asc => simpa using h.asc
  case pos => simpa using h.pos
  case last_mem =>
    intro l hl
    rw [foldl_upsertMessage_history]
    exact h.last_foldl hids hl
  case row =>
    rw [foldl_upsertMessage_history]
    exact hrow

theorem subset_foldl_upsertMessage (ids : List Nat) (s : State) :
    s.stored ⊆ (ids.foldl upsertMessage s).stored :=
  fun _ hid => (mem_foldl_upsertMessage ids s).mpr (Or.inr hid)

theorem mem_stored_of_mem (ids : List Nat) (s : State) : ids ⊆ (ids.foldl upsertMessage s).stored :=
  fun _ hid => (mem_foldl_upsertMessage ids s).mpr (Or.inl hid)

theorem fetchBackward_zero (history : List Nat) (offset : Option Nat) : (fetchBackward history 0 offset).1 = [] := rfl

theorem Sound.backward_new (h : Sound s) (hok : meets s (.backward limit)) :
    Sound (runBackfillNewBackward s limit) := by
  have hoffset : s.row.oldest.bind orNone = s.row.oldest := by
    cases ho : s.row.oldest with
    | none => rfl
    | some o => exact orNone_of_pos (h.row.enclosed o ho).1
  unfold runBackfillNewBackward
  rw [hoffset]
  have hread := readBack_fetchBackward h.asc s.row.oldest limit
  have hzero : limit = 0 → (fetchBackward s.history limit s.row.oldest).1 = [] := by
    rintro rfl
    exact fetchBackward_zero ..
  generalize fetchBackward s.history limit s.row.oldest = fetched at hread hzero ⊢
  have hids : fetched.1.flatten ⊆ s.history := fun id hid => (hread.subset id hid).1
  have holdest : ∀ o', fetched.1.foldl lowest s.row.oldest = some o' →
      s.row.oldest = some o' ∨ o' ∈ fetched.1.flatten := fun o' => foldl_batches_mem lowest_mem fetched.1
  have hhighest : ∀ n', fetched.1.foldl highest s.row.newest = some n' →
      s.row.newest = some n' ∨ n' ∈ fetched.1.flatten := fun n' => foldl_batches_mem highest_mem fetched.1
  apply h.store hids
  cases ho : s.row.oldest with
  | some o =>
      rw [ho] at hread holdest
      obtain ⟨hopos, n, hn, hon, -⟩ := h.row.enclosed o ho
      refine h.row.backward_below h.pos ho hn hread (subset_foldl_upsertMessage ..) (mem_stored_of_mem ..)
        holdest ⟨n, ?_, h.row.newest_mem n hn, Nat.le_refl _, fun id _ hlo hhi => by omega⟩ rfl
      -- what was read lies below the oldest cursor, so the newest one stays
      obtain ⟨n', hn', hle⟩ := foldl_highest_ge fetched.1 (Or.inl hn) (by omega)
      rcases hhighest n' hn' with hold | hmem
      · exact hn'.trans (hold.symm.trans hn)
      · have := (hread.subset n' hmem).2 o rfl
        omega
  | none =>
      rw [ho] at hread holdest
      refine RowOk.backward_top s.row h.pos hread (mem_stored_of_mem ..) ?_ ?_ ?_ rfl ?_
      · intro o' ho'
        rcases holdest o' ho' with hnone | hmem
        · cases hnone
        · exact hmem
      · intro n' hn'
        rcases hhighest n' hn' with hold | hmem
        · exact h.row.newest_mem n' hold
        · exact hids hmem
      · exact fun id hid => foldl_highest_ge fetched.1 (Or.inr hid) (h.pos id (hids hid))
      · intro hf
        by_cases hlimit : limit = 0
        · subst hlimit
          rw [hzero rfl]
          exact h.row.fully hf
        · -- everything is stored now
          intro id hid _ _
          rcases hok.2 hf ho (by omega) id hid with hold | hpage
          · exact subset_foldl_upsertMessage _ _ hold
          · exact mem_stored_of_mem _ _ ((hread.page rfl id).mpr hpage)

/-- The oldest cursor of a legacy run. -/
theorem legacy_oldest
    (ho : (orNone (messages.foldl oldestSeen (row.oldest.getD 0))).or row.oldest = some o) :
    row.oldest = some o ∨ o ∈ messages := by
  rcases Option.or_eq_some_iff.mp ho with hseen | ⟨-, hkept⟩
  · have heq := orNone_eq_some hseen
    rcases foldl_oldestSeen_mem messages (row.oldest.getD 0) with hold | hmem
    · cases hrow : row.oldest with
      | none =>
          rw [hrow, Option.getD_none] at hold
          rw [hrow, Option.getD_none, hold] at hseen
          cases hseen
      | some old =>
          rw [hrow, Option.getD_some] at hold heq
          exact Or.inl (by rw [← heq, hold])
    · exact Or.inr (heq ▸ hmem)
  · exact Or.inl hkept

/-- The newest cursor of a legacy backward run stays, or is the chat's last message that lies above it. -/
theorem legacy_newest {newest last result : Option Nat}
    (hresult : result = if newest = none ∨ last.any (newest.getD 0 < ·) then last else newest)
    (hpos : ∀ l, last = some l → 0 < l) :
    result = newest ∨ ∃ l, last = some l ∧ newest.getD 0 < l ∧ result = some l := by
  subst hresult
  by_cases hmove : newest = none ∨ last.any (newest.getD 0 < ·)
  · rw [if_pos hmove]
    cases hlast : last with
    | none =>
        rcases hmove with hnone | hany
        · exact Or.inl hnone.symm
        · rw [hlast] at hany
          cases hany
    | some l =>
        refine Or.inr ⟨l, rfl, ?_, rfl⟩
        rcases hmove with hnone | hany
        · rw [hnone]
          exact hpos l hlast
        · simpa [hlast] using hany
  · rw [if_neg hmove]
    exact Or.inl rfl

/-- The newest cursor of a legacy backward run is at or after the chat's last message. -/
theorem legacy_newest_ge (newest : Option Nat) {last : Option Nat} {l : Nat} (hl : last = some l) :
    ∃ n, (if newest = none ∨ last.any (newest.getD 0 < ·) then last else newest) = some n ∧ l ≤ n := by
  subst hl
  cases newest with
  | none => exact ⟨l, by simp, Nat.le_refl _⟩
  | some n =>
      by_cases hlt : n < l
      · exact ⟨l, by simp [hlt], Nat.le_refl _⟩
      · exact ⟨n, by simp [hlt], by omega⟩

theorem Sound.backward_legacy (h : Sound s) (hmode : s.newMode = false) (hok : meets s (.backward limit)) :
    Sound (runBackwardFill s limit) := by
  have hoffset : orNone (s.row.oldest.getD 0) = s.row.oldest := by
    cases ho : s.row.oldest with
    | none => rfl
    | some o => exact orNone_of_pos (h.row.enclosed o ho).1
  have hread := readBack_fetchBackward h.asc s.row.oldest limit
  have hzero : limit = 0 → (fetchBackward s.history limit s.row.oldest).1 = [] := by
    rintro rfl
    exact fetchBackward_zero ..
  have holdest : ∀ o', (orNone ((fetchBackward s.history limit s.row.oldest).1.flatten.foldl oldestSeen
      (s.row.oldest.getD 0))).or s.row.oldest = some o' → s.row.oldest = some o' ∨
        o' ∈ (fetchBackward s.history limit s.row.oldest).1.flatten :=
    fun o' => legacy_oldest
  unfold runBackwardFill
  dsimp only
  rw [hoffset]
  generalize fetchBackward s.history limit s.row.oldest = fetched at hread hzero holdest ⊢
  have hids : fetched.1.flatten ⊆ s.history := fun id hid => (hread.subset id hid).1
  have hlastPos : ∀ l, (fetched.1.flatten.foldl upsertMessage s).lastMessage = some l → 0 < l :=
    fun l hl => h.pos l (h.last_foldl hids hl)
  apply h.store hids
  cases ho : s.row.oldest with
  | some o =>
      rw [ho] at hread holdest
      obtain ⟨hopos, n, hn, hon, -⟩ := h.row.enclosed o ho
      refine h.row.backward_below h.pos ho hn hread (subset_foldl_upsertMessage ..) (mem_stored_of_mem ..)
        holdest ?_ rfl
      rcases legacy_newest rfl hlastPos with hkept | ⟨l, hl, hlt, hmoved⟩
      · exact ⟨n, hkept.trans hn, h.row.newest_mem n hn, Nat.le_refl _, fun id _ hlo hhi => by omega⟩
      · rw [hn, Option.getD_some] at hlt
        refine ⟨l, hmoved, h.last_foldl hids hl, by omega, fun id hid hlo hhi => ?_⟩
        -- what was read lies below the oldest cursor, so the chat's last message is the one before the run
        have hlast : s.lastMessage = some l := by
          rcases lastMessage_foldl_mem fetched.1.flatten s with heq | ⟨l', hl', hlast'⟩
          · exact heq.symm.trans hl
          · obtain rfl : l' = l := Option.some.inj (hlast'.symm.trans hl)
            have := (hread.subset l' hl').2 o rfl
            omega
        have hfollows := hok.1 hmode (Or.inl (by rw [ho]; rfl))
        exact hfollows id hid (by rw [hn, Option.getD_some]; omega) (by rw [hlast, Option.getD_some]; exact hhi)
  | none =>
      rw [ho] at hread holdest
      refine RowOk.backward_top s.row h.pos hread (mem_stored_of_mem ..) ?_ ?_ ?_ rfl ?_
      · intro o' ho'
        rcases holdest o' ho' with hnone | hmem
        · cases hnone
        · exact hmem
      · intro n' hn'
        rcases legacy_newest rfl hlastPos with hkept | ⟨l, hl, -, hmoved⟩
        · exact h.row.newest_mem n' (hkept.symm.trans hn')
        · obtain rfl : l = n' := Option.some.inj (hmoved.symm.trans hn')
          exact h.last_foldl hids hl
      · intro id hid
        obtain ⟨l, hl, hle⟩ := lastMessage_foldl_ge fetched.1.flatten hmode (Or.inl hid)
        obtain ⟨n', hn', hle'⟩ := legacy_newest_ge s.row.newest hl
        exact ⟨n', hn', by omega⟩
      · intro hf
        by_cases hlimit : limit = 0
        · have hfollows := hok.1 hmode (Or.inr ⟨hf, hlimit⟩)
          have hcover := h.row.fully hf
          rw [hzero hlimit] at hlastPos ⊢
          intro id hid hlo hhi
          by_cases hle : id ≤ s.row.newest.getD 0
          · exact hcover id hid hlo hle
          · rcases legacy_newest rfl hlastPos with hkept | ⟨l, hl, -, hmoved⟩
            · rw [hkept] at hhi
              exact absurd hhi hle
            · rw [hmoved, Option.getD_some] at hhi
              have hlast : s.lastMessage = some l := hl
              exact hfollows id hid (by omega) (by rw [hlast, Option.getD_some]; exact hhi)
        · -- everything is stored now
          intro id hid _ _
          rcases hok.2 hf ho (by omega) id hid with hold | hpage
          · exact subset_foldl_upsertMessage _ _ hold
          · exact mem_stored_of_mem _ _ ((hread.page rfl id).mpr hpage)

theorem Sound.forward (h : Sound s) (limit : Nat) :
    Sound (if s.newMode then runBackfillNewForward s limit else runForwardFill s limit) := by
  have hflat := mem_fetchForward h.asc limit (s.row.newest.getD 0)
  have hids : (fetchForward s.history limit (s.row.newest.getD 0)).flatten ⊆ s.history := by
    intro id hid
    rw [hflat] at hid
    exact (mem_oldestFrom_le hid).1
  by_cases hmode : s.newMode = true
  · rw [if_pos hmode]
    unfold runBackfillNewForward
    generalize fetchForward s.history limit (s.row.newest.getD 0) = batches at hflat hids ⊢
    refine h.store hids (h.row.forward h.asc h.pos hflat (subset_foldl_upsertMessage ..) (mem_stored_of_mem ..)
      rfl rfl (fun n' => foldl_batches_mem highest_mem batches) fun n hn => ?_)
    exact foldl_highest_ge batches (Or.inl hn) (h.pos n (h.row.newest_mem n hn))
  · rw [if_neg hmode]
    unfold runForwardFill
    dsimp only
    generalize fetchForward s.history limit (s.row.newest.getD 0) = batches at hflat hids ⊢
    have hge := foldl_newestSeen_ge batches.flatten (s.row.newest.getD 0)
    refine h.store hids (h.row.forward h.asc h.pos hflat (subset_foldl_upsertMessage ..) (mem_stored_of_mem ..)
      rfl rfl (fun n' hn' => ?_) fun n hn => ?_)
    · have hseen := orNone_eq_some hn'
      rw [Nat.max_eq_right hge] at hseen
      rcases foldl_newestSeen_mem batches.flatten (s.row.newest.getD 0) with hold | hmem
      · cases hn : s.row.newest with
        | none =>
            rw [Nat.max_eq_right hge, hold, hn] at hn'
            cases hn'
        | some n =>
            rw [hn, Option.getD_some] at hold hseen
            rw [← hseen, hold]
            exact Or.inl rfl
      · exact Or.inr (hseen ▸ hmem)
    · have hpos := h.pos n (h.row.newest_mem n hn)
      rw [hn, Option.getD_some] at hge
      simp only [hn, Option.getD_some]
      exact ⟨_, orNone_of_pos (by omega), by omega⟩

/-- **Step.** What the condition allows keeps the cursors right. -/
theorem sound_step {op : Op} (h : Sound s) (hok : meets s op) (hstep : step s op = some t) : Sound t := by
  cases op with
  | post id =>
      obtain ⟨⟨hid, hlater⟩, heq⟩ := Option.ite_none_right_eq_some.mp hstep
      obtain rfl := Option.some.inj heq
      -- the new message is above both cursors
      have hcover : ∀ lo n, n ∈ s.history → Covered s.history s.stored lo n →
          Covered (s.history ++ [id]) s.stored lo n := by
        intro lo n hn hcovered x hx hlo hhi
        rcases List.mem_append.mp hx with hold | hnew
        · exact hcovered x hold hlo hhi
        · have := hlater n hn
          rw [List.mem_singleton.mp hnew] at hhi
          omega
      refine ⟨?_, ?_, ?_, ?_, ?_, ?_⟩
      · exact h.asc.snoc fun old hold => by simpa [idOf] using hlater old hold
      · intro x hx
        rcases List.mem_append.mp hx with hold | hnew
        · exact h.pos x hold
        · rw [List.mem_singleton.mp hnew]
          exact hid
      · exact fun l hl => List.mem_append_left _ (h.last_mem l hl)
      · exact fun n hn => List.mem_append_left _ (h.row.newest_mem n hn)
      · intro o ho
        obtain ⟨hopos, n, hn, hon, hcovered⟩ := h.row.enclosed o ho
        exact ⟨hopos, n, hn, hon, hcover o n (h.row.newest_mem n hn) hcovered⟩
      · intro hf
        have hcovered := h.row.fully hf
        change Covered _ _ 0 (s.row.newest.getD 0)
        cases hn : s.row.newest with
        | none =>
            intro x hx _ hhi
            rw [Option.getD_none] at hhi
            rcases List.mem_append.mp hx with hold | hnew
            · have := h.pos x hold
              omega
            · rw [List.mem_singleton.mp hnew] at hhi
              omega
        | some n =>
            rw [hn] at hcovered
            exact hcover 0 n (h.row.newest_mem n hn) hcovered
  | event id =>
      obtain ⟨hid, heq⟩ := Option.ite_none_right_eq_some.mp hstep
      obtain rfl := Option.some.inj heq
      have hsub : s.stored ⊆ (upsertMessage s id).stored := subset_foldl_upsertMessage [id] s
      refine ⟨h.asc, h.pos, fun l hl => h.last_foldl (List.cons_subset.mpr ⟨hid, List.nil_subset _⟩) hl,
        h.row.newest_mem, ?_, ?_⟩
      · intro o ho
        obtain ⟨hopos, n, hn, hon, hcovered⟩ := h.row.enclosed o ho
        exact ⟨hopos, n, hn, hon, hcovered.mono hsub⟩
      · exact fun hf => (h.row.fully hf).mono hsub
  | backward limit =>
      obtain rfl := Option.some.inj hstep
      by_cases hmode : s.newMode = true
      · rw [if_pos hmode]
        exact h.backward_new hok
      · rw [if_neg hmode]
        exact h.backward_legacy (by simpa using hmode) hok
  | forward limit =>
      obtain rfl := Option.some.inj hstep
      exact h.forward limit

/-- **Cursors.** In every state of a run whose backward backfills keep to the condition, in both modes, what
    lies between the saved cursors is stored, and a fully synced row misses nothing below its newest one. -/
theorem cursors_enclose {newMode : Bool} (h : Run step meets (initial newMode) s) : CursorsEnclose s := by
  have hsound : Sound s := h.invariant (fun _ _ _ hs hok hstep => sound_step hs hok hstep) (sound_initial newMode)
  intro row hrow newest hnewest
  have hrowOk := hsound.row
  rw [State.row, hrow, Option.getD_some] at hrowOk
  constructor
  · intro oldest holdest
    obtain ⟨-, n, hn, -, hcover⟩ := hrowOk.enclosed oldest holdest
    obtain rfl : newest = n := Option.some.inj (hnewest.symm.trans hn)
    exact hcover
  · intro hf id hid hlt
    have hcover := hrowOk.fully hf
    rw [hnewest, Option.getD_some] at hcover
    exact hcover id hid (Nat.zero_le _) (by omega)

/-- Backfills in both directions around a live event; the run keeps to the condition. -/
def filled : List Op := [.post 1, .post 2, .event 2, .backward 1, .post 3, .forward 5, .backward 10]

theorem cursors_enclose_filled :
    ∃ s, Run step meets (initial false) s ∧ s.syncState = some ⟨some 1, some 3, true, 3⟩ ∧ CursorsEnclose s := by
  have hsome : (execOk step (fun s op => meets s op) (initial false) filled).isSome = true := by decide +kernel
  obtain ⟨s, hs⟩ := Option.isSome_iff_exists.mp hsome
  have hrow : (execOk step (fun s op => meets s op) (initial false) filled).map State.syncState
      = some (some ⟨some 1, some 3, true, 3⟩) := by decide +kernel
  have hrun : Run step meets (initial false) s := Run.of_execOk (fun _ _ hok => of_decide_eq_true hok) hs
  rw [hs] at hrow
  exact ⟨s, hrun, Option.some.inj hrow, cursors_enclose hrun⟩

/-- Messages 2 and 3 come while we are down and 3 is edited live: the next backward run has nothing to read
    and moves the newest cursor over 2. -/
def jumped : List Op := [.post 1, .backward 10, .post 2, .post 3, .event 3, .backward 10]

/-- A run that finds the chat empty calls it fully synced; the next one stops at its limit. -/
def emptied : List Op := [.backward 1, .post 1, .post 2, .backward 1]

/-- Without the condition the cursors of either mode come to enclose what is not stored. -/
theorem cursors_enclose_fails :
    (¬ ∀ s, Run step Always (initial false) s → CursorsEnclose s) ∧
      ¬ ∀ s, Run step Always (initial true) s → CursorsEnclose s := by
  constructor
  · intro hall
    have hend : (exec step (initial false) jumped).map
        (fun s => (s.syncState, decide (2 ∈ s.history), decide (2 ∈ s.stored)))
          = some (some ⟨some 1, some 3, true, 1⟩, true, false) := by decide +kernel
    obtain ⟨s, hs, heq⟩ := Option.map_eq_some_iff.mp hend
    simp only [Prod.mk.injEq, decide_eq_true_eq, decide_eq_false_iff_not] at heq
    obtain ⟨hrow, hon, hmissing⟩ := heq
    exact hmissing ((hall s (Run.of_exec hs) _ hrow 3 rfl).1 1 rfl 2 hon (by omega) (by omega))
  · intro hall
    have hend : (exec step (initial true) emptied).map
        (fun s => (s.syncState, decide (1 ∈ s.history), decide (1 ∈ s.stored)))
          = some (some ⟨some 2, some 2, true, 1⟩, true, false) := by decide +kernel
    obtain ⟨s, hs, heq⟩ := Option.map_eq_some_iff.mp hend
    simp only [Prod.mk.injEq, decide_eq_true_eq, decide_eq_false_iff_not] at heq
    obtain ⟨hrow, hon, hmissing⟩ := heq
    exact hmissing ((hall s (Run.of_exec hs) _ hrow 2 rfl).2 rfl 1 hon (by omega))

end MyPerson.Telegram.Backfill
