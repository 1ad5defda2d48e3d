import Mathlib.Data.List.Induction
import MyPerson.Repo.Messages

/-!
# `Repo.Merge` — copies of a message in any order

Live events, echoes, history pages and backfills deliver the same message again and again, the original
and its edits in any order. The guarded insert makes the message row independent of the order: it is
always that of the newest copy (`run_row`). The media are not behind the guard: every copy inserts its
own, and nothing removes any (`run_medium`). So they are those of the newest copy only if the copies
came in a suitable order.

## Contents
- `OneMessage`, `IsNewest`, `Stale`: the copies of a message;
- `run_row` and `run_medium`: the tables after any deliveries;
- `MergesInAnyOrder` and `merge_iff`, with an order that fails.
-/

namespace MyPerson.Repo

open Lib

variable {s s₀ : Store} {k : MessageKey} {ds : List Delivery} {rs : List MessageRow} {r : MessageRow}

/-! ## Copies -/

/-- The part of a message that an edit changes. -/
structure Content where
  text        : Option String
  textHtml    : Option String
  messageType : String
  raw         : Option String
deriving DecidableEq, Repr

def MessageRow.content (r : MessageRow) : Content := ⟨r.text, r.textHtml, r.messageType, r.raw⟩
def Message.content (m : Message) : Content := ⟨m.text, m.textHtml, m.messageType, m.raw⟩

/-- The copies are one original and edits of it with times of their own: the original is the same on
    every repeat, and so is the edit of a time. -/
structure OneMessage (rs : List MessageRow) : Prop where
  edited : ∀ r ∈ rs, r.isEdited = true → ∃ t, r.editedAt = some t
  same : ∀ r ∈ rs, ∀ r' ∈ rs, r.isEdited = r'.isEdited → (r.isEdited = true → r.editedAt = r'.editedAt) →
    r.content = r'.content ∧ r.media = r'.media

/-- `r` is an edit as new as `e`. -/
def AsNew (r e : MessageRow) : Prop :=
  r.isEdited = true ∧ ∃ t t', r.editedAt = some t ∧ e.editedAt = some t' ∧ t' ≤ t

/-- No edit among the copies is newer than `r`. -/
structure IsNewest (r : MessageRow) (rs : List MessageRow) : Prop where
  mem : r ∈ rs
  newest : ∀ e ∈ rs, e.isEdited = true → AsNew r e

/-- The copies hold an edit that is newer than `r`, or `r` is no edit and they hold one. -/
def Stale (rs : List MessageRow) (r : MessageRow) : Prop :=
  ∃ e ∈ rs, e.isEdited = true ∧ ¬AsNew r e

/-- The medium that the last copy with a medium at the index has there. -/
def lastMedium (rs : List MessageRow) (i : Nat) : Option MediaRow :=
  (rs.filterMap fun r => r.medium i).getLast?

theorem lastMedium_append (rs : List MessageRow) (r : MessageRow) (i : Nat) :
    lastMedium (rs ++ [r]) i = (r.medium i).or (lastMedium rs i) := by
  unfold lastMedium
  rw [List.filterMap_append]
  cases hm : r.medium i <;> simp [hm]

theorem asNew_self {e : MessageRow} (h : OneMessage rs) (he : e ∈ rs) (hedit : e.isEdited = true) :
    AsNew e e := by
  obtain ⟨t, ht⟩ := h.edited e he hedit
  exact ⟨hedit, t, t, ht, ht, Int.le_refl t⟩

theorem AsNew.trans {a b c : MessageRow} (hab : AsNew a b) (hbc : AsNew b c) : AsNew a c := by
  obtain ⟨ha, t, t', hat, hbt, hle⟩ := hab
  obtain ⟨-, u, u', hbu, hcu, hle'⟩ := hbc
  rw [hbt] at hbu
  cases hbu
  exact ⟨ha, t, u', hat, hcu, Int.le_trans hle' hle⟩

/-- Two newest copies are the same copy. -/
theorem IsNewest.unique {r' : MessageRow} (h : OneMessage rs) (hr : IsNewest r rs)
    (hr' : IsNewest r' rs) : r.content = r'.content ∧ r.media = r'.media := by
  by_cases hedit : r.isEdited = true ∨ r'.isEdited = true
  · have hboth : AsNew r r' ∧ AsNew r' r := by
      rcases hedit with hedit | hedit
      · have hback := hr'.newest r hr.mem hedit
        exact ⟨hr.newest r' hr'.mem hback.1, hback⟩
      · have hforth := hr.newest r' hr'.mem hedit
        exact ⟨hforth, hr'.newest r hr.mem hforth.1⟩
    obtain ⟨⟨he, t, t', ht, ht', hle⟩, ⟨he', u', u, hu', hu, hle'⟩⟩ := hboth
    refine h.same r hr.mem r' hr'.mem (he.trans he'.symm) fun _ => ?_
    rw [ht] at hu
    rw [ht'] at hu'
    cases hu
    cases hu'
    rw [ht, ht', Int.le_antisymm hle hle']
  · have hnot : r.isEdited = false ∧ r'.isEdited = false := by simpa using hedit
    exact h.same r hr.mem r' hr'.mem (hnot.1.trans hnot.2.symm) fun he => by simp [hnot.1] at he

/-! ## What a delivery does to one message -/

@[simp] theorem copies_nil (k : MessageKey) : copies k [] = [] := rfl

theorem copies_append (k : MessageKey) (ds ds' : List Delivery) :
    copies k (ds ++ ds') = copies k ds ++ copies k ds' := List.filterMap_append

theorem copies_copy {row : MessageRow} {c : Nat} (h : (c, row.externalId) = k) :
    copies k [.copy c row] = [row] := by
  simp [copies, h]

theorem copies_other {row : MessageRow} {c : Nat} (h : (c, row.externalId) ≠ k) :
    copies k [.copy c row] = [] := by
  simp [copies, h]

theorem copies_deleted (c : Option Nat) (ids : List Int) (t : Time) :
    copies k [.deleted c ids t] = [] := rfl

theorem copies_others (account : Option Int) (users : Table Int Nat) (chats : Table Nat Chat) :
    copies k [.others account users chats] = [] := rfl

theorem deliverAll_append (s : Store) (ds : List Delivery) (d : Delivery) :
    deliverAll s (ds ++ [d]) = deliver (deliverAll s ds) d := by
  simp [deliverAll]

theorem copy_row (s : Store) {row : MessageRow} {c : Nat} (h : (c, row.externalId) = k) :
    (deliver s (.copy c row)).messages k
      = some (onto mergeMessage (s.messages k) (insertedMessage s row)) := by
  subst h
  exact Table.insertOn_self ..

theorem copy_row_ne (s : Store) {row : MessageRow} {c : Nat} (h : (c, row.externalId) ≠ k) :
    (deliver s (.copy c row)).messages k = s.messages k :=
  Table.insertOn_ne _ _ _ (Ne.symm h)

/-- `upsert_media`, seen at one index. -/
theorem upsertMedia_row (media : Table (MessageKey × Nat) Medium) (k : MessageKey) (rows : List MediaRow)
    (i : Nat) :
    (upsertMedia media k rows (k, i)).map Medium.row
      = ((rows.filter fun m => m.attachIndex = i).getLast?).or ((media (k, i)).map Medium.row) := by
  unfold upsertMedia
  rw [foldl_insertOn mergeMedium (fun row : MediaRow => (k, row.attachIndex)) fun row => ⟨row, none⟩]
  have hkey : (rows.filter fun m => (k, m.attachIndex) = (k, i))
      = rows.filter fun m => m.attachIndex = i := by
    congr 1
    funext m
    simp
  rw [hkey]
  generalize (rows.filter fun m => m.attachIndex = i) = at_
  generalize media (k, i) = old
  induction at_ using List.reverseRecOn with
  | nil => rfl
  | append_singleton at_ m ih =>
      rw [List.foldl_append, List.foldl_cons, List.foldl_nil, List.getLast?_concat]
      generalize at_.foldl _ old = before
      cases before <;> rfl

/-- `upsert_media` keeps the stored files. -/
theorem upsertMedia_storagePath (media : Table (MessageKey × Nat) Medium) (k : MessageKey)
    (rows : List MediaRow) (i : Nat) :
    (upsertMedia media k rows (k, i)).bind Medium.storagePath = (media (k, i)).bind Medium.storagePath := by
  unfold upsertMedia
  rw [foldl_insertOn mergeMedium (fun row : MediaRow => (k, row.attachIndex)) fun row => ⟨row, none⟩]
  generalize (rows.filter fun m => (k, m.attachIndex) = (k, i)) = at_
  generalize media (k, i) = old
  induction at_ using List.reverseRecOn with
  | nil => rfl
  | append_singleton at_ m ih =>
      rw [List.foldl_append, List.foldl_cons, List.foldl_nil]
      revert ih
      generalize at_.foldl _ old = before
      cases before <;> exact id

theorem upsertMedia_ne (media : Table (MessageKey × Nat) Medium) {k k' : MessageKey}
    (rows : List MediaRow) (i : Nat) (h : k' ≠ k) : upsertMedia media k rows (k', i) = media (k', i) := by
  unfold upsertMedia
  rw [foldl_insertOn mergeMedium (fun row : MediaRow => (k, row.attachIndex)) fun row => ⟨row, none⟩]
  have hnone : (rows.filter fun m => (k, m.attachIndex) = (k', i)) = [] := by
    rw [List.filter_eq_nil_iff]
    intro m _
    simp [Ne.symm h]
  rw [hnone]
  rfl

theorem copy_medium (s : Store) {row : MessageRow} {c : Nat} (h : (c, row.externalId) = k) (i : Nat) :
    (deliver s (.copy c row)).medium k i = (row.medium i).or (s.medium k i) := by
  subst h
  exact upsertMedia_row ..

theorem copy_medium_ne (s : Store) {row : MessageRow} {c : Nat} (h : (c, row.externalId) ≠ k) (i : Nat) :
    (deliver s (.copy c row)).medium k i = s.medium k i :=
  congrArg (Option.map Medium.row) (upsertMedia_ne _ _ _ (Ne.symm h))

/-! ## The media after any deliveries -/

/-- **Run.** The media of a message are those that the last copies brought, index by index. -/
theorem run_medium (hfresh : ∀ i, s₀.medium k i = none) (ds : List Delivery) (i : Nat) :
    (deliverAll s₀ ds).medium k i = lastMedium (copies k ds) i := by
  induction ds using List.reverseRecOn with
  | nil => exact hfresh i
  | append_singleton ds d ih =>
      rw [deliverAll_append, copies_append]
      cases d with
      | copy c row =>
          by_cases hk : (c, row.externalId) = k
          · rw [copy_medium _ hk, copies_copy hk, lastMedium_append, ih]
          · rw [copy_medium_ne _ hk, copies_other hk, List.append_nil, ih]
      | deleted c ids t =>
          rw [copies_deleted, List.append_nil]
          exact ih
      | others account users chats =>
          rw [copies_others, List.append_nil]
          exact ih

/-! ## The message row after any deliveries -/

/-- The stored row shows the copy. -/
structure Shows (m : Message) (r : MessageRow) : Prop where
  content : m.content = r.content
  isEdited : m.isEdited = r.isEdited
  editedAt : m.editedAt = r.editedAt

/-- The stored row shows a newest copy; there is none before the first copy. -/
def RowOk (rs : List MessageRow) (o : Option Message) : Prop :=
  match o with
  | none => rs = []
  | some m => ∃ r, IsNewest r rs ∧ Shows m r

theorem shows_inserted (s : Store) (r : MessageRow) : Shows (insertedMessage s r) r := ⟨rfl, rfl, rfl⟩

theorem shows_set (s : Store) (m : Message) (r : MessageRow) :
    Shows (setMessage m (insertedMessage s r)) r := ⟨rfl, rfl, rfl⟩

/-- **The guard.** A copy is refused if and only if it is stale. -/
theorem editGuard_iff {m : Message} {new : MessageRow} (h : OneMessage (rs ++ [new])) (hr : IsNewest r rs)
    (hm : Shows m r) : editGuard m (insertedMessage s new) = false ↔ Stale rs new := by
  have hrmem : r ∈ rs ++ [new] := List.mem_append_left _ hr.mem
  have hnew : new ∈ rs ++ [new] := List.mem_append_right _ (List.mem_singleton_self new)
  have hguard : editGuard m (insertedMessage s new) = true ↔ (r.isEdited = true → AsNew new r) := by
    unfold editGuard
    rw [hm.isEdited, hm.editedAt]
    cases hedit : r.isEdited with
    | false => simp
    | true =>
        obtain ⟨t, ht⟩ := h.edited r hrmem hedit
        cases hnewEdit : new.isEdited with
        | false => simp [insertedMessage, AsNew, hnewEdit]
        | true =>
            obtain ⟨t', ht'⟩ := h.edited new hnew hnewEdit
            simp [insertedMessage, AsNew, ht, ht', hnewEdit]
  rw [← Bool.not_eq_true, hguard]
  constructor
  · intro hno
    have hboth : r.isEdited = true ∧ ¬AsNew new r := by simpa using hno
    exact ⟨r, hr.mem, hboth⟩
  · rintro ⟨e, he, hedit, hnot⟩ hall
    have hre := hr.newest e he hedit
    exact hnot ((hall hre.1).trans hre)

theorem OneMessage.left {rs' : List MessageRow} (h : OneMessage (rs ++ rs')) : OneMessage rs :=
  ⟨fun r hr => h.edited r (List.mem_append_left _ hr), fun r hr r' hr' =>
    h.same r (List.mem_append_left _ hr) r' (List.mem_append_left _ hr')⟩

/-- A copy that is not stale is the newest one. -/
theorem isNewest_of_not_stale {new : MessageRow} (h : OneMessage (rs ++ [new])) (hnot : ¬Stale rs new) :
    IsNewest new (rs ++ [new]) := by
  refine ⟨List.mem_append_right _ (List.mem_singleton_self new), fun e he hedit => ?_⟩
  rcases List.mem_append.mp he with hold | hlast
  · by_contra hno
    exact hnot ⟨e, hold, hedit, hno⟩
  · have heq : e = new := List.mem_singleton.mp hlast
    subst heq
    exact asNew_self h he hedit

/-- A stale copy leaves the newest one the newest. -/
theorem isNewest_of_stale {new : MessageRow} (h : OneMessage (rs ++ [new])) (hr : IsNewest r rs)
    (hstale : Stale rs new) : IsNewest r (rs ++ [new]) := by
  refine ⟨List.mem_append_left _ hr.mem, fun e he hedit => ?_⟩
  rcases List.mem_append.mp he with hold | hlast
  · exact hr.newest e hold hedit
  · have heq : e = new := List.mem_singleton.mp hlast
    subst heq
    obtain ⟨f, hf, hfedit, hnot⟩ := hstale
    have hrf := hr.newest f hf hfedit
    obtain ⟨hredit, t, t', ht, ht', hle⟩ := hrf
    obtain ⟨u, hu⟩ := h.edited e he hedit
    refine ⟨hredit, t, u, ht, hu, ?_⟩
    by_contra hlt
    exact hnot ⟨hedit, u, t', hu, ht', Int.le_trans hle (Int.le_of_lt (Int.not_le.mp hlt))⟩

/-- **Step.** A copy of the message. -/
theorem rowOk_copy {new : MessageRow} {o : Option Message} (h : OneMessage (rs ++ [new]))
    (hrow : RowOk rs o) : RowOk (rs ++ [new]) (some (onto mergeMessage o (insertedMessage s new))) := by
  cases o with
  | none =>
      cases hrow
      refine ⟨new, isNewest_of_not_stale h ?_, shows_inserted s new⟩
      rintro ⟨e, he, -⟩
      cases he
  | some m =>
      obtain ⟨r, hr, hm⟩ := hrow
      cases hguard : editGuard m (insertedMessage s new) with
      | true =>
          have hnot : ¬Stale rs new := fun hst => by simp [(editGuard_iff h hr hm).mpr hst] at hguard
          refine ⟨new, isNewest_of_not_stale h hnot, ?_⟩
          simpa [mergeMessage, hguard] using shows_set s m new
      | false =>
          have hstale : Stale rs new := (editGuard_iff h hr hm).mp hguard
          refine ⟨r, isNewest_of_stale h hr hstale, ?_⟩
          simpa [mergeMessage, hguard] using hm

/-- **Step.** A deletion keeps what the row shows. -/
theorem rowOk_deleted {o : Option Message} (f : Message → Message) (hrow : RowOk rs o)
    (hf : ∀ m r, Shows m r → Shows (f m) r) : RowOk rs (o.map f) := by
  cases o with
  | none => exact hrow
  | some m =>
      obtain ⟨r, hr, hm⟩ := hrow
      exact ⟨r, hr, hf m r hm⟩

/-- **Run.** After any deliveries the message row shows the newest copy. -/
theorem run_row (hfresh : s₀.messages k = none) (ds : List Delivery) (h : OneMessage (copies k ds)) :
    RowOk (copies k ds) ((deliverAll s₀ ds).messages k) := by
  induction ds using List.reverseRecOn with
  | nil =>
      show RowOk [] (s₀.messages k)
      rw [hfresh]
      exact rfl
  | append_singleton ds d ih =>
      rw [deliverAll_append]
      cases d with
      | copy c row =>
          by_cases hk : (c, row.externalId) = k
          · rw [copies_append, copies_copy hk] at h ⊢
            rw [copy_row _ hk]
            exact rowOk_copy h (ih h.left)
          · rw [copies_append, copies_other hk, List.append_nil] at h ⊢
            rw [copy_row_ne _ hk]
            exact ih h
      | deleted c ids t =>
          rw [copies_append, copies_deleted, List.append_nil] at h ⊢
          refine rowOk_deleted _ (ih h) fun m r hm => ?_
          split
          · exact ⟨hm.content, hm.isEdited, hm.editedAt⟩
          · exact hm
      | others account users chats =>
          rw [copies_append, copies_others, List.append_nil] at h ⊢
          exact ih h

/-! ## Merging in any order -/

/-- The guard refuses the copy. -/
def Refused (s : Store) (k : MessageKey) (row : MessageRow) : Prop :=
  ∃ m, s.messages k = some m ∧ editGuard m (insertedMessage s row) = false

/-- What is left of a message after the deliveries does not depend on their order. -/
structure MergesInAnyOrder (s₀ : Store) (k : MessageKey) (ds : List Delivery) : Prop where
  content : ∀ r, IsNewest r (copies k ds) →
    ((deliverAll s₀ ds).messages k).map Message.content = some r.content
  media : ∀ r, IsNewest r (copies k ds) → ∀ i, (deliverAll s₀ ds).medium k i = r.medium i
  refused : ∀ before c row after, ds = before ++ .copy c row :: after → (c, row.externalId) = k →
    Refused (deliverAll s₀ before) k row →
    (deliver (deliverAll s₀ before) (.copy c row)).messages k = (deliverAll s₀ before).messages k ∧
      ∀ i, (deliver (deliverAll s₀ before) (.copy c row)).media (k, i)
        = (deliverAll s₀ before).media (k, i)
  deletedAt : ∀ before d after, ds = before ++ d :: after → ∀ m, (deliverAll s₀ before).messages k = some m →
    ∀ t, m.deletedAt = some t →
      ∃ m', (deliver (deliverAll s₀ before) d).messages k = some m' ∧ m'.deletedAt = some t
  views : ∀ before d after, ds = before ++ d :: after → ∀ m, (deliverAll s₀ before).messages k = some m →
    ∀ v, m.views = some v →
      ∃ m' v', (deliver (deliverAll s₀ before) d).messages k = some m' ∧ m'.views = some v'

/-- The order suits the media: at every index the last copy with a medium there has the newest copy's,
    and no other copy has one; a stale copy brings only what the last copies before it brought. -/
structure MediaInOrder (rs : List MessageRow) : Prop where
  last : ∀ r, IsNewest r rs → ∀ i, lastMedium rs i = r.medium i
  stale : ∀ before row after, rs = before ++ row :: after → Stale before row →
    ∀ i m, row.medium i = some m → lastMedium before i = some m

/-- **Step.** A stored message keeps its deletion and some views. -/
theorem deliver_keeps (s : Store) (d : Delivery) {m : Message} (hm : s.messages k = some m) :
    ∃ m', (deliver s d).messages k = some m' ∧ (∀ t, m.deletedAt = some t → m'.deletedAt = some t) ∧
      ∀ v, m.views = some v → ∃ v', m'.views = some v' := by
  cases d with
  | copy c row =>
      by_cases hk : (c, row.externalId) = k
      · rw [copy_row s hk, hm]
        refine ⟨_, rfl, ?_⟩
        cases hguard : editGuard m (insertedMessage s row) with
        | true =>
            have hset : onto mergeMessage (some m) (insertedMessage s row)
                = setMessage m (insertedMessage s row) := by simp [mergeMessage, hguard]
            rw [hset]
            constructor
            · intro t ht
              simp [setMessage, ht]
            · intro v hv
              cases hnew : row.views with
              | none => exact ⟨v, by simp [setMessage, insertedMessage, hnew, hv]⟩
              | some v' => exact ⟨v', by simp [setMessage, insertedMessage, hnew]⟩
        | false =>
            have hkept : onto mergeMessage (some m) (insertedMessage s row) = m := by
              simp [mergeMessage, hguard]
            rw [hkept]
            exact ⟨fun t ht => ht, fun v hv => ⟨v, hv⟩⟩
      · rw [copy_row_ne s hk]
        exact ⟨m, hm, fun t ht => ht, fun v hv => ⟨v, hv⟩⟩
  | deleted c ids t =>
      have hrow : (deliver s (.deleted c ids t)).messages k
          = some (if deletesIn s c k.1 && ids.contains k.2 then
              { m with deletedAt := m.deletedAt.or (some t) } else m) := by
        show (s.messages k).map _ = _
        rw [hm]
        rfl
      refine ⟨_, hrow, ?_⟩
      split
      · exact ⟨fun u hu => by simp [hu], fun v hv => ⟨v, hv⟩⟩
      · exact ⟨fun u hu => hu, fun v hv => ⟨v, hv⟩⟩
  | others account users chats => exact ⟨m, hm, fun t ht => ht, fun v hv => ⟨v, hv⟩⟩

/-- A copy among the copies is one of the deliveries. -/
theorem copies_split {before after : List MessageRow} {row : MessageRow}
    (h : copies k ds = before ++ row :: after) :
    ∃ dsBefore c dsAfter, ds = dsBefore ++ .copy c row :: dsAfter ∧ copies k dsBefore = before ∧
      (c, row.externalId) = k := by
  obtain ⟨ds₁, ds₂, rfl, hbefore, hrest⟩ := List.filterMap_eq_append_iff.mp h
  obtain ⟨ds₃, d, ds₄, rfl, hnone, hd, -⟩ := List.filterMap_eq_cons_iff.mp hrest
  have hempty : copies k ds₃ = [] := List.filterMap_eq_nil_iff.mpr hnone
  cases d with
  | copy c row' =>
      by_cases hk : (c, row'.externalId) = k
      · have hrow : row' = row := by simpa [hk] using hd
        subst hrow
        refine ⟨ds₁ ++ ds₃, c, ds₄, (List.append_assoc ..).symm, ?_, hk⟩
        rw [copies_append, hempty, List.append_nil]
        exact hbefore
      · simp [hk] at hd
  | deleted c ids t => cases hd
  | others account users chats => cases hd

/-- The guard refuses the stale copies. -/
theorem refused_iff {new : MessageRow} (hfresh : s₀.messages k = none)
    (h : OneMessage (copies k ds ++ [new])) :
    Refused (deliverAll s₀ ds) k new ↔ Stale (copies k ds) new := by
  have hrow := run_row hfresh ds h.left
  cases hm : (deliverAll s₀ ds).messages k with
  | none =>
      rw [hm] at hrow
      have hnil : copies k ds = [] := hrow
      rw [hnil]
      constructor
      · rintro ⟨m, hsome, -⟩
        rw [hm] at hsome
        cases hsome
      · rintro ⟨e, he, -⟩
        cases he
  | some m =>
      rw [hm] at hrow
      obtain ⟨r, hr, hshows⟩ := hrow
      rw [← editGuard_iff (s := deliverAll s₀ ds) h hr hshows]
      constructor
      · rintro ⟨m', hm', hguard⟩
        rw [hm] at hm'
        cases hm'
        exact hguard
      · intro hguard
        exact ⟨m, hm, hguard⟩

theorem medium_ext {o o' : Option Medium} (hrow : o.map Medium.row = o'.map Medium.row)
    (hpath : o.bind Medium.storagePath = o'.bind Medium.storagePath) : o = o' := by
  rcases o with _ | ⟨row, path⟩ <;> rcases o' with _ | ⟨row', path'⟩ <;> simp_all

/-- When a copy leaves a medium as it is. -/
theorem copy_media_eq_iff (s : Store) {row : MessageRow} {c : Nat} (h : (c, row.externalId) = k) (i : Nat) :
    (deliver s (.copy c row)).media (k, i) = s.media (k, i) ↔
      ∀ m, row.medium i = some m → s.medium k i = some m := by
  have hmedium := copy_medium s h i
  constructor
  · intro hkept m hm
    have hsame : (deliver s (.copy c row)).medium k i = s.medium k i := congrArg (Option.map Medium.row) hkept
    rw [← hsame, hmedium, hm, Option.some_or]
  · intro hall
    have hpath : ((deliver s (.copy c row)).media (k, i)).bind Medium.storagePath
        = (s.media (k, i)).bind Medium.storagePath := by
      subst h
      exact upsertMedia_storagePath ..
    refine medium_ext ?_ hpath
    show (deliver s (.copy c row)).medium k i = s.medium k i
    rw [hmedium]
    cases hm : row.medium i with
    | none => rfl
    | some m => exact (hall m hm).symm

/-- A refused copy leaves the row as it is. -/
theorem copy_row_refused {row : MessageRow} {c : Nat} (h : (c, row.externalId) = k)
    (hrefused : Refused s k row) : (deliver s (.copy c row)).messages k = s.messages k := by
  obtain ⟨m, hm, hguard⟩ := hrefused
  rw [copy_row s h, hm]
  simp [mergeMessage, hguard]

/-- **The merge** does not depend on the order of the deliveries if and only if the order suits the
    media; the message row alone never depends on it. -/
theorem merge_iff (s₀ : Store) (k : MessageKey) (ds : List Delivery) (hmessage : s₀.messages k = none)
    (hmedia : ∀ i, s₀.medium k i = none) (h : OneMessage (copies k ds)) :
    MergesInAnyOrder s₀ k ds ↔ MediaInOrder (copies k ds) := by
  have hsplits : ∀ before c row after, ds = before ++ .copy c row :: after → (c, row.externalId) = k →
      copies k ds = copies k before ++ row :: copies k after ∧ OneMessage (copies k before ++ [row]) := by
    intro before c row after hds hk
    have hsplit : copies k ds = copies k before ++ [row] ++ copies k after := by
      rw [hds, ← List.singleton_append, ← List.append_assoc, copies_append, copies_append,
        copies_copy hk]
    rw [hsplit] at h ⊢
    exact ⟨by simp, h.left⟩
  constructor
  · intro hmerge
    constructor
    · intro r hr i
      rw [← run_medium hmedia]
      exact hmerge.media r hr i
    · intro before row after hsplit hstale i m hm
      obtain ⟨dsBefore, c, dsAfter, hds, rfl, hk⟩ := copies_split hsplit
      have hrefused := (refused_iff hmessage (hsplits _ _ _ _ hds hk).2).mpr hstale
      have hkept := (hmerge.refused dsBefore c row dsAfter hds hk hrefused).2 i
      rw [← run_medium hmedia dsBefore]
      exact (copy_media_eq_iff _ hk i).mp hkept m hm
  · intro horder
    refine ⟨?content, ?media, ?refused, ?deletedAt, ?views⟩
    case content =>
      intro r hr
      have hrow := run_row hmessage ds h
      cases hm : (deliverAll s₀ ds).messages k with
      | none =>
          rw [hm] at hrow
          have hnil : copies k ds = [] := hrow
          have hmem := hr.mem
          rw [hnil] at hmem
          cases hmem
      | some m =>
          rw [hm] at hrow
          obtain ⟨r', hr', hshows⟩ := hrow
          show some m.content = some r.content
          rw [hshows.content, (hr'.unique h hr).1]
    case media =>
      intro r hr i
      rw [run_medium hmedia]
      exact horder.last r hr i
    case refused =>
      intro before c row after hds hk hrefused
      obtain ⟨hsplit, hone⟩ := hsplits before c row after hds hk
      have hstale := (refused_iff hmessage hone).mp hrefused
      refine ⟨copy_row_refused hk hrefused, fun i => (copy_media_eq_iff _ hk i).mpr fun m hm => ?_⟩
      rw [run_medium hmedia]
      exact horder.stale _ row _ hsplit hstale i m hm
    case deletedAt =>
      intro before d after _ m hm t ht
      obtain ⟨m', hm', hdeleted, -⟩ := deliver_keeps (deliverAll s₀ before) d hm
      exact ⟨m', hm', hdeleted t ht⟩
    case views =>
      intro before d after _ m hm v hv
      obtain ⟨m', hm', -, hviews⟩ := deliver_keeps (deliverAll s₀ before) d hm
      obtain ⟨v', hv'⟩ := hviews v hv
      exact ⟨m', v', hm', hv'⟩

/-! ## An order that fails -/

/-- One group and no messages. -/
def oneChat : Store where
  accountUser := some 1
  users _ := none
  chats c := if c = 0 then some ⟨.group, none, none⟩ else none
  messages _ := none
  media _ := none

def photo : MediaRow := ⟨"photo", 0, some "f1", none, none, none, none⟩

/-- A message with a photo. -/
def withPhoto : MessageRow where
  externalId := 7
  sentAt := 10
  senderExternalId := some 2
  senderChatExternalId := none
  replyToExternalId := none
  forwardFromChatExternalId := none
  forwardFromMessageExternalId := none
  messageType := "photo"
  text := some "look"
  textHtml := none
  isEdited := false
  editedAt := none
  deletedAt := none
  views := none
  raw := none
  isOutgoingHint := none
  media := [photo]

/-- Its edit, which takes the photo away. -/
def withoutPhoto : MessageRow :=
  { withPhoto with messageType := "text", isEdited := true, editedAt := some 20, media := [] }

/-- Its edit, which keeps the photo. -/
def recaptioned : MessageRow := { withPhoto with text := some "here", isEdited := true, editedAt := some 20 }

theorem oneMessage_pair (edit : MessageRow) (t : Time) (hedit : edit.isEdited = true)
    (ht : edit.editedAt = some t) {rs : List MessageRow} (h : ∀ r ∈ rs, r = withPhoto ∨ r = edit) :
    OneMessage rs := by
  constructor
  · intro r hr he
    rcases h r hr with rfl | rfl
    · simp [withPhoto] at he
    · exact ⟨t, ht⟩
  · intro r hr r' hr' hsame _
    rcases h r hr with rfl | rfl <;> rcases h r' hr' with rfl | rfl
    · exact ⟨rfl, rfl⟩
    · rw [hedit] at hsame
      simp [withPhoto] at hsame
    · rw [hedit] at hsame
      simp [withPhoto] at hsame
    · exact ⟨rfl, rfl⟩

/-- The edit came first: the original is refused, and its photo is stored nevertheless. -/
theorem merge_fails :
    oneChat.messages (0, 7) = none ∧ (∀ i, oneChat.medium (0, 7) i = none) ∧
      OneMessage (copies (0, 7) [.copy 0 withoutPhoto, .copy 0 withPhoto]) ∧
      ¬MergesInAnyOrder oneChat (0, 7) [.copy 0 withoutPhoto, .copy 0 withPhoto] := by
  refine ⟨rfl, fun i => rfl, oneMessage_pair withoutPhoto 20 rfl rfl ?_, ?_⟩
  · intro r hr
    have hmem : r = withoutPhoto ∨ r = withPhoto := by simpa [copies, withPhoto, withoutPhoto] using hr
    exact hmem.symm
  · intro hmerge
    have hnewest : IsNewest withoutPhoto (copies (0, 7) [.copy 0 withoutPhoto, .copy 0 withPhoto]) := by
      refine ⟨List.mem_cons_self .., fun e he hedit => ?_⟩
      have hmem : e = withoutPhoto ∨ e = withPhoto := by simpa [copies, withPhoto, withoutPhoto] using he
      rcases hmem with rfl | rfl
      · exact ⟨rfl, 20, 20, rfl, rfl, Int.le_refl 20⟩
      · cases hedit
    have hnone := hmerge.media withoutPhoto hnewest 0
    have hphoto : (deliverAll oneChat [.copy 0 withoutPhoto, .copy 0 withPhoto]).medium (0, 7) 0
        = some photo := by decide
    rw [hphoto] at hnone
    cases hnone

/-- The original, its edit with the same photo, and the original again. -/
theorem merge_iff_recaptioned :
    MergesInAnyOrder oneChat (0, 7) [.copy 0 withPhoto, .copy 0 recaptioned, .copy 0 withPhoto] ↔
      MediaInOrder (copies (0, 7) [.copy 0 withPhoto, .copy 0 recaptioned, .copy 0 withPhoto]) := by
  refine merge_iff oneChat (0, 7) _ rfl (fun i => rfl) (oneMessage_pair recaptioned 20 rfl rfl ?_)
  intro r hr
  have hmem : r = withPhoto ∨ r = recaptioned ∨ r = withPhoto := by
    simpa [copies, withPhoto, recaptioned] using hr
  rcases hmem with h | h | h
  · exact Or.inl h
  · exact Or.inr h
  · exact Or.inl h

end MyPerson.Repo
