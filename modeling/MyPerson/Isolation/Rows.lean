import MyPerson.Isolation.Steps
import Mathlib.Data.List.Perm.Basic

/-!
# `Isolation.Rows` — what a statement of step G or H does to one row

A message that the statement selects for an owner is a `Hit`; its row is new, or is what the conflict clause
makes of it. `finalRow` is the row that the legacy tables ask for, and a row that `Fits` becomes it when a delta
selects the message and knows the sender.

## Contents
- `Sole` and `soleOwner_iff`, `outgoing_congr`;
- `finalRow`, `Fits`, `conflict_eq`;
- `Hit`, `stepGMessages_hit`, `stepGMessages_miss`, `of_stepGMessages`;
- the same for media: `MediaHit`.
-/

namespace MyPerson.Isolation

open Lib
open WriteLimits (Platform)

variable {ctx : Ctx} {L L' : Legacy} {T : Tables} {since : Option Mark} {p p' : Platform} {lo hi : Int}
  {m m' : LegacyMessage} {d d' : LegacyMedia} {a a' : Int} {row : MessageRow} {owners owners' : List Owner}

/-! ## One owner -/

/-- The Telegram chat has one owner. -/
def Sole (owners : List Owner) (chat : Int) : Prop := ∃! account, ⟨.telegram, chat, account⟩ ∈ owners

theorem soleOwner_iff (h : owners.Nodup) (chat : Int) : soleOwner owners chat = true ↔ Sole owners chat := by
  let here := owners.filter fun o => o.platform = .telegram ∧ o.chat = chat
  have hmem : ∀ account, (⟨.telegram, chat, account⟩ : Owner) ∈ here ↔ ⟨.telegram, chat, account⟩ ∈ owners := by
    intro account
    simp [here]
  have hshape : ∀ o ∈ here, o = ⟨.telegram, chat, o.account⟩ := by
    rintro ⟨_, _, _⟩ ho
    simp only [here, List.mem_filter, decide_eq_true_eq] at ho
    rw [ho.2.1, ho.2.2]
  have hlength : soleOwner owners chat = true ↔ here.length = 1 := by
    simp [soleOwner, here]
  rw [hlength, List.length_eq_one_iff]
  -- owners are distinct, so one account is one row
  constructor
  · rintro ⟨o, ho⟩
    have hin : o ∈ here := by rw [ho]; exact List.mem_singleton_self o
    refine ⟨o.account, (hmem _).mp (hshape o hin ▸ hin), fun account haccount => ?_⟩
    have hother := (hmem account).mpr haccount
    rw [ho, List.mem_singleton] at hother
    exact congrArg Owner.account hother
  · rintro ⟨account, haccount, huniq⟩
    refine ⟨⟨.telegram, chat, account⟩, List.perm_singleton.mp ?_⟩
    refine (List.perm_ext_iff_of_nodup (h.filter _) (List.nodup_singleton _)).mpr fun o => ?_
    rw [List.mem_singleton]
    constructor
    · intro ho
      rw [hshape o ho]
      exact congrArg _ (huniq o.account ((hmem _).mp (hshape o ho ▸ ho)))
    · rintro rfl
      exact (hmem account).mpr haccount

theorem Sole.congr {chat : Int}
    (h : ∀ account, (⟨.telegram, chat, account⟩ : Owner) ∈ owners ↔ ⟨.telegram, chat, account⟩ ∈ owners') :
    Sole owners chat ↔ Sole owners' chat := by
  unfold Sole
  simp only [h]

/-- A post without a user sender whose `raw` says that it is the reader's own. -/
def LegacyMessage.isPost (m : LegacyMessage) : Prop := m.fromUserId = none ∧ m.rawOut = some true

instance (m : LegacyMessage) : Decidable m.isPost := inferInstanceAs (Decidable (_ ∧ _))

/-- `is_outgoing` looks at the owners of a post in a supergroup or channel only. -/
theorem outgoing_congr (h : owners.Nodup) (h' : owners'.Nodup) (hfrom : m'.fromUserId = m.fromUserId)
    (hchat : m'.chatId = m.chatId) (hpost : m'.isPost ↔ m.isPost)
    (hprivate : p = .telegram → L'.privateChat m.chatId = L.privateChat m.chatId)
    (hsole : p = .telegram → m.isPost → L.privateChat m.chatId = false →
      (Sole owners' m.chatId ↔ Sole owners m.chatId)) :
    outgoing ctx L' owners' p m' a = outgoing ctx L owners p m a := by
  unfold outgoing
  rw [hfrom]
  cases hnone : m.fromUserId with
  | some x => rfl
  | none =>
      cases p with
      | max => rfl
      | telegram =>
          have htrue : ∀ out : Option Bool, out.getD false = true ↔ out = some true := by
            rintro (_ | _ | _) <;> simp
          have hraw : m'.rawOut = some true ↔ m.rawOut = some true := by
            simpa [LegacyMessage.isPost, hfrom, hnone] using hpost
          rw [Bool.eq_iff_iff]
          simp only [hchat, hprivate rfl, Bool.and_eq_true, Bool.not_eq_true', soleOwner_iff h, soleOwner_iff h',
            htrue, hraw]
          constructor
          · rintro ⟨⟨hpriv, howner⟩, hout⟩
            exact ⟨⟨hpriv, (hsole rfl ⟨hnone, hout⟩ hpriv).mp howner⟩, hout⟩
          · rintro ⟨⟨hpriv, howner⟩, hout⟩
            exact ⟨⟨hpriv, (hsole rfl ⟨hnone, hout⟩ hpriv).mpr howner⟩, hout⟩

/-! ## The row of a message -/

/-- The owners that step C names in the legacy tables as they are. -/
def ownersNow (ctx : Ctx) (L : Legacy) : List Owner := (candidates ctx L allRules).dedup

/-- The row that the legacy tables ask for. -/
def finalRow (ctx : Ctx) (L : Legacy) (p : Platform) (m : LegacyMessage) (account : Int) : MessageRow :=
  messageRow p m m.fromUserId (outgoing ctx L (ownersNow ctx L) p m account)

/-- The columns that no conflict clause sets. -/
def MessageRow.fixed (row : MessageRow) : MessageRow :=
  { row with
    senderUserId := none
    text := none
    textHtml := none
    isEdited := false
    editedAt := none
    views := none
    raw := none
    deletedAt := none }

/-- A row of an earlier state of the message: the conflict clause of a delta can make it the message's row. -/
structure Fits (ctx : Ctx) (L : Legacy) (p : Platform) (m : LegacyMessage) (account : Int) (row : MessageRow) :
    Prop where
  fixed : row.fixed = (finalRow ctx L p m account).fixed
  sender : ∀ x, row.senderUserId = some x → m.fromUserId = some x
  edited : row.isEdited = true → m.isEdited.getD false = true ∨ (m.deleted p).isSome
  views : row.views.isSome → m.views.isSome
  deleted : ∀ t, row.deletedAt = some t → m.deleted p = some t

theorem Fits.of_messageRow {sender : Option Int} (hsender : ∀ x, sender = some x → m.fromUserId = some x) :
    Fits ctx L p m a (messageRow p m sender (outgoing ctx L (ownersNow ctx L) p m a)) :=
  ⟨rfl, hsender, Or.inl, id, fun _ => id⟩

/-- **The conflict clause of a delta.** -/
theorem Fits.conflict_eq (h : Fits ctx L p m a row) (sender : Option Int) (isOutgoing : Bool) :
    onto (messageConflict true) (some row) (messageRow p m sender isOutgoing)
      = messageRow p m (sender.or row.senderUserId) (outgoing ctx L (ownersNow ctx L) p m a) := by
  have hguard : (!row.isEdited || m.isEdited.getD false || (m.deleted p).isSome) = true := by
    cases hedited : row.isEdited with
    | false => rfl
    | true =>
        rcases h.edited hedited with hm | hm
        · rw [hm]; rfl
        · rw [hm, Bool.or_true]
  have hviews : m.views.or row.views = m.views := by
    cases hm : m.views with
    | some x => rfl
    | none =>
        cases hrow : row.views with
        | none => rfl
        | some x => simpa [hrow, hm] using h.views
  have hdeleted : row.deletedAt.or (m.deleted p) = m.deleted p := by
    cases hrow : row.deletedAt with
    | none => rfl
    | some t => rw [h.deleted t hrow]; rfl
  have hfixed := h.fixed
  simp only [MessageRow.fixed, finalRow, messageRow, MessageRow.mk.injEq, and_true, true_and] at hfixed
  obtain ⟨h1, h2, h3, h4, h5, h6, h7⟩ := hfixed
  rw [onto_some, messageConflict]
  simp only [messageRow, Bool.true_and, hguard, if_true, Option.getD_some, hviews, hdeleted, h1, h2, h3, h4, h5, h6, h7]

/-- The statement of either command on a row that fits. -/
theorem Fits.onto (h : Fits ctx L p m a row) (delta : Bool) {sender : Option Int} (isOutgoing : Bool)
    (hsender : ∀ x, sender = some x → m.fromUserId = some x) :
    Fits ctx L p m a (onto (messageConflict delta) (some row) (messageRow p m sender isOutgoing)) := by
  cases delta with
  | false => exact h
  | true =>
      rw [h.conflict_eq]
      refine Fits.of_messageRow fun x hx => ?_
      rcases Option.or_eq_some_iff.mp hx with hx | ⟨-, hx⟩
      · exact hsender x hx
      · exact h.sender x hx

/-! ## Keys -/

/-- Messages that two accounts want under one key are one message. -/
theorem Wants.eq_of_key (hL : L.Valid ctx) (h : Wants ctx L p m a) (h' : Wants ctx L p' m' a')
    (hkey : keyOf a m = keyOf a' m') : p = p' ∧ m = m' ∧ a = a' := by
  obtain ⟨rfl, hchat, hmessage⟩ := MessageKey.mk.injEq .. ▸ hkey
  obtain rfl := (h.accountOn hL).unique (h'.accountOn hL)
  exact ⟨rfl, hL.eq_of_key h.message h'.message hchat hmessage, rfl⟩

/-! ## Step G at a key -/

/-- The statement selects the message for the account. -/
structure Hit (ctx : Ctx) (L : Legacy) (T : Tables) (since : Option Mark) (p : Platform) (lo hi : Int)
    (m : LegacyMessage) (account : Int) : Prop where
  message : m ∈ L.messages p
  inBatch : inBatch since p lo hi m = true
  owner : ⟨p, m.chatId, account⟩ ∈ T.owners
  hasAccount : (ctx.accountOf account).isSome
  chat : (account, m.chatId) ∈ T.chats
  takes : takes ctx L p m account = true

/-- The row it selects. -/
def newRow (ctx : Ctx) (L : Legacy) (T : Tables) (p : Platform) (m : LegacyMessage) (account : Int) : MessageRow :=
  messageRow p m (senderOf T m account) (outgoing ctx L T.owners p m account)

theorem mem_selectMessages {k : MessageKey} :
    (k, row) ∈ selectMessages ctx L T since p lo hi ↔
      ∃ m a, Hit ctx L T since p lo hi m a ∧ k = keyOf a m ∧ row = newRow ctx L T p m a := by
  unfold selectMessages
  simp only [List.mem_flatMap, List.mem_map, List.mem_filter, receives, decide_eq_true_eq, Prod.mk.injEq]
  constructor
  · rintro ⟨m, ⟨hm, hbatch⟩, ⟨_, _, a⟩, ⟨ho, rfl, rfl, hacc, hchat, htakes⟩, rfl, rfl⟩
    exact ⟨m, a, ⟨hm, hbatch, ho, hacc, hchat, htakes⟩, rfl, rfl⟩
  · rintro ⟨m, a, h, rfl, rfl⟩
    exact ⟨m, ⟨h.message, h.inBatch⟩, ⟨p, m.chatId, a⟩,
      ⟨h.owner, rfl, rfl, h.hasAccount, h.chat, h.takes⟩, rfl, rfl⟩

theorem Hit.wants (howners : ∀ o ∈ T.owners, o ∈ candidates ctx L allRules) (h : Hit ctx L T since p lo hi m a) :
    Wants ctx L p m a :=
  ⟨h.message, howners _ h.owner, h.takes⟩

/-- The row of a message that the statement selects. -/
theorem stepGMessages_hit (hL : L.Valid ctx) (h : Hit ctx L T since p lo hi m a) :
    (stepGMessages ctx L T since p lo hi).messages (keyOf a m)
      = some (onto (messageConflict since.isSome) (T.messages (keyOf a m)) (newRow ctx L T p m a)) := by
  apply Table.insertSelect_of_mem (mem_selectMessages.mpr ⟨m, a, h, rfl, rfl⟩)
  intro row hrow
  obtain ⟨m', a', h', hkey, rfl⟩ := mem_selectMessages.mp hrow
  obtain ⟨rfl, hchat, hmessage⟩ := MessageKey.mk.injEq .. ▸ hkey
  rw [hL.eq_of_key h.message h'.message hchat hmessage]

/-- The row of a message that the statement does not select. -/
theorem stepGMessages_miss (hL : L.Valid ctx) (howners : ∀ o ∈ T.owners, o ∈ candidates ctx L allRules)
    (hwants : Wants ctx L p' m' a') (h : ¬ (p = p' ∧ Hit ctx L T since p' lo hi m' a')) :
    (stepGMessages ctx L T since p lo hi).messages (keyOf a' m') = T.messages (keyOf a' m') := by
  apply Table.insertSelect_of_notMem
  intro row hrow
  obtain ⟨m, a, hhit, hkey, -⟩ := mem_selectMessages.mp hrow
  obtain ⟨rfl, rfl, rfl⟩ := hwants.eq_of_key hL (hhit.wants howners) hkey
  exact h ⟨rfl, hhit⟩

/-- Where a row after the statement comes from. -/
theorem of_stepGMessages {k : MessageKey} (h : (stepGMessages ctx L T since p lo hi).messages k = some row) :
    T.messages k = some row ∨ ∃ m a, Hit ctx L T since p lo hi m a ∧ k = keyOf a m ∧
      row = onto (messageConflict since.isSome) (T.messages k) (newRow ctx L T p m a) := by
  rcases Table.of_insertSelect h with h | ⟨new, hnew, rfl⟩
  · exact Or.inl h
  · obtain ⟨m, a, hhit, hk, rfl⟩ := mem_selectMessages.mp hnew
    exact Or.inr ⟨m, a, hhit, hk, rfl⟩

/-! ## Step H at a key -/

/-- The statement selects the media row for the account. -/
structure MediaHit (L : Legacy) (T : Tables) (since : Option Mark) (p : Platform) (lo hi : Int) (d : LegacyMedia)
    (m : LegacyMessage) (account : Int) : Prop where
  media : d ∈ L.media p
  inBatch : lo < d.id ∧ d.id ≤ hi
  filter : ∀ w, since = some w → lateMedia w p d = true
  message : m ∈ L.messages p
  ofMessage : d.messagePk = m.id
  owner : ⟨p, m.chatId, account⟩ ∈ T.owners
  chat : (account, m.chatId) ∈ T.chats
  row : (T.messages (keyOf account m)).isSome

theorem mem_selectMedia {k : MediaKey} {row : MediaRow} :
    (k, row) ∈ selectMedia L T since p lo hi ↔
      ∃ d m a, MediaHit L T since p lo hi d m a ∧ k = ⟨keyOf a m, d.attach p⟩ ∧ row = mediaRow d := by
  unfold selectMedia
  simp only [List.mem_flatMap, List.mem_map, List.mem_filter, decide_eq_true_eq, Bool.and_eq_true, Prod.mk.injEq]
  constructor
  · rintro ⟨d, ⟨hd, hbatch, hfilter⟩, m, ⟨hm, hof⟩, ⟨_, _, a⟩, ⟨ho, rfl, rfl, hchat, hrow⟩, rfl, rfl⟩
    refine ⟨d, m, a, ⟨hd, hbatch, ?_, hm, hof.symm, ho, hchat, hrow⟩, rfl, rfl⟩
    rintro w rfl
    exact hfilter
  · rintro ⟨d, m, a, h, rfl, rfl⟩
    refine ⟨d, ⟨h.media, h.inBatch, ?_⟩, m, ⟨h.message, h.ofMessage.symm⟩, ⟨p, m.chatId, a⟩,
      ⟨h.owner, rfl, rfl, h.chat, h.row⟩, rfl, rfl⟩
    cases since with
    | none => rfl
    | some w => exact h.filter w rfl

theorem stepHMedia_hit (h : MediaHit L T since p lo hi d m a) :
    ((stepHMedia L T since p lo hi).media ⟨keyOf a m, d.attach p⟩).isSome := by
  show (Table.insertSelect _ _ _ _).isSome
  unfold Table.insertSelect
  split
  · rename_i hnone
    have hmem := mem_selectMedia.mpr ⟨d, m, a, h, rfl, rfl⟩
    exact absurd (List.find?_eq_none.mp hnone _ hmem) (by simp)
  · rfl

theorem of_stepHMedia {k : MediaKey} {row : MediaRow} (h : (stepHMedia L T since p lo hi).media k = some row) :
    T.media k = some row ∨ ∃ d m a, MediaHit L T since p lo hi d m a ∧ k = ⟨keyOf a m, d.attach p⟩ ∧
      row = mediaRow d := by
  rcases Table.of_insertSelect h with h | ⟨new, hnew, hrow⟩
  · exact Or.inl h
  · obtain ⟨d, m, a, hhit, hk, rfl⟩ := mem_selectMedia.mp hnew
    cases hold : T.media k with
    | none =>
        rw [hold] at hrow
        exact Or.inr ⟨d, m, a, hhit, hk, hrow⟩
    | some old =>
        rw [hold] at hrow
        exact Or.inl (by rw [hrow]; rfl)

end MyPerson.Isolation
