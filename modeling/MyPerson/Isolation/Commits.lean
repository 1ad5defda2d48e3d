import MyPerson.Isolation.Facts

/-!
# `Isolation.Commits` — legacy writes that the next delta carries

A delta finds what changed by ids and timestamps, and changes some columns of a copied row. `Carries` is the
condition on a run under which that is enough. It speaks of the legacy tables before and after a transaction, of
what the run has already copied, and of the delta's own filter, taken at the watermark and at the position that a
delta under way has read.

## Contents
- `State.marks`, the positions that later deltas start from;
- `Keeps`, `Follows`, `Ahead`, `Carries`;
- what a transaction keeps: `Kept.commit`, `Current.commit`, `Whole.commit`, `Facts.commit`.
-/

namespace MyPerson.Isolation

open Lib
open WriteLimits (Platform)

/-! ## The condition -/

/-- The position that a delta will write, once it has read it. -/
def RunState.mark (r : RunState) : Option Mark :=
  match r.since, r.stage with
  | none, _ => none
  | some _, .reading _ => none
  | some _, _ => some r.position

def State.marks (s : State) : List Mark := s.watermark.toList ++ (s.run.bind RunState.mark).toList

/-- A write to a message that the conflict clause can follow: the columns it does not set stay, `is_edited` falls
    only with a deletion, views are not cleared, a deletion keeps its time. -/
structure Keeps (p : Platform) (m m' : LegacyMessage) : Prop where
  id : m'.id = m.id
  chat : m'.chatId = m.chatId
  message : m'.messageId = m.messageId
  fromUser : m'.fromUserId = m.fromUserId
  post : m'.isPost ↔ m.isPost
  fixed : (messageRow p m' none false).fixed = (messageRow p m none false).fixed
  edited : m.isEdited.getD false = true → m'.isEdited.getD false = true ∨ (m'.deleted p).isSome
  views : m.views.isSome → m'.views.isSome
  deleted : ∀ t, m.deleted p = some t → m'.deleted p = some t

/-- An account has the row of the message. -/
def Copied (ctx : Ctx) (s : State) (p : Platform) (m : LegacyMessage) : Prop :=
  ∃ a, Wants ctx s.legacy p m a ∧ (s.tables.messages (keyOf a m)).isSome

def CopiedMedia (ctx : Ctx) (s : State) (p : Platform) (m : LegacyMessage) (d : LegacyMedia) : Prop :=
  ∃ a, Wants ctx s.legacy p m a ∧ (s.tables.media ⟨keyOf a m, d.attach p⟩).isSome

/-- The run has asked for owners, and has not yet copied the Telegram messages. -/
def Stage.usesOwners : Stage → Bool
  | .owners _ _ | .preconditions | .chats _ | .users | .messages .telegram _ => true
  | _ => false

/-- What is copied can follow the transaction. -/
structure Follows (ctx : Ctx) (s : State) (L' : Legacy) : Prop where
  owners : ∀ o ∈ s.tables.owners, o ∈ candidates ctx L' allRules
  staged : ∀ r rest got, s.run = some r → r.stage = .owners rest got →
    (∀ o ∈ got, o ∈ candidates ctx L' allRules) ∧ ∀ o ∈ candidates ctx s.legacy rest, o ∈ candidates ctx L' rest
  kept : ∀ p m, Copied ctx s p m → ∃ m' ∈ L'.messages p, Keeps p m m'
  private_ : ∀ m, Copied ctx s .telegram m → L'.privateChat m.chatId = s.legacy.privateChat m.chatId
  posts : ∀ m, Copied ctx s .telegram m → m.isPost → s.legacy.privateChat m.chatId = false →
    (Sole (candidates ctx L' allRules) m.chatId ↔ Sole (candidates ctx s.legacy allRules) m.chatId)
  settled : ∀ r, s.run = some r → r.stage.usesOwners = true →
    PostsKnown ctx L' (ownersAhead ctx L' s.tables r.stage)
  media : ∀ p m d, d ∈ s.legacy.media p → d.messagePk = m.id → CopiedMedia ctx s p m d → d ∈ L'.media p

/-- What is new passes the filter. -/
structure Ahead (ctx : Ctx) (E : Excuse) (L L' : Legacy) : Prop where
  changed : ∀ p m a, Wants ctx L' p m a → m ∈ L.messages p ∨ E.pending p m
  gained : ∀ p m a, Wants ctx L' p m a →
    (∃ m₀, Wants ctx L p m₀ a ∧ m₀.id = m.id ∧ m₀.chatId = m.chatId ∧ m₀.messageId = m.messageId) ∨
      (Late E L' p m ∧ (Young E L' p m.chatId ∨ ∃ m₀, Wants ctx L p m₀ a ∧ m₀.chatId = m.chatId))
  media : ∀ p m a d, Wants ctx L' p m a → d ∈ L'.media p → d.messagePk = m.id → d ∈ L.media p ∨ E.late p d
  chats : ∀ p m a, Wants ctx L p m a → Young E L p m.chatId → Young E L' p m.chatId

/-- The condition on the steps of a run: a transaction leaves nothing to a delta that the delta does not carry, and
    a delta starts after a whole copy. -/
def Carries (ctx : Ctx) (s : State) : Action → Prop
  | .commit L' => L'.Valid ctx ∧ Follows ctx s L' ∧ ∀ w ∈ s.marks, Ahead ctx w.excuse s.legacy L'
  | .startDelta => s.copied = true
  | _ => True

/-! ## What is late stays late -/

section

variable {ctx : Ctx} {E : Excuse} {L L' : Legacy} {T : Tables} {p : Platform} {m m₀ : LegacyMessage} {a : Int}

/-- What a message that is wanted after the transaction was before. -/
theorem Ahead.before (h : Ahead ctx E L L') (hL : L.Valid ctx) (hw : Wants ctx L' p m a) :
    Wants ctx L p m a ∨ E.pending p m := by
  rcases h.changed p m a hw with hm | hpending
  · rcases h.gained p m a hw with ⟨m₀, hw₀, hid, -, -⟩ | ⟨hlate, -⟩
    · rw [← hL.eq_of_id hw₀.message hm hid]
      exact Or.inl hw₀
    · exact Or.inr hlate.1
  · exact Or.inr hpending

theorem Ahead.pending (h : Ahead ctx E L L') (hL : L.Valid ctx) (hw : Wants ctx L' p m a) (hm₀ : m₀ ∈ L.messages p)
    (hid : m₀.id = m.id) (hpending : E.pending p m₀) : E.pending p m := by
  rcases h.changed p m a hw with hm | hpending'
  · rw [← hL.eq_of_id hm₀ hm hid]
    exact hpending
  · exact hpending'

theorem Ahead.late (h : Ahead ctx E L L') (hL : L.Valid ctx) (hw : Wants ctx L' p m a) (hm₀ : m₀ ∈ L.messages p)
    (hid : m₀.id = m.id) (hlate : Late E L p m₀) : Late E L' p m := by
  refine ⟨h.pending hL hw hm₀ hid hlate.1, fun d hd hof => ?_⟩
  rcases h.media p m a d hw hd hof with hd' | hlate'
  · exact hlate.2 d hd' (hof.trans hid.symm)
  · exact hlate'

theorem PlaceKnown.commit {known : Int → Int → Prop} (h : PlaceKnown ctx E L p known) (hL : L.Valid ctx)
    (hahead : Ahead ctx E L L') : PlaceKnown ctx E L' p known := by
  intro m a hw
  rcases hahead.gained p m a hw with ⟨m₀, hw₀, hid, hchat, -⟩ | ⟨hlate, hyoung | ⟨m₀, hw₀, hchat⟩⟩
  · rcases h m₀ a hw₀ with hknown | ⟨hlate, hyoung⟩
    · exact Or.inl (hchat ▸ hknown)
    · exact Or.inr ⟨hahead.late hL hw hw₀.message hid hlate, hchat ▸ hahead.chats p m₀ a hw₀ hyoung⟩
  · exact Or.inr ⟨hlate, hyoung⟩
  · -- another message of the chat has shown whether the account has a place for it
    rcases h m₀ a hw₀ with hknown | ⟨-, hyoung⟩
    · exact Or.inl (hchat ▸ hknown)
    · exact Or.inr ⟨hlate, hchat ▸ hahead.chats p m₀ a hw₀ hyoung⟩

theorem SendersKnown.commit {known : Platform → Int → Int → Prop} (h : SendersKnown ctx E L known) (hL : L.Valid ctx)
    (hahead : Ahead ctx E L L') : SendersKnown ctx E L' known := by
  intro p m a x hw hx
  rcases hahead.before hL hw with hw₀ | hpending
  · exact h p m a x hw₀ hx
  · exact Or.inr hpending

theorem MediaKnown.commit {done : Int → Prop} (h : MediaKnown ctx E L T p done) (hahead : Ahead ctx E L L') :
    MediaKnown ctx E L' T p done := by
  intro m a d hw hd hof hdone
  rcases hahead.media p m a d hw hd hof with hd₀ | hlate
  · rcases hahead.gained p m a hw with ⟨m₀, hw₀, hid, hchat, hmessage⟩ | ⟨hlate, -⟩
    · have hkey : keyOf a m₀ = keyOf a m := by rw [keyOf, keyOf, hchat, hmessage]
      exact hkey ▸ h m₀ a d hw₀ hd₀ (hof.trans hid.symm) hdone
    · exact Or.inr (hlate.2 d hd hof)
  · exact Or.inr hlate

theorem Whole.commit (h : Whole ctx E L T) (hL : L.Valid ctx) (hahead : Ahead ctx E L L') : Whole ctx E L' T := by
  refine ⟨?chats, ?rows, ?media⟩
  case chats =>
    intro p m a hw
    have hold : ∀ m₀, Wants ctx L p m₀ a → m₀.chatId = m.chatId →
        (a, m.chatId) ∈ T.chats ∨ Young E L' p m.chatId := by
      intro m₀ hw₀ hchat
      rw [← hchat]
      exact (h.chats p m₀ a hw₀).imp_right (hahead.chats p m₀ a hw₀)
    rcases hahead.gained p m a hw with ⟨m₀, hw₀, -, hchat, -⟩ | ⟨-, hyoung | ⟨m₀, hw₀, hchat⟩⟩
    · exact hold m₀ hw₀ hchat
    · exact Or.inr hyoung
    · exact hold m₀ hw₀ hchat
  case rows =>
    intro p m a hw
    rcases hahead.before hL hw with hw₀ | hpending
    · exact h.rows p m a hw₀
    · exact Or.inr hpending
  case media =>
    intro p m a d hw hd hof
    have hknown : MediaKnown ctx E L T p always := fun m a d hw hd hof _ => h.media p m a d hw hd hof
    exact hknown.commit hahead m a d hw hd hof trivial

end

/-! ## What is copied follows -/

section

variable {ctx : Ctx} {E : Excuse} {s : State} {L' : Legacy} {p : Platform} {m m' : LegacyMessage} {a : Int}
  {row : MessageRow}

theorem Keeps.keyOf_eq (h : Keeps p m m') (a : Int) : keyOf a m' = keyOf a m := by
  rw [keyOf, keyOf, h.chat, h.message]

theorem Copied.of_row (hw : Wants ctx s.legacy p m a) (hrow : s.tables.messages (keyOf a m) = some row) :
    Copied ctx s p m :=
  ⟨a, hw, by rw [hrow]; rfl⟩

theorem Legacy.Valid.takes_telegram {L : Legacy} (hL : L.Valid ctx) (hm : m ∈ L.messages .telegram) (a : Int) :
    takes ctx L .telegram m a = (!L.privateChat m.chatId || a == ownerD ctx m) := by
  obtain ⟨c, hc⟩ := Option.isSome_iff_exists.mp (hL.chatExists .telegram m hm)
  simp [takes, Legacy.privateChat, hc]

theorem Keeps.ownerD_eq (h : Keeps p m m') : ownerD ctx m' = ownerD ctx m := by
  have hdate : m'.tgDate = m.tgDate := congrArg MessageRow.sentAt h.fixed
  rw [ownerD, ownerD, hdate, h.message]

/-- An account that has the row of a message wants it after the transaction. -/
theorem Follows.wants (h : Follows ctx s L') (hL : s.legacy.Valid ctx) (hL' : L'.Valid ctx) (hcopied : Copied ctx s p m)
    (hw : Wants ctx s.legacy p m a) (howner : ⟨p, m.chatId, a⟩ ∈ s.tables.owners) (hkeeps : Keeps p m m')
    (hm' : m' ∈ L'.messages p) : Wants ctx L' p m' a := by
  refine ⟨hm', hkeeps.chat ▸ h.owners _ howner, ?_⟩
  cases p with
  | max => rfl
  | telegram =>
      have htakes := hw.takes
      rw [hL.takes_telegram hw.message] at htakes
      rw [hL'.takes_telegram hm', hkeeps.chat, h.private_ m hcopied, hkeeps.ownerD_eq]
      exact htakes

theorem Follows.outgoing_eq (h : Follows ctx s L') (hcopied : Copied ctx s p m) (hkeeps : Keeps p m m') (a : Int) :
    outgoing ctx L' (ownersNow ctx L') p m' a = outgoing ctx s.legacy (ownersNow ctx s.legacy) p m a := by
  have hnow : ∀ L, Sole (ownersNow ctx L) m.chatId ↔ Sole (candidates ctx L allRules) m.chatId :=
    fun L => Sole.congr fun _ => List.mem_dedup
  refine outgoing_congr (List.nodup_dedup _) (List.nodup_dedup _) hkeeps.fromUser hkeeps.chat hkeeps.post ?_ ?_
  · rintro rfl
    exact h.private_ m hcopied
  · rintro rfl hpost hprivate
    rw [hnow, hnow]
    exact h.posts m hcopied hpost hprivate

theorem Follows.fits (h : Follows ctx s L') (hcopied : Copied ctx s p m) (hkeeps : Keeps p m m')
    (hfits : Fits ctx s.legacy p m a row) : Fits ctx L' p m' a row := by
  refine ⟨?fixed, ?sender, ?edited, ?views, ?deleted⟩
  case fixed =>
    rw [hfits.fixed, finalRow, finalRow, h.outgoing_eq hcopied hkeeps]
    exact (congrArg (fun fixed : MessageRow =>
      { fixed with isOutgoing := outgoing ctx s.legacy (ownersNow ctx s.legacy) p m a }) hkeeps.fixed).symm
  case sender =>
    intro x hx
    rw [hkeeps.fromUser]
    exact hfits.sender x hx
  case edited =>
    intro hrow
    rcases hfits.edited hrow with hm | hm
    · exact hkeeps.edited hm
    · obtain ⟨t, ht⟩ := Option.isSome_iff_exists.mp hm
      exact Or.inr (by rw [hkeeps.deleted t ht]; rfl)
  case views => exact fun hrow => hkeeps.views (hfits.views hrow)
  case deleted => exact fun t ht => hkeeps.deleted t (hfits.deleted t ht)

/-- **The row of a message after the transaction** is the row of that message before it. -/
theorem Follows.copied_row (h : Follows ctx s L') (hL : s.legacy.Valid ctx) (hL' : L'.Valid ctx)
    (hkept : Kept ctx s.legacy s.tables) (hw' : Wants ctx L' p m' a)
    (hrow : s.tables.messages (keyOf a m') = some row) :
    ∃ m, Wants ctx s.legacy p m a ∧ Copied ctx s p m ∧ Keeps p m m' ∧ keyOf a m = keyOf a m' := by
  obtain ⟨q, m, b, hw, hk, howner, -⟩ := hkept.rows _ _ hrow
  have hcopied : Copied ctx s q m := .of_row hw (hk ▸ hrow)
  obtain ⟨m₁, hm₁, hkeeps⟩ := h.kept q m hcopied
  have hw₁ := h.wants hL hL' hcopied hw howner hkeeps hm₁
  obtain ⟨rfl, rfl, rfl⟩ := hw'.eq_of_key hL' hw₁ (hk.trans (hkeeps.keyOf_eq b).symm)
  exact ⟨m, hw, hcopied, hkeeps, hk.symm⟩

/-- A final row is final after the transaction, or its message is excused. -/
theorem Follows.final (h : Follows ctx s L') (hL : s.legacy.Valid ctx) (hL' : L'.Valid ctx)
    (hkept : Kept ctx s.legacy s.tables) (hahead : Ahead ctx E s.legacy L') (hw' : Wants ctx L' p m' a)
    (hrow : s.tables.messages (keyOf a m') = some row)
    (hfinal : ∀ m, Wants ctx s.legacy p m a → keyOf a m = keyOf a m' → m.id = m'.id →
      row = finalRow ctx s.legacy p m a ∨ E.pending p m) :
    row = finalRow ctx L' p m' a ∨ E.pending p m' := by
  obtain ⟨m, hw, hcopied, hkeeps, hkey⟩ := h.copied_row hL hL' hkept hw' hrow
  rcases hahead.changed p m' a hw' with hm' | hpending
  · obtain rfl : m = m' := hL.eq_of_id hw.message hm' hkeeps.id.symm
    refine (hfinal m hw rfl rfl).imp_left fun hfinal => ?_
    rw [hfinal, finalRow, finalRow, h.outgoing_eq hcopied hkeeps]
  · exact Or.inr hpending

/-! ## What a transaction keeps -/

theorem Kept.commit (hkept : Kept ctx s.legacy s.tables) (h : Follows ctx s L') (hL : s.legacy.Valid ctx)
    (hL' : L'.Valid ctx) : Kept ctx L' s.tables := by
  have hkeep : ∀ p m a, Wants ctx s.legacy p m a → (⟨p, m.chatId, a⟩ : Owner) ∈ s.tables.owners → Copied ctx s p m →
      ∃ m', Wants ctx L' p m' a ∧ Keeps p m m' := by
    intro p m a hw howner hcopied
    obtain ⟨m', hm', hkeeps⟩ := h.kept p m hcopied
    exact ⟨m', h.wants hL hL' hcopied hw howner hkeeps hm', hkeeps⟩
  refine ⟨hkept.nodup, h.owners, fun k row hrow => ?_, fun k row hrow => ?_⟩
  · obtain ⟨p, m, a, hw, rfl, howner, hfits⟩ := hkept.rows k row hrow
    have hcopied : Copied ctx s p m := .of_row hw hrow
    obtain ⟨m', hw', hkeeps⟩ := hkeep p m a hw howner hcopied
    exact ⟨p, m', a, hw', (hkeeps.keyOf_eq a).symm, hkeeps.chat ▸ howner, h.fits hcopied hkeeps hfits⟩
  · obtain ⟨p, d, m, a, hw, hd, hof, rfl, rfl, hmessage⟩ := hkept.media k row hrow
    obtain ⟨row', hrow'⟩ := Option.isSome_iff_exists.mp hmessage
    obtain ⟨q, m₀, b, hw₀, hkey, howner, -⟩ := hkept.rows _ _ hrow'
    obtain ⟨rfl, rfl, rfl⟩ := hw.eq_of_key hL hw₀ hkey
    obtain ⟨m', hw', hkeeps⟩ := hkeep p m a hw howner ⟨a, hw, hmessage⟩
    have hd' := h.media p m d hd hof ⟨a, hw, by rw [hrow]; rfl⟩
    refine ⟨p, d, m', a, hw', hd', hof.trans hkeeps.id.symm, ?_, rfl, ?_⟩
    · rw [hkeeps.keyOf_eq]
    · rw [hkeeps.keyOf_eq]
      exact hmessage

theorem Current.commit (hcurrent : Current ctx E s.legacy s.tables) (h : Follows ctx s L') (hL : s.legacy.Valid ctx)
    (hL' : L'.Valid ctx) (hkept : Kept ctx s.legacy s.tables) (hahead : Ahead ctx E s.legacy L') :
    Current ctx E L' s.tables := by
  intro p m' a row hw' hrow
  exact h.final hL hL' hkept hahead hw' hrow fun m hw hkey _ => hcurrent p m a row hw (hkey ▸ hrow)

theorem RowsKnown.commit {done : Int → Prop} (hrows : RowsKnown ctx E s.legacy s.tables p done)
    (h : Follows ctx s L') (hL : s.legacy.Valid ctx) (hL' : L'.Valid ctx) (hkept : Kept ctx s.legacy s.tables)
    (hahead : Ahead ctx E s.legacy L') : RowsKnown ctx E L' s.tables p done := by
  intro m' a hw' hdone
  cases hrow : s.tables.messages (keyOf a m') with
  | some row =>
      refine Or.inl ⟨row, rfl, h.final hL hL' hkept hahead hw' hrow fun m hw hkey hid => ?_⟩
      rcases hrows m a hw (hid ▸ hdone) with ⟨row', hrow', hfinal⟩ | ⟨hnone, -⟩
      · rw [hkey, hrow] at hrow'
        cases hrow'
        exact hfinal
      · rw [hkey, hrow] at hnone
        cases hnone
  | none =>
      refine Or.inr ⟨rfl, ?_⟩
      rcases hahead.gained p m' a hw' with ⟨m₀, hw₀, hid, hchat, hmessage⟩ | ⟨hlate, -⟩
      · have hkey : keyOf a m₀ = keyOf a m' := by rw [keyOf, keyOf, hchat, hmessage]
        rcases hrows m₀ a hw₀ (hid ▸ hdone) with ⟨row, hrow', -⟩ | ⟨-, hlate⟩
        · rw [hkey, hrow] at hrow'
          cases hrow'
        · exact hahead.late hL hw' hw₀.message hid hlate
      · exact hlate

/-- **Transaction.** The facts of a run hold after it. -/
theorem Facts.commit {r : RunState} (hr : s.run = some r) (hfacts : Facts ctx E s.legacy s.tables r.stage)
    (h : Follows ctx s L') (hL : s.legacy.Valid ctx) (hL' : L'.Valid ctx) (hkept : Kept ctx s.legacy s.tables)
    (hahead : Ahead ctx E s.legacy L') : Facts ctx E L' s.tables r.stage := by
  have hposts := h.settled r hr
  have hstaged := h.staged r
  have hnamed : ∀ {ahead ahead'}, ahead ⊆ ahead' → Named ctx E s.legacy s.tables ahead → PostsKnown ctx L' ahead' →
      Named ctx E L' s.tables ahead' := fun hsub hn hp =>
    ⟨hn.senders.commit hL hahead, fun p => ((hn.owners.mono hsub) p).commit hL hahead, hp⟩
  have hplaced : Placed ctx E s.legacy s.tables → Placed ctx E L' s.tables := fun hp =>
    ⟨fun p => (hp.owners p).commit hL hahead, fun p => (hp.chats p).commit hL hahead, hp.senders.commit hL hahead⟩
  have hrows : ∀ {q done}, RowsKnown ctx E s.legacy s.tables q done → RowsKnown ctx E L' s.tables q done :=
    fun hq => hq.commit h hL hL' hkept hahead
  cases hstage : r.stage with
  | reading rest => exact trivial
  | identities => exact trivial
  | owners rest got =>
      -- what is still to be selected is selected of the new tables
      rw [hstage] at hfacts hposts
      obtain ⟨hgot, hrest⟩ := hstaged rest got hr hstage
      refine ⟨hnamed ?_ hfacts.1 (hposts rfl), hgot⟩
      intro o ho
      simp only [ownersAhead, List.mem_append] at ho ⊢
      exact ho.imp_right fun ho => ho.imp_right (hrest o)
  | preconditions =>
      rw [hstage] at hfacts hposts
      exact hnamed (List.Subset.refl _) hfacts (hposts rfl)
  | chats got =>
      rw [hstage] at hfacts hposts
      cases got with
      | none => exact hnamed (List.Subset.refl _) hfacts (hposts rfl)
      | some got => exact ⟨hnamed (List.Subset.refl _) hfacts.1 (hposts rfl), hfacts.2.commit hL hahead⟩
  | users =>
      rw [hstage] at hfacts hposts
      exact ⟨hnamed (List.Subset.refl _) hfacts.1 (hposts rfl), fun p => (hfacts.2 p).commit hL hahead⟩
  | messages p range =>
      rw [hstage] at hfacts hposts
      obtain ⟨hp, -, hmax, hrange⟩ := hfacts
      refine ⟨hplaced hp, ?_, fun hmax' => hrows (hmax hmax'), fun lo hi heq => hrows (hrange lo hi heq)⟩
      rintro rfl
      exact hposts rfl
  | media p range =>
      rw [hstage] at hfacts
      obtain ⟨hp, hall, hmax, hrange⟩ := hfacts
      exact ⟨hplaced hp, fun q => hrows (hall q), fun hmax' => (hmax hmax').commit hahead,
        fun lo hi heq => (hrange lo hi heq).commit hahead⟩
  | rest =>
      rw [hstage] at hfacts
      obtain ⟨hchats, hall, hmedia⟩ := hfacts
      exact ⟨fun p => (hchats p).commit hL hahead, fun p => hrows (hall p), fun p => (hmedia p).commit hahead⟩

end

end MyPerson.Isolation
