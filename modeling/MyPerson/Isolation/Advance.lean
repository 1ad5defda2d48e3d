import MyPerson.Isolation.Facts

/-!
# `Isolation.Advance` — what a statement of a run adds to the facts

One lemma for each step: what was known of the tables before it, up to an excuse, and what is known after it. A
copy rests on the rows it finds being final up to its own excuse; a delta on all that the watermark promises, since
it passes over what is older.

## Contents
- `Basis`, what a run rests on;
- steps B, C, E and F;
- step G: `hit_final`, `RowsKnown.stepG`, `Kept.stepG`, `Basis.stepG`;
- step H: `MediaKnown.stepH`, `Kept.stepH`;
- `runStage_facts`, the step lemma, and `runStage_grows`.
-/

namespace MyPerson.Isolation

open Lib
open WriteLimits (Platform)

variable {ctx : Ctx} {E : Excuse} {L : Legacy} {T T' : Tables} {since : Option Mark} {p q : Platform} {lo hi : Int}
  {m : LegacyMessage} {a : Int} {row : MessageRow}

/-- What the steps of a run rest on. -/
def Basis (ctx : Ctx) (E : Excuse) (L : Legacy) (T : Tables) : Option Mark → Prop
  | none => Current ctx E L T
  | some w => Current ctx w.excuse L T ∧ Whole ctx w.excuse L T

/-! ## Steps B and C -/

theorem Named.congr {ahead ahead' : List Owner} (h : Named ctx E L T ahead) (hmem : ∀ o, o ∈ ahead ↔ o ∈ ahead') :
    Named ctx E L T ahead' :=
  ⟨h.senders, h.owners.mono fun o ho => (hmem o).mp ho, fun m hm hpost hprivate =>
    (Sole.congr fun _ => (hmem _).symm).trans (h.posts m hm hpost hprivate)⟩

theorem mem_identitySources {x : Int} (hm : m ∈ L.messages p) (hx : m.fromUserId = some x) :
    (p, x) ∈ identitySources ctx L := by
  have hmem : x ∈ (L.messages p).filterMap LegacyMessage.fromUserId := List.mem_filterMap.mpr ⟨m, hm, hx⟩
  have hpair := List.mem_map_of_mem (f := fun x => (p, x)) hmem
  unfold identitySources
  cases p <;> simp only [List.mem_append] <;> tauto

/-- After step B every sender has an identity, and step C is still to select all owners. -/
theorem Named.stepB (hkept : Kept ctx L T) :
    Named ctx E L (stepBIdentities ctx L T) (ownersAhead ctx L (stepBIdentities ctx L T) (.owners allRules [])) := by
  have hahead : ∀ o, o ∈ ownersAhead ctx L (stepBIdentities ctx L T) (.owners allRules []) ↔
      o ∈ candidates ctx L allRules := by
    intro o
    show o ∈ T.owners ++ ([] ++ candidates ctx L allRules) ↔ _
    rw [List.nil_append, List.mem_append]
    exact ⟨fun ho => ho.elim (hkept.owners o) id, Or.inr⟩
  refine ⟨fun p m a x hw hx => ?_, fun p m a hw => ?_, fun m _ _ _ => Sole.congr fun _ => hahead _⟩
  · exact Or.inl (mem_insertKeys.mpr (Or.inr (mem_identitySources hw.message hx)))
  · exact Or.inl ((hahead _).mpr hw.owner)

theorem mem_allRules (rule : Rule) : rule ∈ allRules := by
  cases rule <;> decide

theorem candidatesBy_subset {o : Owner} {rule : Rule} (h : o ∈ candidatesBy ctx L rule) :
    o ∈ candidates ctx L allRules :=
  List.mem_flatMap.mpr ⟨rule, mem_allRules rule, h⟩

theorem Kept.stepC {got : List Owner} (h : Kept ctx L T) (hgot : ∀ o ∈ got, o ∈ candidates ctx L allRules) :
    Kept ctx L { T with owners := insertKeys T.owners got } := by
  refine ⟨nodup_insertKeys h.nodup, fun o ho => ?_, fun k row hrow => ?_, h.media⟩
  · exact (mem_insertKeys.mp ho).elim (h.owners o) (hgot o)
  · obtain ⟨p, m, a, hw, hk, howner, hfits⟩ := h.rows k row hrow
    exact ⟨p, m, a, hw, hk, mem_insertKeys.mpr (Or.inl howner), hfits⟩

/-! ## Steps E and F -/

/-- A delta copies the chats that are younger than its mark; the others were there. -/
theorem ChatsKnown.stepE (hL : L.Valid ctx) (howners : OwnersKnown ctx E L T.owners)
    (hbasis : Basis ctx E L T since) (p : Platform) :
    ChatsKnown ctx E L p (T.chats ++ chatsToCopy L since T.owners p) := by
  intro m a hw
  rcases howners p m a hw with howner | hlate
  · refine Or.inl ?_
    obtain ⟨c, hc⟩ := Option.isSome_iff_exists.mp (hL.chatExists p m hw.message)
    have hcopy : (since.all fun w => young w c) = true → (a, m.chatId) ∈ chatsToCopy L since T.owners p := by
      intro hsince
      refine List.mem_map.mpr ⟨⟨p, m.chatId, a⟩, List.mem_filter.mpr ⟨howner, ?_⟩, rfl⟩
      simp [hc, hsince]
    rw [List.mem_append]
    cases since with
    | none => exact Or.inr (hcopy rfl)
    | some w =>
        rcases hbasis.2.chats p m a hw with hchat | ⟨c', hc', hyoung⟩
        · exact Or.inl hchat
        · obtain rfl : c = c' := Option.some.inj (hc.symm.trans hc')
          exact Or.inr (hcopy hyoung)
  · exact Or.inr hlate

theorem account_of_max {chat : Int} (h : ⟨.max, chat, a⟩ ∈ candidates ctx L allRules) : ctx.max = some a := by
  obtain ⟨rule, -, h⟩ := List.mem_flatMap.mp h
  cases rule with
  | max =>
      simp only [candidatesBy] at h
      split at h
      · cases h
      · rename_i account hmax
        obtain ⟨c, -, heq⟩ := List.mem_map.mp h
        cases heq
        exact hmax
  | _ => simp [candidatesBy] at h

theorem mem_userSources {x : Int} (hw : Wants ctx L p m a) (howner : ⟨p, m.chatId, a⟩ ∈ T.owners)
    (hx : m.fromUserId = some x) : (a, x) ∈ userSources ctx L T.owners := by
  unfold userSources
  simp only [List.mem_append]
  cases p with
  | telegram =>
      have hpair : (a, x) ∈ (L.messages .telegram).flatMap fun m =>
          (T.owners.filter fun o => o.platform = .telegram ∧ o.chat = m.chatId
            ∧ takes ctx L .telegram m o.account).flatMap fun o => m.fromUserId.toList.map fun x => (o.account, x) := by
        refine List.mem_flatMap.mpr ⟨m, hw.message, List.mem_flatMap.mpr ⟨_, List.mem_filter.mpr ⟨howner, ?_⟩, ?_⟩⟩
        · simpa using hw.takes
        · simp [hx]
      tauto
  | max =>
      have hpair : (a, x) ∈ ctx.max.toList.flatMap fun account =>
          ((L.messages .max).filterMap LegacyMessage.fromUserId).map fun x => (account, x) := by
        rw [account_of_max hw.owner, Option.toList_some, List.flatMap_singleton]
        exact List.mem_map.mpr ⟨x, List.mem_filterMap.mpr ⟨m, hw.message, hx⟩, rfl⟩
      tauto

/-- After step F every sender whose identity and owner are known has a user row. -/
theorem SendersKnown.stepF (hL : L.Valid ctx) (h : Named ctx E L T T.owners) :
    SendersKnown ctx E L (userKnown (stepFUsers ctx L T)) := by
  intro p m a x hw hx
  rcases h.senders p m a x hw hx with hidentity | hpending
  · rcases h.owners p m a hw with howner | hlate
    · refine Or.inl (mem_insertKeys.mpr (Or.inr (List.mem_filter.mpr ⟨mem_userSources hw howner hx, ?_⟩)))
      obtain ⟨acc, hacc, hp⟩ := hw.accountOn hL
      have hin : (p, x) ∈ T.identities := hidentity
      simpa [hacc, hp] using hin
    · exact Or.inr hlate.1.1
  · exact Or.inr hpending

/-! ## Step G -/

/-- The number of owners of the posts' chats is settled, so `is_outgoing` is what it will be. -/
theorem outgoing_final (hkept : Kept ctx L T) (hposts : p = .telegram → PostsKnown ctx L T.owners)
    (hm : m ∈ L.messages p) (a : Int) :
    outgoing ctx L T.owners p m a = outgoing ctx L (ownersNow ctx L) p m a := by
  refine outgoing_congr (List.nodup_dedup _) hkept.nodup rfl rfl Iff.rfl (fun _ => rfl) ?_
  rintro rfl hpost hprivate
  rw [(hposts rfl) m hm hpost hprivate]
  exact Sole.congr fun _ => List.mem_dedup.symm

theorem newRow_eq (hkept : Kept ctx L T) (hposts : p = .telegram → PostsKnown ctx L T.owners)
    (hm : m ∈ L.messages p) (a : Int) :
    newRow ctx L T p m a = messageRow p m (senderOf T m a) (outgoing ctx L (ownersNow ctx L) p m a) := by
  rw [newRow, outgoing_final hkept hposts hm]

theorem of_senderOf {x : Int} (h : senderOf T m a = some x) : m.fromUserId = some x :=
  (Option.filter_eq_some_iff.mp h).1

/-- A row that is there is of the message that is asked for. -/
theorem Kept.fits (hkept : Kept ctx L T) (hL : L.Valid ctx) (hw : Wants ctx L p m a)
    (hrow : T.messages (keyOf a m) = some row) : Fits ctx L p m a row := by
  obtain ⟨q, m', b, hw', hk, -, hfits⟩ := hkept.rows _ _ hrow
  obtain ⟨rfl, rfl, rfl⟩ := hw.eq_of_key hL hw' hk
  exact hfits

/-- **The row that step G leaves for a message it selects** is final, unless the sender has no user row yet, or a
    copy found a row there. -/
theorem hit_final (hL : L.Valid ctx) (hkept : Kept ctx L T) (hposts : p = .telegram → PostsKnown ctx L T.owners)
    (hsenders : SendersKnown ctx E L (userKnown T)) (hbasis : Basis ctx E L T since) (hw : Wants ctx L p m a)
    (h : Hit ctx L T since p lo hi m a) :
    ∃ row, (stepGMessages ctx L T since p lo hi).messages (keyOf a m) = some row ∧
      (row = finalRow ctx L p m a ∨ E.pending p m) := by
  refine ⟨_, stepGMessages_hit hL h, ?_⟩
  rw [newRow_eq hkept hposts h.message]
  -- a message with no excuse has its sender among the users, and any old row is final already
  by_cases hpending : E.pending p m
  · exact Or.inr hpending
  · refine Or.inl ?_
    have hsender : senderOf T m a = m.fromUserId := by
      cases hx : m.fromUserId with
      | none => rw [senderOf, hx]; rfl
      | some x =>
          have hknown : (a, x) ∈ T.users := (hsenders p m a x hw hx).resolve_right hpending
          rw [senderOf, hx, Option.filter_some, if_pos (decide_eq_true hknown)]
    rw [hsender]
    cases hold : T.messages (keyOf a m) with
    | none => rfl
    | some row =>
        cases since with
        | none => exact (hbasis p m a row hw hold).resolve_right hpending
        | some w =>
            have hfits := hkept.fits hL hw hold
            have hor : m.fromUserId.or row.senderUserId = m.fromUserId := by
              cases hx : m.fromUserId with
              | some x => rfl
              | none =>
                  cases hs : row.senderUserId with
                  | none => rfl
                  | some x => simpa [hx] using hfits.sender x hs
            rw [Option.isSome_some, hfits.conflict_eq, hor]
            rfl

theorem stepGMessages_grows {k : MessageKey} (h : (T.messages k).isSome) :
    ((stepGMessages ctx L T since p lo hi).messages k).isSome :=
  Table.insertSelect_isSome h

theorem Kept.stepG (hkept : Kept ctx L T) (hL : L.Valid ctx) (hposts : p = .telegram → PostsKnown ctx L T.owners) :
    Kept ctx L (stepGMessages ctx L T since p lo hi) := by
  refine ⟨hkept.nodup, hkept.owners, fun k row hrow => ?_, fun k row hrow => ?_⟩
  · rcases of_stepGMessages hrow with hrow | ⟨m, a, hhit, rfl, rfl⟩
    · exact hkept.rows k row hrow
    · have hw := hhit.wants hkept.owners
      refine ⟨p, m, a, hw, rfl, hhit.owner, ?_⟩
      rw [newRow_eq hkept hposts hhit.message]
      cases hold : T.messages (keyOf a m) with
      | none => exact Fits.of_messageRow fun _ => of_senderOf
      | some old => exact (hkept.fits hL hw hold).onto _ _ fun _ => of_senderOf
  · obtain ⟨q, d, m, a, hw, hd, hof, hk, hrow', hmessage⟩ := hkept.media k row hrow
    exact ⟨q, d, m, a, hw, hd, hof, hk, hrow', stepGMessages_grows hmessage⟩

/-- What a message that step G passes over has to show: no owner, no chat, or older than the mark. -/
theorem passed_over (hw : Wants ctx L p m a) (hL : L.Valid ctx) (hrange : lo < m.id ∧ m.id ≤ hi)
    (h : ¬ Hit ctx L T since p lo hi m a) :
    (⟨p, m.chatId, a⟩ : Owner) ∉ T.owners ∨ (a, m.chatId) ∉ T.chats ∨ ∃ w, since = some w ∧ pending w p m ≠ true := by
  by_contra hnot
  simp only [not_or, not_not, not_exists, not_and] at hnot
  obtain ⟨howner, hchat, hpending⟩ := hnot
  obtain ⟨acc, hacc, -⟩ := hw.accountOn hL
  refine h ⟨hw.message, ?_, howner, by rw [hacc]; rfl, hchat, hw.takes⟩
  have hsince : (since.all fun w => pending w p m) = true := by
    cases since with
    | none => rfl
    | some w => exact hpending w rfl
  rw [inBatch, hsince, decide_eq_true hrange]
  rfl

/-- **Step G on the messages of its platform.** -/
theorem RowsKnown.stepG (hL : L.Valid ctx) (hkept : Kept ctx L T) (hplaced : Placed ctx E L T)
    (hposts : p = .telegram → PostsKnown ctx L T.owners) (hbasis : Basis ctx E L T since) {done : Int → Prop}
    (hrows : RowsKnown ctx E L T p done) :
    RowsKnown ctx E L (stepGMessages ctx L T since p lo hi) p fun id => done id ∨ (lo < id ∧ id ≤ hi) := by
  intro m a hw hid
  by_cases hhit : Hit ctx L T since p lo hi m a
  · exact Or.inl (hit_final hL hkept hposts hplaced.senders hbasis hw hhit)
  · rw [stepGMessages_miss hL hkept.owners hw fun h => hhit h.2]
    rcases hid with hdone | hrange
    · exact hrows m a hw hdone
    · have hlate : Late E L p m → (∃ row, T.messages (keyOf a m) = some row ∧
          (row = finalRow ctx L p m a ∨ E.pending p m)) ∨ (T.messages (keyOf a m) = none ∧ Late E L p m) := by
        intro hlate
        cases hrow : T.messages (keyOf a m) with
        | none => exact Or.inr ⟨rfl, hlate⟩
        | some row => exact Or.inl ⟨row, rfl, Or.inr hlate.1⟩
      rcases passed_over hw hL hrange hhit with howner | hchat | ⟨w, rfl, hpending⟩
      · exact hlate ((hplaced.owners p m a hw).resolve_left howner).1
      · exact hlate ((hplaced.chats p m a hw).resolve_left hchat).1
      · -- older than the mark: the row is there, and final
        obtain ⟨row, hrow⟩ := Option.isSome_iff_exists.mp ((hbasis.2.rows p m a hw).resolve_right hpending)
        exact Or.inl ⟨row, hrow, Or.inl ((hbasis.1 p m a row hw hrow).resolve_right hpending)⟩

theorem RowsKnown.stepG_other (hL : L.Valid ctx) (hkept : Kept ctx L T) (hne : q ≠ p) {done : Int → Prop}
    (hrows : RowsKnown ctx E L T q done) : RowsKnown ctx E L (stepGMessages ctx L T since p lo hi) q done := by
  intro m a hw hid
  rw [stepGMessages_miss hL hkept.owners hw fun h => hne h.1.symm]
  exact hrows m a hw hid

theorem Basis.stepG (hL : L.Valid ctx) (hkept : Kept ctx L T) (hplaced : Placed ctx E L T)
    (hposts : p = .telegram → PostsKnown ctx L T.owners) (hbasis : Basis ctx E L T since) :
    Basis ctx E L (stepGMessages ctx L T since p lo hi) since := by
  cases since with
  | none =>
      intro q m a row hw hrow
      by_cases hhit : p = q ∧ Hit ctx L T none q lo hi m a
      · obtain ⟨rfl, hhit⟩ := hhit
        obtain ⟨row', hrow', hfinal⟩ := hit_final hL hkept hposts hplaced.senders hbasis hw hhit
        rw [hrow] at hrow'
        cases hrow'
        exact hfinal
      · rw [stepGMessages_miss hL hkept.owners hw hhit] at hrow
        exact hbasis q m a row hw hrow
  | some w =>
      refine ⟨fun q m a row hw hrow => ?_, hbasis.2.mono (List.Subset.refl _) (fun _ => stepGMessages_grows)
        fun _ => id⟩
      by_cases hhit : p = q ∧ Hit ctx L T (some w) q lo hi m a
      · -- what a delta selects passes its filter
        exact Or.inr (Bool.and_eq_true_iff.mp hhit.2.inBatch).2
      · rw [stepGMessages_miss hL hkept.owners hw hhit] at hrow
        exact hbasis.1 q m a row hw hrow

/-! ## Step H -/

theorem stepHMedia_grows {k : MediaKey} (h : (T.media k).isSome) : ((stepHMedia L T since p lo hi).media k).isSome :=
  Table.insertSelect_isSome h

/-- An owner that has the row of a message wants it. -/
theorem Kept.wants (hkept : Kept ctx L T) (hL : L.Valid ctx) (hm : m ∈ L.messages p)
    (howner : ⟨p, m.chatId, a⟩ ∈ T.owners) (hrow : (T.messages (keyOf a m)).isSome) : Wants ctx L p m a := by
  obtain ⟨row, hrow⟩ := Option.isSome_iff_exists.mp hrow
  obtain ⟨q, m', b, hw, hk, -, -⟩ := hkept.rows _ _ hrow
  obtain ⟨rfl, hchat, hmessage⟩ := MessageKey.mk.injEq .. ▸ hk
  obtain rfl : p = q := (accountOn_candidate hL (hkept.owners _ howner)).unique (hw.accountOn hL)
  rw [hL.eq_of_key hm hw.message hchat hmessage]
  exact hw

theorem Kept.stepH (hkept : Kept ctx L T) (hL : L.Valid ctx) : Kept ctx L (stepHMedia L T since p lo hi) := by
  refine ⟨hkept.nodup, hkept.owners, hkept.rows, fun k row hrow => ?_⟩
  rcases of_stepHMedia hrow with hrow | ⟨d, m, a, hhit, rfl, rfl⟩
  · exact hkept.media k row hrow
  · exact ⟨p, d, m, a, hkept.wants hL hhit.message hhit.owner hhit.row, hhit.media, hhit.ofMessage, rfl, rfl, hhit.row⟩

/-- **Step H on the media of its platform.** -/
theorem MediaKnown.stepH (hplaced : Placed ctx E L T) (hrows : RowsKnown ctx E L T p always)
    (hbasis : Basis ctx E L T since) {done : Int → Prop} (hmedia : MediaKnown ctx E L T p done) :
    MediaKnown ctx E L (stepHMedia L T since p lo hi) p fun id => done id ∨ (lo < id ∧ id ≤ hi) := by
  intro m a d hw hd hof hid
  rcases hid with hdone | hrange
  · exact (hmedia m a d hw hd hof hdone).imp_left stepHMedia_grows
  · by_cases hlate : Late E L p m
    · exact Or.inr (hlate.2 d hd hof)
    · refine (Classical.em (∃ w, since = some w ∧ lateMedia w p d ≠ true)).elim ?old ?new
      case old =>
        rintro ⟨w, rfl, hold⟩
        exact Or.inl (stepHMedia_grows ((hbasis.2.media p m a d hw hd hof).resolve_right hold))
      case new =>
        intro hnew
        refine Or.inl (stepHMedia_hit (m := m) ⟨hd, hrange, ?_, hw.message, hof, ?_, ?_, ?_⟩)
        · intro w hw
          by_contra hnot
          exact hnew ⟨w, hw, hnot⟩
        · exact (hplaced.owners p m a hw).resolve_right fun h => hlate h.1
        · exact (hplaced.chats p m a hw).resolve_right fun h => hlate h.1
        · rcases hrows m a hw trivial with ⟨row, hrow, -⟩ | ⟨-, h⟩
          · rw [hrow]; rfl
          · exact absurd h hlate

/-! ## The loop of a step -/

theorem RowsKnown.imp {done done' : Int → Prop} (h : RowsKnown ctx E L T p done) (himp : ∀ id, done' id → done id) :
    RowsKnown ctx E L T p done' :=
  fun m a hw hid => h m a hw (himp _ hid)

theorem MediaKnown.imp {done done' : Int → Prop} (h : MediaKnown ctx E L T p done)
    (himp : ∀ id, done' id → done id) : MediaKnown ctx E L T p done' :=
  h.mono (fun _ => id) himp

theorem ids_of_idRange {source : Source} (h : L.idRange source = some (lo, hi)) :
    ∀ id ∈ L.ids source, lo < id ∧ id ≤ hi := by
  unfold Legacy.idRange at h
  split at h
  · rename_i least greatest hleast hgreatest
    cases h
    intro id hid
    have hmin := (List.min?_eq_some_iff.mp hleast).2 id hid
    have hmax := (List.max?_eq_some_iff.mp hgreatest).2 id hid
    omega
  · cases h

theorem ids_of_idRange_none {source : Source} (h : L.idRange source = none) : L.ids source = [] := by
  cases hids : L.ids source with
  | nil => rfl
  | cons id rest =>
      rw [Legacy.idRange, hids] at h
      cases h

/-- The statement takes what the rest of the loop does not. -/
theorem batch_next (h : goesOn since lo hi = true) (id : Int) (hid : outside (lo + batch) hi id) :
    outside lo hi id ∨ (lo < id ∧ id ≤ batchEnd since lo hi) := by
  have hnone : since.isSome = false := by simpa [goesOn] using (Bool.and_eq_true_iff.mp h).1
  have hend : batchEnd since lo hi = lo + batch := if_neg (by rw [hnone]; exact Bool.false_ne_true)
  unfold outside at hid ⊢
  omega

/-- The last statement takes all that is left. -/
theorem batch_last (h : goesOn since lo hi = false) (id : Int) :
    outside lo hi id ∨ (lo < id ∧ id ≤ batchEnd since lo hi) := by
  unfold outside
  cases since with
  | some w =>
      have hend : batchEnd (some w) lo hi = hi := rfl
      omega
  | none =>
      have hend : batchEnd none lo hi = lo + batch := rfl
      have hstop : ¬ lo + batch < hi := by simpa [goesOn] using h
      omega

theorem Facts.afterMessages (hplaced : Placed ctx E L T) (hrows : RowsKnown ctx E L T p always)
    (hmax : p = .max → RowsKnown ctx E L T .telegram always) : Facts ctx E L T (afterMessages p) := by
  cases p with
  | telegram => exact ⟨hplaced, (by rintro ⟨⟩), fun _ => hrows, (by rintro _ _ ⟨⟩)⟩
  | max =>
      refine ⟨hplaced, fun q => ?_, (by rintro ⟨⟩), (by rintro _ _ ⟨⟩)⟩
      cases q with
      | telegram => exact hmax rfl
      | max => exact hrows

theorem Facts.afterMedia (hplaced : Placed ctx E L T) (hrows : ∀ q, RowsKnown ctx E L T q always)
    (hmedia : MediaKnown ctx E L T p always) (hmax : p = .max → MediaKnown ctx E L T .telegram always) :
    Facts ctx E L T (afterMedia p) := by
  cases p with
  | telegram => exact ⟨hplaced, hrows, fun _ => hmedia, (by rintro _ _ ⟨⟩)⟩
  | max =>
      refine ⟨hplaced.chats, hrows, fun q => ?_⟩
      cases q with
      | telegram => exact hmax rfl
      | max => exact hmedia

/-! ## One statement -/

theorem Basis.mono (h : Basis ctx E L T since) (hmessages : T'.messages = T.messages) (hchats : T.chats ⊆ T'.chats)
    (hmedia : ∀ k, (T.media k).isSome → (T'.media k).isSome) : Basis ctx E L T' since := by
  have hcurrent : ∀ {E}, Current ctx E L T → Current ctx E L T' := by
    intro E hcurrent p m a row hw hrow
    exact hcurrent p m a row hw (hmessages ▸ hrow)
  cases since with
  | none => exact hcurrent h
  | some w => exact ⟨hcurrent h.1, h.2.mono hchats (fun k hk => by rw [hmessages]; exact hk) hmedia⟩

/-- The statements of step C: what is still to be selected gets less, and the last one inserts. -/
theorem owners_facts (hkept : Kept ctx L T) (hbasis : Basis ctx E L T since)
    {rest : List Rule} {got : List Owner} {stage' : Stage} (hfacts : Facts ctx E L T (.owners rest got))
    (h : runStage ctx L T since (.owners rest got) = some (T', stage')) :
    Kept ctx L T' ∧ Basis ctx E L T' since ∧ Facts ctx E L T' stage' := by
  obtain ⟨hnamed, hgot⟩ := hfacts
  cases rest with
  | cons rule rest =>
      cases h
      refine ⟨hkept, hbasis, hnamed.congr fun o => ?_, fun o ho => ?_⟩
      · simp only [ownersAhead, candidates, List.mem_append, List.flatMap_cons, mem_insertKeys]
        tauto
      · exact (mem_insertKeys.mp ho).elim (hgot o) candidatesBy_subset
  | nil =>
      -- no rule is ahead, so the owners are those that were got
      cases h
      refine ⟨hkept.stepC hgot, hbasis.mono rfl (List.Subset.refl _) fun _ => id, ?_⟩
      have hnow : Named ctx E L T (insertKeys T.owners got) := hnamed.congr fun o => by
        simp [ownersAhead, candidates]
      have hnow' : Named ctx E L { T with owners := insertKeys T.owners got } (insertKeys T.owners got) :=
        ⟨hnow.senders, hnow.owners, hnow.posts⟩
      split
      · exact hnow'
      · exact hnow'

/-- Step E, first on one platform and then on the other. -/
theorem chats_facts (hL : L.Valid ctx) (hkept : Kept ctx L T) (hbasis : Basis ctx E L T since)
    {got : Option (List (Int × Int))} {stage' : Stage} (hfacts : Facts ctx E L T (.chats got))
    (h : runStage ctx L T since (.chats got) = some (T', stage')) :
    Kept ctx L T' ∧ Basis ctx E L T' since ∧ Facts ctx E L T' stage' := by
  cases got with
  | none =>
      cases h
      exact ⟨hkept, hbasis, hfacts, ChatsKnown.stepE hL hfacts.owners hbasis .telegram⟩
  | some got =>
      cases h
      obtain ⟨hnamed, hgot⟩ := hfacts
      have hchats : ∀ u ∈ T.chats, u ∈ insertKeys T.chats (got ++ chatsToCopy L since T.owners .max) :=
        fun u hu => mem_insertKeys.mpr (Or.inl hu)
      refine ⟨⟨hkept.nodup, hkept.owners, hkept.rows, hkept.media⟩, hbasis.mono rfl (hchats ·) fun _ => id,
        ⟨hnamed.senders, hnamed.owners, hnamed.posts⟩, fun q => ?_⟩
      cases q with
      | telegram =>
          refine hgot.mono fun u hu => ?_
          simp only [List.mem_append, mem_insertKeys] at hu ⊢
          tauto
      | max =>
          refine (ChatsKnown.stepE hL hnamed.owners hbasis .max).mono fun u hu => ?_
          simp only [List.mem_append, mem_insertKeys] at hu ⊢
          tauto

/-- Step G reads the range of ids, then takes one batch after the other. -/
theorem messages_facts (hL : L.Valid ctx) (hkept : Kept ctx L T) (hbasis : Basis ctx E L T since)
    {range : Option (Int × Int)} {stage' : Stage} (hfacts : Facts ctx E L T (.messages p range))
    (h : runStage ctx L T since (.messages p range) = some (T', stage')) :
    Kept ctx L T' ∧ Basis ctx E L T' since ∧ Facts ctx E L T' stage' := by
  obtain ⟨hplaced, hposts, hmax, hrange⟩ := hfacts
  cases range with
  | none =>
      cases h
      refine ⟨hkept, hbasis, ?_⟩
      cases hids : L.idRange (.messages p) with
      | none =>
          have hnil : L.messages p = [] := List.map_eq_nil_iff.mp (ids_of_idRange_none hids)
          refine .afterMessages hplaced (fun m a hw _ => ?_) hmax
          exact absurd hw.message (by rw [hnil]; exact List.not_mem_nil)
      | some range =>
          -- no message is outside the range yet
          refine ⟨hplaced, hposts, hmax, fun lo hi heq m a hw hid => absurd ?_ hid⟩
          cases heq
          exact ids_of_idRange hids m.id (List.mem_map_of_mem hw.message)
  | some range =>
      obtain ⟨lo, hi⟩ := range
      cases h
      have hrows : RowsKnown ctx E L (stepGMessages ctx L T since p lo (batchEnd since lo hi)) p
          fun id => outside lo hi id ∨ (lo < id ∧ id ≤ batchEnd since lo hi) :=
        .stepG hL hkept hplaced hposts hbasis (hrange lo hi rfl)
      -- the platform before this one is left alone
      have hother : ∀ {q}, p = .max → q = .telegram → RowsKnown ctx E L T q always →
          RowsKnown ctx E L (stepGMessages ctx L T since p lo (batchEnd since lo hi)) q always := by
        rintro q rfl rfl h
        exact h.stepG_other hL hkept (by decide)
      have hplaced' : Placed ctx E L (stepGMessages ctx L T since p lo (batchEnd since lo hi)) :=
        ⟨hplaced.owners, hplaced.chats, hplaced.senders⟩
      refine ⟨hkept.stepG hL hposts, hbasis.stepG hL hkept hplaced hposts, ?_⟩
      cases hgoes : goesOn since lo hi with
      | true =>
          refine ⟨hplaced', hposts, fun hp => hother hp rfl (hmax hp), fun lo' hi' heq => ?_⟩
          cases heq
          exact hrows.imp (batch_next hgoes)
      | false =>
          exact .afterMessages hplaced' (hrows.imp fun id _ => batch_last hgoes id) fun hp => hother hp rfl (hmax hp)

/-- Step H does as step G does. -/
theorem media_facts (hL : L.Valid ctx) (hkept : Kept ctx L T) (hbasis : Basis ctx E L T since)
    {range : Option (Int × Int)} {stage' : Stage} (hfacts : Facts ctx E L T (.media p range))
    (h : runStage ctx L T since (.media p range) = some (T', stage')) :
    Kept ctx L T' ∧ Basis ctx E L T' since ∧ Facts ctx E L T' stage' := by
  obtain ⟨hplaced, hrows, hmax, hrange⟩ := hfacts
  cases range with
  | none =>
      cases h
      refine ⟨hkept, hbasis, ?_⟩
      cases hids : L.idRange (.media p) with
      | none =>
          have hnil : L.media p = [] := List.map_eq_nil_iff.mp (ids_of_idRange_none hids)
          refine .afterMedia hplaced hrows (fun m a d _ hd _ _ => ?_) hmax
          exact absurd hd (by rw [hnil]; exact List.not_mem_nil)
      | some range =>
          refine ⟨hplaced, hrows, hmax, fun lo hi heq m a d _ hd _ hid => absurd ?_ hid⟩
          cases heq
          exact ids_of_idRange hids d.id (List.mem_map_of_mem hd)
  | some range =>
      obtain ⟨lo, hi⟩ := range
      cases h
      have hmedia : MediaKnown ctx E L (stepHMedia L T since p lo (batchEnd since lo hi)) p
          fun id => outside lo hi id ∨ (lo < id ∧ id ≤ batchEnd since lo hi) :=
        .stepH hplaced (hrows p) hbasis (hrange lo hi rfl)
      have hother : p = .max →
          MediaKnown ctx E L (stepHMedia L T since p lo (batchEnd since lo hi)) .telegram always :=
        fun hp => (hmax hp).mono (fun _ => stepHMedia_grows) fun _ => id
      have hplaced' : Placed ctx E L (stepHMedia L T since p lo (batchEnd since lo hi)) :=
        ⟨hplaced.owners, hplaced.chats, hplaced.senders⟩
      refine ⟨hkept.stepH hL, hbasis.mono rfl (List.Subset.refl _) fun _ => stepHMedia_grows, ?_⟩
      cases hgoes : goesOn since lo hi with
      | true =>
          refine ⟨hplaced', hrows, hother, fun lo' hi' heq => ?_⟩
          cases heq
          exact hmedia.imp (batch_next hgoes)
      | false => exact .afterMedia hplaced' hrows (hmedia.imp fun id _ => batch_last hgoes id) hother

/-- **Step.** A statement keeps what holds of the tables, and leads to the facts of the next stage. -/
theorem runStage_facts (hL : L.Valid ctx) (hkept : Kept ctx L T) (hbasis : Basis ctx E L T since) {stage stage' : Stage}
    (hfacts : Facts ctx E L T stage) (h : runStage ctx L T since stage = some (T', stage')) :
    Kept ctx L T' ∧ Basis ctx E L T' since ∧ Facts ctx E L T' stage' := by
  cases stage with
  | reading rest => cases h
  | rest => cases h
  | identities =>
      cases h
      exact ⟨⟨hkept.nodup, hkept.owners, hkept.rows, hkept.media⟩,
        hbasis.mono rfl (List.Subset.refl _) fun _ => id, .stepB hkept, fun _ ho => absurd ho List.not_mem_nil⟩
  | owners rest got => exact owners_facts hkept hbasis hfacts h
  | preconditions =>
      simp only [runStage] at h
      split at h
      · cases h
        exact ⟨hkept, hbasis, hfacts⟩
      · cases h
  | chats got => exact chats_facts hL hkept hbasis hfacts h
  | users =>
      cases h
      obtain ⟨hnamed, hchats⟩ := hfacts
      exact ⟨⟨hkept.nodup, hkept.owners, hkept.rows, hkept.media⟩, hbasis.mono rfl (List.Subset.refl _) fun _ => id,
        ⟨hnamed.owners, hchats, .stepF hL hnamed⟩, fun _ => hnamed.posts, (by rintro ⟨⟩), (by rintro _ _ ⟨⟩)⟩
  | messages p range => exact messages_facts hL hkept hbasis hfacts h
  | media p range => exact media_facts hL hkept hbasis hfacts h

/-- A statement loses no chat, no message row and no media row. -/
theorem runStage_grows {stage stage' : Stage} (h : runStage ctx L T since stage = some (T', stage')) :
    T.chats ⊆ T'.chats ∧ (∀ k, (T.messages k).isSome → (T'.messages k).isSome) ∧
      ∀ k, (T.media k).isSome → (T'.media k).isSome := by
  have hsame : T.chats ⊆ T.chats ∧ (∀ k, (T.messages k).isSome → (T.messages k).isSome) ∧
      ∀ k, (T.media k).isSome → (T.media k).isSome := ⟨List.Subset.refl _, fun _ => id, fun _ => id⟩
  cases stage with
  | reading rest => cases h
  | rest => cases h
  | identities => cases h; exact hsame
  | owners rest got => cases rest <;> cases h <;> exact hsame
  | preconditions =>
      simp only [runStage] at h
      split at h
      · cases h; exact hsame
      · cases h
  | chats got =>
      cases got with
      | none => cases h; exact hsame
      | some got => cases h; exact ⟨fun _ hu => mem_insertKeys.mpr (Or.inl hu), hsame.2⟩
  | users => cases h; exact hsame
  | messages p range =>
      cases range with
      | none => cases h; exact hsame
      | some range => cases h; exact ⟨hsame.1, fun _ => stepGMessages_grows, hsame.2.2⟩
  | media p range =>
      cases range with
      | none => cases h; exact hsame
      | some range => cases h; exact ⟨hsame.1, hsame.2.1, fun _ => stepHMedia_grows⟩

end MyPerson.Isolation
