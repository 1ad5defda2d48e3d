import Mathlib.Data.List.Dedup
import MyPerson.People.Structure

/-!
# `People.Carried` — tags and notes

Tags and notes are the owner's own words. A merge carries them to the person that stays; a split of a
person's only identity deletes the old person, and its tags and notes with it.

## Contents
- `PartOf`, `HasTag`, `HasNote`, and `Carried` between two bases;
- `absorbPerson` carries everything (`carried_absorbPerson`);
- `meets`, `carried_step`: a step carries everything if and only if it meets the condition;
- `tags_and_notes_carried`, over every run, a split that loses a tag, and a run that loses nothing.
-/

namespace MyPerson.People

open Lib
open WriteLimits (Platform)

variable {b b' b'' : Base} {i : Identity} {p q : Person} {x y : Nat} {tag note : String}

/-! ## Parts of a text -/

def PartOf (n t : String) : Prop := ∃ l r, t = l ++ n ++ r

theorem PartOf.refl (n : String) : PartOf n n := ⟨"", "", by simp⟩

theorem PartOf.trans {n t u : String} (h : PartOf n t) (h' : PartOf t u) : PartOf n u := by
  obtain ⟨l, r, rfl⟩ := h
  obtain ⟨l', r', rfl⟩ := h'
  exact ⟨l' ++ l, r ++ r', by simp only [String.append_assoc]⟩

theorem PartOf.left (n t : String) : PartOf n (n ++ t) := ⟨"", t, by simp⟩

theorem PartOf.right (t n : String) : PartOf n (t ++ n) := ⟨t, "", by simp⟩

/-! ## What is carried -/

def HasTag (b : Base) (tag : String) : Prop := ∃ p ∈ b.people, tag ∈ p.tags

def HasNote (b : Base) (note : String) : Prop := ∃ p ∈ b.people, ∃ text, p.notes = some text ∧ PartOf note text

/-- The tags and notes of `b` are still there in `b'`. -/
structure Carried (b b' : Base) : Prop where
  tags  : ∀ p ∈ b.people, ∀ tag ∈ p.tags, HasTag b' tag
  notes : ∀ p ∈ b.people, ∀ note, p.notes = some note → note ≠ "" → HasNote b' note

/-- What `q` takes over from `p`. -/
structure Takes (q p : Person) : Prop where
  tags  : p.tags ⊆ q.tags
  notes : ∀ note, p.notes = some note → note ≠ "" → ∃ text, q.notes = some text ∧ PartOf note text

theorem Takes.of_eq (htags : q.tags = p.tags) (hnotes : q.notes = p.notes) : Takes q p :=
  ⟨fun _ ht => htags ▸ ht, fun note hnote _ => ⟨note, hnotes.trans hnote, .refl note⟩⟩

theorem Takes.refl (p : Person) : Takes p p := .of_eq rfl rfl

/-- Each person's words go to some person. -/
theorem Carried.of_takes (h : ∀ p ∈ b.people, ∃ q ∈ b'.people, Takes q p) : Carried b b' where
  tags p hp tag htag := by
    obtain ⟨q, hq, htakes⟩ := h p hp
    exact ⟨q, hq, htakes.tags htag⟩
  notes p hp note hnote hne := by
    obtain ⟨q, hq, htakes⟩ := h p hp
    exact ⟨q, hq, htakes.notes note hnote hne⟩

theorem Carried.of_people (h : b'.people = b.people) : Carried b b' :=
  .of_takes fun p hp => ⟨p, h ▸ hp, .refl p⟩

theorem Carried.refl (b : Base) : Carried b b := .of_people rfl

theorem partOf_nonempty {n t : String} (h : PartOf n t) (hne : n ≠ "") : t ≠ "" := by
  rintro rfl
  obtain ⟨l, r, heq⟩ := h
  apply hne
  have hempty := String.append_eq_empty_iff.mp heq.symm
  exact (String.append_eq_empty_iff.mp hempty.1).2

theorem Carried.trans (h : Carried b b') (h' : Carried b' b'') : Carried b b'' where
  tags p hp tag htag := by
    obtain ⟨q, hq, hmem⟩ := h.tags p hp tag htag
    exact h'.tags q hq tag hmem
  notes p hp note hnote hne := by
    obtain ⟨q, hq, text, htext, hpart⟩ := h.notes p hp note hnote hne
    obtain ⟨r, hr, text', htext', hpart'⟩ := h'.notes q hq text htext (partOf_nonempty hpart hne)
    exact ⟨r, hr, text', htext', hpart.trans hpart'⟩

/-! ## Absorbing a person -/

theorem mem_uniteTags {t s : List String} : tag ∈ uniteTags t s ↔ tag ∈ t ∨ tag ∈ s := by
  unfold uniteTags
  rw [(List.perm_insertionSort _ _).mem_iff, List.mem_dedup, List.mem_append]

theorem orNone_some (hne : note ≠ "") : orNone (some note) = some note := by
  show (if note.isEmpty then none else some note) = some note
  rw [if_neg (by simpa using hne)]

/-- Both notes are part of the joined one. -/
theorem joinNotes_some (t s : Option String) (hnote : t = some note ∨ s = some note) (hne : note ≠ "") :
    ∃ text, joinNotes t s = some text ∧ PartOf note text := by
  rcases hnote with rfl | rfl
  · unfold joinNotes
    rw [orNone_some hne]
    cases orNone s with
    | none => exact ⟨note, rfl, .refl note⟩
    | some other => exact ⟨note ++ "\n" ++ other, rfl, "", "\n" ++ other, by simp [String.append_assoc]⟩
  · unfold joinNotes
    rw [orNone_some hne]
    cases orNone t with
    | none => exact ⟨note, rfl, .refl note⟩
    | some other => exact ⟨other ++ "\n" ++ note, rfl, .right _ _⟩

theorem takes_absorb_target (s t : Person) : Takes (s.absorb t) t :=
  ⟨fun _ ht => mem_uniteTags.mpr (Or.inl ht), fun _ hnote hne => joinNotes_some _ _ (Or.inl hnote) hne⟩

theorem takes_absorb_source (s t : Person) : Takes (s.absorb t) s :=
  ⟨fun _ ht => mem_uniteTags.mpr (Or.inr ht), fun _ hnote hne => joinNotes_some _ _ (Or.inr hnote) hne⟩

/-- **A merge carries everything.** What the source has goes to the target before the source may go. -/
theorem carried_absorbPerson (h : Keyed b) (hx : ∃ p ∈ b.people, p.id = x) (hy : ∃ p ∈ b.people, p.id = y)
    (hne : x ≠ y) : Carried b (b.absorbPerson x y) := by
  obtain ⟨t, ht, rfl⟩ := hx
  obtain ⟨s, hs, rfl⟩ := hy
  have hfound : b.person s.id = some s := (byKey_eq_some h.people_nodup).mpr ⟨hs, rfl⟩
  rcases absorbPerson_cases b t.id s.id with ⟨hnone, -⟩ | ⟨s', hs', heq⟩
  · rw [hfound] at hnone
    cases hnone
  · rw [hfound] at hs'
    cases hs'
    have htarget : s.absorb t ∈ (b.setPeople (fun p => p.id == t.id) s.absorb).people :=
      mem_updateWhere_of_pos ht (by simp)
    rw [heq]
    refine .of_takes fun p hp => ?_
    rcases deleteIfEmpty_cases (b.setPeople (fun p => p.id == t.id) s.absorb) s.id with ⟨-, hkept⟩ | ⟨-, hgone⟩
    · rw [hkept]
      obtain ⟨q, hq, rfl | rfl⟩ := updated_of_mem (fun p => p.id == t.id) s.absorb hp
      · exact ⟨q, hq, .refl q⟩
      · exact ⟨_, hq, takes_absorb_target s p⟩
    · rw [hgone]
      have hstays : s.absorb t ∈ ((b.setPeople (fun p => p.id == t.id) s.absorb).deletePerson s.id).people :=
        mem_deletePerson.mpr ⟨htarget, hne⟩
      by_cases hps : p.id = s.id
      · obtain rfl := eq_of_key h.people_nodup hp hs hps
        exact ⟨_, hstays, takes_absorb_source p t⟩
      · by_cases hpt : p.id = t.id
        · obtain rfl := eq_of_key h.people_nodup hp ht hpt
          exact ⟨_, hstays, takes_absorb_target s p⟩
        · have hsame : p ∈ (b.setPeople (fun p => p.id == t.id) s.absorb).people :=
            mem_updateWhere_of_not hp (by simpa using hpt)
          exact ⟨p, mem_deletePerson.mpr ⟨hsame, hps⟩, .refl p⟩

/-! ## `upsert_identity` -/

theorem carried_findOrCreate (b : Base) (platform : Platform) (row : UserRow) (v : Values) :
    Carried b (b.findOrCreate platform row v).1 := by
  rcases findOrCreate_cases b platform row v with heq | ⟨-, heq⟩
  · rw [heq]
    exact .of_people rfl
  · rw [heq]
    exact .of_takes fun p hp => ⟨p, List.mem_append_left _ hp, .refl p⟩

theorem carried_fillPrimaryPhone (b : Base) (id : Nat) (phone : String) :
    Carried b (b.fillPrimaryPhone id phone) := by
  refine .of_takes fun p hp => ?_
  obtain ⟨q, hq, heq⟩ := updated_of_mem (fun p => p.primaryPhone.isNone &&
    (b.identity id).any fun i => i.personId == p.id) (fun p => { p with primaryPhone := some phone }) hp
  refine ⟨q, hq, ?_⟩
  rcases heq with rfl | rfl
  · exact .refl q
  · exact .of_eq rfl rfl

theorem carried_mergePair {me other : Identity} (h : Keyed b) (hme : me ∈ b.identities)
    (hfree : me.personPinned = false) (hother : other ∈ b.twins me) : Carried b (b.mergePair me other) := by
  obtain ⟨m, hm, target, source, row, hlt, rfl, -, htarget, heq⟩ := mergePair_cases h hme hfree hother
  rw [heq]
  have hmoved := keyed_moveOne (m := m) h htarget
  have hcarried := carried_absorbPerson hmoved htarget (h.owned m hm) (Nat.ne_of_lt hlt)
  exact ⟨hcarried.tags, hcarried.notes⟩

/-! ## The condition -/

/-- The other people have the words of `p`. -/
def SharedWords (b : Base) (p : Person) : Prop :=
  (∀ tag ∈ p.tags, ∃ q ∈ b.people, q.id ≠ p.id ∧ tag ∈ q.tags) ∧
    ∀ note, p.notes = some note → note ≠ "" →
      ∃ q ∈ b.people, q.id ≠ p.id ∧ ∃ text, q.notes = some text ∧ PartOf note text

/-- A split takes a person's only identity only if no words are lost with the person. -/
def meets (b : Base) : Action → Prop
  | .splitIdentity identityId _ =>
      ∀ i ∈ b.identities, i.id = identityId → (∀ j ∈ b.identities, j.personId = i.personId → j = i) →
        ∀ p ∈ b.people, p.id = i.personId → SharedWords b p
  | _ => True

/-- Deleting a person carries everything if and only if the other people have its words; a new person
    without words is of no help. -/
theorem carried_deletePerson {blank : Person} (h : Keyed b) (hp : p ∈ b.people)
    (hpeople : b'.people = b.people ++ [blank]) (hfresh : blank.id ≠ p.id) (htags : blank.tags = [])
    (hnotes : blank.notes = none) : Carried b (b'.deletePerson p.id) ↔ SharedWords b p := by
  have hmem : ∀ q, q ∈ (b'.deletePerson p.id).people ↔ (q ∈ b.people ∧ q.id ≠ p.id) ∨ q = blank := by
    intro q
    rw [mem_deletePerson, hpeople, List.mem_append, List.mem_singleton]
    constructor
    · rintro ⟨hq | rfl, hne⟩
      · exact Or.inl ⟨hq, hne⟩
      · exact Or.inr rfl
    · rintro (⟨hq, hne⟩ | rfl)
      · exact ⟨Or.inl hq, hne⟩
      · exact ⟨Or.inr rfl, hfresh⟩
  constructor
  · intro hcarried
    constructor
    · intro tag htag
      obtain ⟨q, hq, hin⟩ := hcarried.tags p hp tag htag
      rcases (hmem q).mp hq with ⟨hq, hne⟩ | rfl
      · exact ⟨q, hq, hne, hin⟩
      · rw [htags] at hin
        cases hin
    · intro note hnote hne
      obtain ⟨q, hq, text, htext, hpart⟩ := hcarried.notes p hp note hnote hne
      rcases (hmem q).mp hq with ⟨hq, hother⟩ | rfl
      · exact ⟨q, hq, hother, text, htext, hpart⟩
      · rw [hnotes] at htext
        cases htext
  · rintro ⟨hsharedTags, hsharedNotes⟩
    constructor
    · intro p' hp' tag htag
      by_cases hsame : p'.id = p.id
      · obtain rfl := eq_of_key h.people_nodup hp' hp hsame
        obtain ⟨q, hq, hother, hin⟩ := hsharedTags tag htag
        exact ⟨q, (hmem q).mpr (Or.inl ⟨hq, hother⟩), hin⟩
      · exact ⟨p', (hmem p').mpr (Or.inl ⟨hp', hsame⟩), htag⟩
    · intro p' hp' note hnote hne
      by_cases hsame : p'.id = p.id
      · obtain rfl := eq_of_key h.people_nodup hp' hp hsame
        obtain ⟨q, hq, hother, hpart⟩ := hsharedNotes note hnote hne
        exact ⟨q, (hmem q).mpr (Or.inl ⟨hq, hother⟩), hpart⟩
      · exact ⟨p', (hmem p').mpr (Or.inl ⟨hp', hsame⟩), note, hnote, .refl note⟩

/-- An old identity of the person that the detached one leaves. -/
theorem mem_detach {k : Identity} (h : Keyed b) (hi : i ∈ b.identities) (hk : k ∈ (b.detach i).identities)
    (hperson : k.personId = i.personId) : k ∈ b.identities ∧ k ≠ i := by
  rcases of_mem_updateWhere hk with ⟨hk, hsel⟩ | ⟨j, -, -, rfl⟩
  · refine ⟨hk, ?_⟩
    rintro rfl
    simp at hsel
  · obtain ⟨p, hp, hpi⟩ := h.owned i hi
    have hlt := h.person_fresh p hp
    have hnew : b.nextPerson = i.personId := hperson
    omega

/-- **A split** carries everything if and only if the old person stays or the others have its words. -/
theorem carried_detach (h : Keyed b) (hi : i ∈ b.identities) :
    Carried b ((b.detach i).deleteIfEmpty i.personId) ↔
      ((∀ j ∈ b.identities, j.personId = i.personId → j = i) →
        ∀ p ∈ b.people, p.id = i.personId → SharedWords b p) := by
  rcases deleteIfEmpty_cases (b.detach i) i.personId with ⟨⟨k, hk, hperson⟩, heq⟩ | ⟨hnone, heq⟩
  · rw [heq]
    obtain ⟨hkb, hki⟩ := mem_detach h hi hk hperson
    refine iff_of_true ?_ fun honly => absurd (honly k hkb hperson) hki
    exact .of_takes fun p hp => ⟨p, List.mem_append_left _ hp, .refl p⟩
  · rw [heq]
    obtain ⟨p, hp, hpi⟩ := h.owned i hi
    have honly : ∀ j ∈ b.identities, j.personId = i.personId → j = i := by
      intro j hj hperson
      by_cases hji : j.id = i.id
      · exact h.identity_ext hj hi hji
      · exact absurd hperson (hnone j (mem_updateWhere_of_not hj (by simpa using hji)))
    have hfresh : b.nextPerson ≠ p.id := by
      have hlt := h.person_fresh p hp
      omega
    rw [← hpi, carried_deletePerson h hp rfl hfresh rfl rfl]
    constructor
    · intro hshared _ q hq hqi
      obtain rfl := eq_of_key h.people_nodup hq hp hqi
      exact hshared
    · intro hmeets
      exact hmeets (fun j hj hperson => honly j hj (hperson.trans hpi)) p hp rfl

/-- **Step.** A step carries every tag and note if and only if it meets the condition. -/
theorem carried_step {decimal : Char → Bool} {a : Action} (h : Keyed b) (hstep : step decimal b a = some b') :
    Carried b b' ↔ meets b a := by
  cases a with
  | upsertIdentity platform row answer =>
      obtain ⟨⟨c, id⟩, hupsert, rfl⟩ := Option.map_eq_some_iff.mp hstep
      obtain ⟨d, hfound, hcases⟩ := upsertIdentity_cases hupsert
      have hd := keyed_findOrCreate h platform row (row.values decimal)
      have hcarried := carried_findOrCreate b platform row (row.values decimal)
      rw [hfound] at hd hcarried
      refine iff_of_true ?_ trivial
      rcases hcases with ⟨-, rfl⟩ | ⟨phone, -, hmerge⟩
      · exact hcarried
      · have hfilled := keyed_fillPrimaryPhone hd id phone
        have hfill := hcarried.trans (carried_fillPrimaryPhone d id phone)
        rcases autoMerge_cases hmerge with rfl | ⟨me, other, hme, hfree, hother, rfl⟩
        · exact hfill
        · exact hfill.trans (carried_mergePair hfilled hme hfree hother)
  | mergePeople fromId toId reason =>
      cases hstep
      refine iff_of_true ?_ trivial
      cases hmerge : b.mergePeople fromId toId reason with
      | error e => exact .refl b
      | ok r =>
          obtain ⟨hne, hfrom, hto, heq⟩ := mergePeople_cases hmerge
          obtain ⟨p, hp⟩ := Option.isSome_iff_exists.mp hfrom
          obtain ⟨q, hq⟩ := Option.isSome_iff_exists.mp hto
          have hkeyed := keyed_takeOver (y := fromId) h ⟨q, byKey_some hq⟩
          have hcarried := carried_absorbPerson hkeyed ⟨q, byKey_some hq⟩ ⟨p, byKey_some hp⟩ (Ne.symm hne)
          show Carried b r.1
          rw [heq]
          exact ⟨hcarried.tags, hcarried.notes⟩
  | splitIdentity identityId reason =>
      cases hstep
      cases hident : b.identity identityId with
      | none =>
          have hsplit : b.splitIdentity identityId reason
              = .error (.lookup s!"identity {identityId} not found") := by
            unfold Base.splitIdentity
            rw [hident]
          rw [hsplit]
          exact iff_of_true (.refl b) fun i hi hid => absurd hid (byKey_none.mp hident i hi)
      | some ident =>
          obtain ⟨hmem, rfl⟩ := byKey_some hident
          obtain ⟨r, hsplit⟩ : ∃ r, b.splitIdentity ident.id reason = .ok r := by
            unfold Base.splitIdentity
            rw [hident]
            exact ⟨_, rfl⟩
          obtain ⟨ident', -, hsame, -, heq⟩ := splitIdentity_cases hsplit
          cases hident.symm.trans hsame
          rw [hsplit]
          show Carried b r.1 ↔ _
          rw [heq]
          have hlog : Carried b (((b.detach ident).deleteIfEmpty ident.personId).log
              ⟨.split, ident.personId, b.nextPerson, some ident.id, reason⟩) ↔
              Carried b ((b.detach ident).deleteIfEmpty ident.personId) :=
            ⟨fun hc => ⟨hc.tags, hc.notes⟩, fun hc => ⟨hc.tags, hc.notes⟩⟩
          rw [hlog, carried_detach h hmem]
          constructor
          · intro hshared i hi hid
            obtain rfl := h.identity_ext hi hmem hid
            exact hshared
          · intro hmeets
            exact hmeets ident hmem rfl

/-! ## Every run -/

/-- **Tags and notes.** From any base, a run whose steps meet the condition carries every tag and every
    note, and a step carries them only if it meets the condition. -/
theorem tags_and_notes_carried (decimal : Char → Bool) (s : Base) (h : Keyed s) :
    (∀ t, Run (step decimal) meets s t → Carried s t) ∧
      ∀ t a u, Run (step decimal) Always s t → step decimal t a = some u → (Carried t u ↔ meets t a) := by
  constructor
  · intro t hrun
    exact hrun.relation (P := Keyed) .refl (fun _ _ _ => .trans) (fun _ _ _ hx _ hstep => keyed_step hx hstep)
      (fun _ _ _ hx hmeets hstep => (carried_step hx hstep).mpr hmeets) h
  · intro t a u hrun hstep
    have hkeyed : Keyed t := hrun.invariant (fun _ _ _ hx _ hx' => keyed_step hx hx') h
    exact carried_step hkeyed hstep

/-! ## A split that loses a tag -/

/-- A person with a tag and one identity. -/
def tagged : Base :=
  ⟨[⟨1, some "Anna", none, ["vip"], none⟩], [⟨1, 1, false, .telegram, 5, none, some "Anna", none, none, false⟩],
    [], 2, 2⟩

theorem keyed_tagged : Keyed tagged where
  people_nodup := by decide
  identities_nodup := by decide
  key_nodup := by decide
  owned := by decide
  person_fresh := by decide
  identity_fresh := by decide

/-- The split deletes the old person, and its tag with it. -/
theorem tags_and_notes_fail :
    Keyed tagged ∧ ∃ t, Run (step asciiDigit) Always tagged t ∧ ¬Carried tagged t := by
  refine ⟨keyed_tagged, (step asciiDigit tagged (.splitIdentity 1 none)).get rfl,
    .single (.splitIdentity 1 none) trivial (Option.some_get _).symm, fun hcarried => ?_⟩
  obtain ⟨p, hp, htag⟩ := hcarried.tags ⟨1, some "Anna", none, ["vip"], none⟩ (by decide) "vip" (by decide)
  have hpeople : ((step asciiDigit tagged (.splitIdentity 1 none)).get rfl).people.all
      (fun p => !p.tags.contains "vip") = true := by decide +kernel
  have hnone := List.all_eq_true.mp hpeople p hp
  simp [htag] at hnone

/-! ## A run that loses nothing -/

/-- Anna twice, Boris, and a third Anna of whom the first has all the words. -/
def wordy : Base :=
  ⟨[⟨1, some "Anna", none, ["vip"], some "met in May"⟩, ⟨2, some "A.", none, ["work"], some "lawyer"⟩,
      ⟨3, some "Anna M.", none, ["vip"], none⟩, ⟨4, some "Boris", none, ["family"], some "brother"⟩],
    [⟨1, 1, false, .telegram, 5, none, some "Anna", none, none, false⟩,
      ⟨2, 2, false, .max, 6, none, some "A.", none, none, false⟩,
      ⟨3, 2, false, .telegram, 7, none, some "A.", none, none, false⟩,
      ⟨4, 3, false, .max, 8, none, some "Anna M.", none, none, false⟩,
      ⟨5, 4, false, .telegram, 9, none, some "Boris", none, none, false⟩],
    [], 5, 6⟩

theorem keyed_wordy : Keyed wordy where
  people_nodup := by decide
  identities_nodup := by decide
  key_nodup := by decide
  owned := by decide
  person_fresh := by decide
  identity_fresh := by decide

/-- The second Anna is merged into the first, with her two identities; one of the three is split off again; then the
    only identity of the third, who is deleted; and Boris gets a phone. -/
def mergeAndSplits : List Action :=
  [.mergePeople 2 1 (some "same person"), .splitIdentity 3 none, .splitIdentity 4 none,
    .upsertIdentity .telegram ⟨9, none, some "Boris", none, some "8 900 123-45-67", false⟩ none]

/-- The condition, where the old person stays or has no notes. -/
def meetsTest (b : Base) : Action → Bool
  | .splitIdentity identityId _ => b.identities.all fun i => i.id != identityId ||
      (b.identities.any fun j => j.personId == i.personId && j != i) ||
      b.people.all fun p => p.id != i.personId ||
        p.notes.isNone && p.tags.all fun tag => b.people.any fun q => q.id != p.id && q.tags.contains tag
  | _ => true

theorem meetsTest_spec (b : Base) (a : Action) (h : meetsTest b a = true) : meets b a := by
  cases a with
  | splitIdentity identityId reason =>
      intro i hi hid honly p hp hperson
      have htest := List.all_eq_true.mp h i hi
      rw [Bool.or_eq_true, Bool.or_eq_true] at htest
      rcases htest with (hother | hstays) | hshared
      · exact absurd hid (bne_iff_ne.mp hother)
      · obtain ⟨j, hj, hboth⟩ := List.any_eq_true.mp hstays
        obtain ⟨hsame, hne⟩ := Bool.and_eq_true_iff.mp hboth
        exact absurd (honly j hj (beq_iff_eq.mp hsame)) (bne_iff_ne.mp hne)
      · rcases Bool.or_eq_true_iff.mp (List.all_eq_true.mp hshared p hp) with hother | hwords
        · exact absurd hperson (bne_iff_ne.mp hother)
        · obtain ⟨hnotes, htags⟩ := Bool.and_eq_true_iff.mp hwords
          refine ⟨fun tag htag => ?_, fun note hnote => ?_⟩
          · obtain ⟨q, hq, hboth⟩ := List.any_eq_true.mp (List.all_eq_true.mp htags tag htag)
            obtain ⟨hne, hmem⟩ := Bool.and_eq_true_iff.mp hboth
            exact ⟨q, hq, bne_iff_ne.mp hne, List.contains_iff_mem.mp hmem⟩
          · rw [hnote] at hnotes
            cases hnotes
  | _ => exact trivial

theorem mergeAndSplits_possible :
    (execOk (step asciiDigit) meetsTest wordy mergeAndSplits).isSome = true := by
  decide +kernel

theorem tags_and_notes_mergeAndSplits :
    Carried wordy ((execOk (step asciiDigit) meetsTest wordy mergeAndSplits).get mergeAndSplits_possible) :=
  (tags_and_notes_carried asciiDigit wordy keyed_wordy).1 _
    (Run.of_execOk meetsTest_spec (Option.some_get mergeAndSplits_possible).symm)

/-- Who is left. -/
example : ((execOk (step asciiDigit) meetsTest wordy mergeAndSplits).get mergeAndSplits_possible).people.map
    (fun p => (p.id, p.tags, p.notes)) = [(1, ["vip", "work"], some "met in May\nlawyer"),
      (4, ["family"], some "brother"), (5, [], none), (6, [], none)] := by
  decide +kernel

end MyPerson.People
