import MyPerson.Lib.Run
import MyPerson.People.Base

/-!
# `People.Structure` — the structure of the contacts base

Whatever calls come in whatever order, every identity belongs to one person that exists, its
`(platform, external_user_id)` is its own, and no person is left without an identity. An automatic merge
moves an unpinned identity to an older person, and nothing else moves in `upsert_identity`.

## Contents
- `Keyed`: what the schema and the sequences promise; `Sound`: what the calls add;
- one lemma for each kind of statement, then one for each call;
- `base_structure`, over every run.
-/

namespace MyPerson.People

open Lib
open WriteLimits (Platform)

variable {b b' : Base} {i j : Identity} {p q : Person} {x y : Nat}

/-! ## The invariant -/

/-- Keys are unique, `identities.person_id` refers to a person, the sequences are ahead of the ids. -/
structure Keyed (b : Base) : Prop where
  people_nodup     : (b.people.map Person.id).Nodup
  identities_nodup : (b.identities.map Identity.id).Nodup
  key_nodup        : (b.identities.map Identity.key).Nodup
  owned            : ∀ i ∈ b.identities, ∃ p ∈ b.people, p.id = i.personId
  person_fresh     : ∀ p ∈ b.people, p.id < b.nextPerson
  identity_fresh   : ∀ i ∈ b.identities, i.id < b.nextIdentity

/-- Every person but `x` has an identity. -/
def InhabitedBut (x : Nat) (b : Base) : Prop :=
  ∀ p ∈ b.people, p.id ≠ x → ∃ i ∈ b.identities, i.personId = p.id

structure Sound (b : Base) : Prop extends Keyed b where
  inhabited : ∀ p ∈ b.people, ∃ i ∈ b.identities, i.personId = p.id

theorem Sound.inhabitedBut (h : Sound b) (x : Nat) : InhabitedBut x b := fun p hp _ => h.inhabited p hp

theorem sound_emptyBase : Sound emptyBase where
  people_nodup := List.nodup_nil
  identities_nodup := List.nodup_nil
  key_nodup := List.nodup_nil
  owned := nofun
  person_fresh := nofun
  identity_fresh := nofun
  inhabited := nofun

/-- The identities of `b` are still there; they moved to older persons only, the pinned ones not at all. -/
def MovesDown (b b' : Base) : Prop :=
  ∀ i ∈ b.identities, ∃ j ∈ b'.identities, j.id = i.id ∧ j.key = i.key ∧ j.personId ≤ i.personId ∧
    (i.personPinned = true → j.personId = i.personId ∧ j.personPinned = true)

theorem MovesDown.of_identities (h : b'.identities = b.identities) : MovesDown b b' := by
  intro i hi
  exact ⟨i, h ▸ hi, rfl, rfl, Nat.le_refl _, fun hpin => ⟨rfl, hpin⟩⟩

theorem MovesDown.trans {b'' : Base} (h : MovesDown b b') (h' : MovesDown b' b'') : MovesDown b b'' := by
  intro i hi
  obtain ⟨j, hj, hid, hkey, hle, hpin⟩ := h i hi
  obtain ⟨k, hk, hid', hkey', hle', hpin'⟩ := h' j hj
  refine ⟨k, hk, hid'.trans hid, hkey'.trans hkey, Nat.le_trans hle' hle, fun hpinned => ?_⟩
  obtain ⟨hperson, hstill⟩ := hpin hpinned
  obtain ⟨hperson', hstill'⟩ := hpin' hstill
  exact ⟨hperson'.trans hperson, hstill'⟩

/-! ## Lookups -/

theorem Keyed.identity_ext (h : Keyed b) (hi : i ∈ b.identities) (hj : j ∈ b.identities)
    (heq : i.id = j.id) : i = j := eq_of_key h.identities_nodup hi hj heq

/-! ## Statements -/

/-- Identities get other columns, their ids and keys stay and their persons exist. -/
theorem Keyed.moveIdentities {sel : Identity → Bool} {set : Identity → Identity} (h : Keyed b)
    (hid : ∀ i, (set i).id = i.id) (hkey : ∀ i, (set i).key = i.key)
    (howned : ∀ i ∈ b.identities, sel i = true → ∃ p ∈ b.people, p.id = (set i).personId) :
    Keyed (b.moveIdentities sel set) where
  people_nodup := h.people_nodup
  identities_nodup := by
    show ((updateWhere b.identities sel set).map Identity.id).Nodup
    rw [map_updateWhere Identity.id hid]
    exact h.identities_nodup
  key_nodup := by
    show ((updateWhere b.identities sel set).map Identity.key).Nodup
    rw [map_updateWhere Identity.key hkey]
    exact h.key_nodup
  owned := by
    intro i hi
    rcases of_mem_updateWhere hi with ⟨hi, -⟩ | ⟨j, hj, hsel, rfl⟩
    · exact h.owned i hi
    · exact howned j hj hsel
  person_fresh := h.person_fresh
  identity_fresh := by
    intro i hi
    rcases of_mem_updateWhere hi with ⟨hi, -⟩ | ⟨j, hj, -, rfl⟩
    · exact h.identity_fresh i hi
    · rw [hid]
      exact h.identity_fresh j hj

/-- Identities that leave `x` leave no one else behind. -/
theorem InhabitedBut.moveIdentities {sel : Identity → Bool} {set : Identity → Identity}
    (h : InhabitedBut x b) (hfrom : ∀ i ∈ b.identities, sel i = true → i.personId = x ∨ (set i).personId = i.personId) :
    InhabitedBut x (b.moveIdentities sel set) := by
  intro p hp hne
  obtain ⟨i, hi, hperson⟩ := h p hp hne
  by_cases hsel : sel i = true
  · rcases hfrom i hi hsel with hx | hstay
    · exact absurd (hperson ▸ hx) hne
    · exact ⟨set i, mem_updateWhere_of_pos hi hsel, hstay.trans hperson⟩
  · exact ⟨i, mem_updateWhere_of_not hi (by simpa using hsel), hperson⟩

/-- An update of people that keeps their ids. -/
def Base.setPeople (b : Base) (sel : Person → Bool) (set : Person → Person) : Base :=
  { b with people := updateWhere b.people sel set }

theorem Keyed.setPeople {sel : Person → Bool} {set : Person → Person} (h : Keyed b)
    (hid : ∀ p, (set p).id = p.id) : Keyed (b.setPeople sel set) where
  people_nodup := by
    show ((updateWhere b.people sel set).map Person.id).Nodup
    rw [map_updateWhere Person.id hid]
    exact h.people_nodup
  identities_nodup := h.identities_nodup
  key_nodup := h.key_nodup
  owned := by
    intro i hi
    obtain ⟨p, hp, hperson⟩ := h.owned i hi
    obtain ⟨q, hq, heq⟩ := updated_of_mem sel set hp
    refine ⟨q, hq, ?_⟩
    rcases heq with rfl | rfl
    · exact hperson
    · rw [hid]
      exact hperson
  person_fresh := by
    intro p hp
    rcases of_mem_updateWhere hp with ⟨hp, -⟩ | ⟨q, hq, -, rfl⟩
    · exact h.person_fresh p hp
    · rw [hid]
      exact h.person_fresh q hq
  identity_fresh := h.identity_fresh

theorem InhabitedBut.setPeople {sel : Person → Bool} {set : Person → Person} (h : InhabitedBut x b)
    (hid : ∀ p, (set p).id = p.id) : InhabitedBut x (b.setPeople sel set) := by
  intro p hp hne
  rcases of_mem_updateWhere hp with ⟨hp, -⟩ | ⟨q, hq, -, rfl⟩
  · exact h p hp hne
  · rw [hid] at hne ⊢
    exact h q hq hne

theorem deleteIfEmpty_cases (b : Base) (x : Nat) :
    ((∃ i ∈ b.identities, i.personId = x) ∧ b.deleteIfEmpty x = b) ∨
      (∀ i ∈ b.identities, i.personId ≠ x) ∧ b.deleteIfEmpty x = b.deletePerson x := by
  unfold Base.deleteIfEmpty
  by_cases hleft : (b.identities.any fun i => i.personId == x) = true
  · rw [if_pos hleft]
    exact Or.inl ⟨by simpa using hleft, rfl⟩
  · rw [if_neg hleft]
    exact Or.inr ⟨by simpa using hleft, rfl⟩

theorem mem_deletePerson : p ∈ (b.deletePerson x).people ↔ p ∈ b.people ∧ p.id ≠ x := by
  show p ∈ deleteWhere b.people _ ↔ _
  rw [mem_deleteWhere]
  simp

theorem Keyed.deleteIfEmpty (h : Keyed b) (x : Nat) : Keyed (b.deleteIfEmpty x) := by
  rcases deleteIfEmpty_cases b x with ⟨-, heq⟩ | ⟨hnone, heq⟩
  · rw [heq]
    exact h
  · rw [heq]
    exact {
      people_nodup := h.people_nodup.sublist (map_deleteWhere_sublist Person.id)
      identities_nodup := h.identities_nodup
      key_nodup := h.key_nodup
      owned := fun i hi => by
        obtain ⟨p, hp, hperson⟩ := h.owned i hi
        exact ⟨p, mem_deletePerson.mpr ⟨hp, hperson ▸ hnone i hi⟩, hperson⟩
      person_fresh := fun p hp => h.person_fresh p (mem_deletePerson.mp hp).1
      identity_fresh := h.identity_fresh }

/-- The one person that may be without identities is deleted then. -/
theorem sound_deleteIfEmpty (h : Keyed b) (hin : InhabitedBut x b) : Sound (b.deleteIfEmpty x) := by
  refine ⟨h.deleteIfEmpty x, ?_⟩
  rcases deleteIfEmpty_cases b x with ⟨⟨i, hi, hx⟩, heq⟩ | ⟨-, heq⟩
  · rw [heq]
    intro p hp
    by_cases hpx : p.id = x
    · exact ⟨i, hi, hx.trans hpx.symm⟩
    · exact hin p hp hpx
  · rw [heq]
    intro p hp
    exact hin p (mem_deletePerson.mp hp).1 (mem_deletePerson.mp hp).2

theorem deleteIfEmpty_identities (b : Base) (x : Nat) : (b.deleteIfEmpty x).identities = b.identities := by
  unfold Base.deleteIfEmpty
  split <;> rfl

/-- The person of `y` absorbs nothing, or the one of `x` absorbs it; then `y` goes if it is empty. -/
theorem absorbPerson_cases (b : Base) (x y : Nat) :
    (b.person y = none ∧ b.absorbPerson x y = b.deleteIfEmpty y) ∨
      ∃ s, b.person y = some s ∧
        b.absorbPerson x y = (b.setPeople (fun p => p.id == x) s.absorb).deleteIfEmpty y := by
  unfold Base.absorbPerson
  cases b.person y with
  | none => exact Or.inl ⟨rfl, rfl⟩
  | some s => exact Or.inr ⟨s, rfl, rfl⟩

theorem Keyed.absorbPerson (h : Keyed b) (x y : Nat) : Keyed (b.absorbPerson x y) := by
  rcases absorbPerson_cases b x y with ⟨-, heq⟩ | ⟨s, -, heq⟩
  · rw [heq]
    exact h.deleteIfEmpty y
  · rw [heq]
    have hset : Keyed (b.setPeople (fun p => p.id == x) s.absorb) := h.setPeople fun _ => rfl
    exact hset.deleteIfEmpty y

theorem sound_absorbPerson (h : Keyed b) (hin : InhabitedBut y b) : Sound (b.absorbPerson x y) := by
  rcases absorbPerson_cases b x y with ⟨-, heq⟩ | ⟨s, -, heq⟩
  · rw [heq]
    exact sound_deleteIfEmpty h hin
  · rw [heq]
    exact sound_deleteIfEmpty (h.setPeople fun _ => rfl) (hin.setPeople fun _ => rfl)

theorem absorbPerson_identities (b : Base) (x y : Nat) : (b.absorbPerson x y).identities = b.identities := by
  unfold Base.absorbPerson
  rw [deleteIfEmpty_identities]
  cases b.person y <;> rfl

/-- The log is not part of the structure. -/
theorem Keyed.log {row : MergeLogRow} (h : Keyed b) : Keyed (b.log row) :=
  ⟨h.people_nodup, h.identities_nodup, h.key_nodup, h.owned, h.person_fresh, h.identity_fresh⟩

theorem Sound.log {row : MergeLogRow} (h : Sound b) : Sound (b.log row) := ⟨h.toKeyed.log, h.inhabited⟩

/-- A new person: all others keep what they have. -/
theorem Keyed.insertPerson (h : Keyed b) (name phone : Option String) :
    Keyed (b.insertPerson name phone).1 where
  people_nodup := by
    show ((b.people ++ [_]).map Person.id).Nodup
    rw [List.map_append, List.nodup_append]
    refine ⟨h.people_nodup, List.nodup_singleton _, ?_⟩
    intro k hk k' hk' heq
    obtain ⟨p, hp, rfl⟩ := List.mem_map.mp hk
    have hlt := h.person_fresh p hp
    simp only [List.map_cons, List.map_nil, List.mem_singleton] at hk'
    omega
  identities_nodup := h.identities_nodup
  key_nodup := h.key_nodup
  owned := by
    intro i hi
    obtain ⟨p, hp, hperson⟩ := h.owned i hi
    exact ⟨p, List.mem_append_left _ hp, hperson⟩
  person_fresh := by
    intro p hp
    show p.id < b.nextPerson + 1
    rcases List.mem_append.mp hp with hp | hp
    · exact Nat.lt_succ_of_lt (h.person_fresh p hp)
    · rw [List.mem_singleton.mp hp]
      exact Nat.lt_succ_self _
  identity_fresh := h.identity_fresh

/-- The new person is the only one without an identity. -/
theorem Sound.insertPerson_inhabitedBut (h : Sound b) (name phone : Option String) :
    InhabitedBut b.nextPerson (b.insertPerson name phone).1 := by
  intro p hp hne
  rcases List.mem_append.mp hp with hp | hp
  · exact h.inhabited p hp
  · rw [List.mem_singleton.mp hp] at hne
    exact absurd rfl hne

/-! ## `upsert_identity` -/

/-- A refreshed identity keeps its place. -/
theorem refresh_place (v : Values) (i : Identity) :
    (i.refresh v).id = i.id ∧ (i.refresh v).key = i.key ∧ (i.refresh v).personId = i.personId ∧
      (i.refresh v).personPinned = i.personPinned := ⟨rfl, rfl, rfl, rfl⟩

theorem keyed_updateIdentity (h : Keyed b) (platform : Platform) (ext : Int) (v : Values) :
    Keyed (b.updateIdentity platform ext v).1 :=
  h.moveIdentities (fun i => (refresh_place v i).1) (fun i => (refresh_place v i).2.1) fun i hi _ => h.owned i hi

theorem sound_updateIdentity (h : Sound b) (platform : Platform) (ext : Int) (v : Values) :
    Sound (b.updateIdentity platform ext v).1 := by
  refine ⟨keyed_updateIdentity h.toKeyed platform ext v, fun p hp => ?_⟩
  obtain ⟨i, hi, hperson⟩ := h.inhabited p hp
  obtain ⟨j, hj, rfl | rfl⟩ := updated_of_mem (fun i => i.key == (platform, ext)) (Identity.refresh v) hi
  · exact ⟨j, hj, hperson⟩
  · exact ⟨_, hj, hperson⟩

theorem movesDown_updateIdentity (b : Base) (platform : Platform) (ext : Int) (v : Values) :
    MovesDown b (b.updateIdentity platform ext v).1 := by
  intro i hi
  obtain ⟨j, hj, rfl | rfl⟩ := updated_of_mem (fun i => i.key == (platform, ext)) (Identity.refresh v) hi
  · exact ⟨j, hj, rfl, rfl, Nat.le_refl _, fun hpin => ⟨rfl, hpin⟩⟩
  · exact ⟨_, hj, rfl, rfl, Nat.le_refl _, fun hpin => ⟨rfl, hpin⟩⟩

/-- A new identity for a new person. -/
theorem keyed_create {platform : Platform} {row : UserRow} {v : Values} (h : Keyed b)
    (hnew : ∀ i ∈ b.identities, i.key ≠ (platform, row.externalId)) : Keyed (b.create platform row v) := by
  have hkeyed := h.insertPerson (displayName row.firstName row.lastName row.username) v.phone
  refine ⟨hkeyed.people_nodup, ?_, ?_, ?_, hkeyed.person_fresh, ?_⟩
  · show ((b.identities ++ [_]).map Identity.id).Nodup
    rw [List.map_append, List.nodup_append]
    refine ⟨h.identities_nodup, List.nodup_singleton _, ?_⟩
    intro k hk k' hk' heq
    obtain ⟨i, hi, rfl⟩ := List.mem_map.mp hk
    have hlt := h.identity_fresh i hi
    simp only [List.map_cons, List.map_nil, List.mem_singleton] at hk'
    omega
  · show ((b.identities ++ [_]).map Identity.key).Nodup
    rw [List.map_append, List.nodup_append]
    refine ⟨h.key_nodup, List.nodup_singleton _, ?_⟩
    intro k hk k' hk' heq
    obtain ⟨i, hi, rfl⟩ := List.mem_map.mp hk
    simp only [List.map_cons, List.map_nil, List.mem_singleton] at hk'
    exact hnew i hi (heq.trans hk')
  · intro i hi
    rcases List.mem_append.mp hi with hi | hi
    · exact hkeyed.owned i hi
    · rw [List.mem_singleton.mp hi]
      exact ⟨_, List.mem_append_right _ (List.mem_singleton_self _), rfl⟩
  · intro i hi
    show i.id < b.nextIdentity + 1
    rcases List.mem_append.mp hi with hi | hi
    · exact Nat.lt_succ_of_lt (h.identity_fresh i hi)
    · rw [List.mem_singleton.mp hi]
      exact Nat.lt_succ_self _

theorem sound_create {platform : Platform} {row : UserRow} {v : Values} (h : Sound b)
    (hnew : ∀ i ∈ b.identities, i.key ≠ (platform, row.externalId)) : Sound (b.create platform row v) := by
  refine ⟨keyed_create h.toKeyed hnew, fun p hp => ?_⟩
  rcases List.mem_append.mp hp with hp | hp
  · obtain ⟨i, hi, hperson⟩ := h.inhabited p hp
    exact ⟨i, List.mem_append_left _ hi, hperson⟩
  · rw [List.mem_singleton.mp hp]
    exact ⟨_, List.mem_append_right _ (List.mem_singleton_self _), rfl⟩

theorem movesDown_create (b : Base) (platform : Platform) (row : UserRow) (v : Values) :
    MovesDown b (b.create platform row v) := by
  intro i hi
  exact ⟨i, List.mem_append_left _ hi, rfl, rfl, Nat.le_refl _, fun hpin => ⟨rfl, hpin⟩⟩

theorem keyed_findOrCreate (h : Keyed b) (platform : Platform) (row : UserRow) (v : Values) :
    Keyed (b.findOrCreate platform row v).1 := by
  rcases findOrCreate_cases b platform row v with heq | ⟨hnew, heq⟩
  · rw [heq]
    exact keyed_updateIdentity h platform row.externalId v
  · rw [heq]
    exact keyed_create h hnew

theorem findOrCreate_spec (h : Sound b) (platform : Platform) (row : UserRow) (v : Values) :
    Sound (b.findOrCreate platform row v).1 ∧ MovesDown b (b.findOrCreate platform row v).1 := by
  rcases findOrCreate_cases b platform row v with heq | ⟨hnew, heq⟩
  · rw [heq]
    exact ⟨sound_updateIdentity h platform row.externalId v, movesDown_updateIdentity b platform row.externalId v⟩
  · rw [heq]
    exact ⟨sound_create h hnew, movesDown_create b platform row v⟩

theorem keyed_fillPrimaryPhone (h : Keyed b) (id : Nat) (phone : String) : Keyed (b.fillPrimaryPhone id phone) :=
  h.setPeople fun _ => rfl

theorem sound_fillPrimaryPhone (h : Sound b) (id : Nat) (phone : String) : Sound (b.fillPrimaryPhone id phone) := by
  refine ⟨keyed_fillPrimaryPhone h.toKeyed id phone, fun p hp => ?_⟩
  rcases of_mem_updateWhere hp with ⟨hp, -⟩ | ⟨q, hq, -, rfl⟩
  · exact h.inhabited p hp
  · exact h.inhabited q hq

/-- What the query of `_auto_merge` selects. -/
theorem mem_twins {me : Identity} : i ∈ b.twins me ↔
    i ∈ b.identities ∧ i.phone = me.phone ∧ i.platform ≠ me.platform ∧ i.personId ≠ me.personId ∧
      i.personPinned = false := by
  unfold Base.twins
  rw [List.mem_filter]
  simp [and_assoc]

/-- The identity that an automatic merge moves: unpinned, and on the younger of the two persons. -/
theorem exists_moved {me other : Identity} (hme : me ∈ b.identities) (hfree : me.personPinned = false)
    (hother : other ∈ b.twins me) :
    ∃ m ∈ b.identities, m.id = (if me.personId = max me.personId other.personId then me.id else other.id) ∧
      m.personId = max me.personId other.personId ∧ m.personPinned = false := by
  obtain ⟨hmem, -, -, -, hunpinned⟩ := mem_twins.mp hother
  by_cases hsource : me.personId = max me.personId other.personId
  · rw [if_pos hsource]
    exact ⟨me, hme, rfl, hsource, hfree⟩
  · rw [if_neg hsource]
    exact ⟨other, hmem, rfl, by omega, hunpinned⟩

/-- The base after the moved identity has its new person. -/
def Base.moveOne (b : Base) (m : Identity) (target : Nat) : Base :=
  b.moveIdentities (fun i => i.id == m.id) fun i => { i with personId := target }

/-- **An automatic merge**: an unpinned identity moves from the younger to the older person. -/
theorem mergePair_cases {me other : Identity} (h : Keyed b) (hme : me ∈ b.identities)
    (hfree : me.personPinned = false) (hother : other ∈ b.twins me) :
    ∃ m ∈ b.identities, ∃ target source row, target < source ∧ m.personId = source ∧ m.personPinned = false ∧
      (∃ p ∈ b.people, p.id = target) ∧
      b.mergePair me other = ((b.moveOne m target).absorbPerson target source).log row := by
  obtain ⟨hmem, -, -, hperson, -⟩ := mem_twins.mp hother
  obtain ⟨m, hm, hmid, hsource, hunpinned⟩ := exists_moved hme hfree hother
  refine ⟨m, hm, min me.personId other.personId, max me.personId other.personId,
    ⟨.autoMerge, max me.personId other.personId, min me.personId other.personId, some m.id,
      some ("phone " ++ me.phone.getD "None")⟩, by omega, hsource, hunpinned, ?_, ?_⟩
  · rcases Nat.le_total me.personId other.personId with hle | hle
    · rw [Nat.min_eq_left hle]
      exact h.owned me hme
    · rw [Nat.min_eq_right hle]
      exact h.owned other hmem
  · unfold Base.mergePair
    simp only [← hmid]
    rfl

theorem keyed_moveOne {m : Identity} (h : Keyed b) (hx : ∃ p ∈ b.people, p.id = x) : Keyed (b.moveOne m x) :=
  h.moveIdentities (fun _ => rfl) (fun _ => rfl) fun _ _ _ => hx

theorem mergePair_spec {me other : Identity} (h : Sound b) (hme : me ∈ b.identities)
    (hfree : me.personPinned = false) (hother : other ∈ b.twins me) :
    Sound (b.mergePair me other) ∧ MovesDown b (b.mergePair me other) := by
  obtain ⟨m, hm, target, source, row, hlt, rfl, hunpinned, htarget, heq⟩ := mergePair_cases h.toKeyed hme hfree hother
  rw [heq]
  have honly : ∀ i ∈ b.identities, (i.id == m.id) = true → i = m := fun i hi hsel =>
    h.toKeyed.identity_ext hi hm (by simpa using hsel)
  have hin : InhabitedBut m.personId (b.moveOne m target) :=
    (h.inhabitedBut _).moveIdentities fun i hi hsel => Or.inl (by rw [honly i hi hsel])
  refine ⟨(sound_absorbPerson (keyed_moveOne h.toKeyed htarget) hin).log, ?_⟩
  intro i hi
  have hsame := absorbPerson_identities (b.moveOne m target) target m.personId
  by_cases hsel : (i.id == m.id) = true
  · -- the one that moves
    obtain rfl := honly i hi hsel
    refine ⟨{ i with personId := target }, ?_, rfl, rfl, Nat.le_of_lt hlt, ?_⟩
    · exact hsame ▸ mem_updateWhere_of_pos hi hsel
    · intro hpin
      rw [hunpinned] at hpin
      cases hpin
  · refine ⟨i, ?_, rfl, rfl, Nat.le_refl _, fun hpin => ⟨rfl, hpin⟩⟩
    exact hsame ▸ mem_updateWhere_of_not hi (by simpa using hsel)

/-- **`upsert_identity`.** -/
theorem upsertIdentity_spec {decimal : Char → Bool} {platform : Platform} {row : UserRow}
    {answer : Option Identity} {id : Nat} (h : Sound b)
    (hupsert : b.upsertIdentity decimal platform row answer = some (b', id)) : Sound b' ∧ MovesDown b b' := by
  obtain ⟨c, hfound, hcases⟩ := upsertIdentity_cases hupsert
  have hspec := findOrCreate_spec h platform row (row.values decimal)
  rw [hfound] at hspec
  obtain ⟨hsound, hmoves⟩ := hspec
  rcases hcases with ⟨-, rfl⟩ | ⟨phone, -, hmerge⟩
  · exact ⟨hsound, hmoves⟩
  · have hfill : MovesDown c (c.fillPrimaryPhone id phone) := .of_identities rfl
    have hfilled := sound_fillPrimaryPhone hsound id phone
    rcases autoMerge_cases hmerge with rfl | ⟨me, other, hme, hfree, hother, rfl⟩
    · exact ⟨hfilled, hmoves.trans hfill⟩
    · obtain ⟨hpair, hdown⟩ := mergePair_spec hfilled hme hfree hother
      exact ⟨hpair, hmoves.trans (hfill.trans hdown)⟩

/-! ## The owner's calls -/

theorem keyed_takeOver (h : Keyed b) (hx : ∃ p ∈ b.people, p.id = x) : Keyed (b.takeOver x y) := by
  have hmoved : Keyed (b.moveIdentities (fun i => i.personId == y)
      fun i => { i with personId := x, personPinned := true }) :=
    h.moveIdentities (fun _ => rfl) (fun _ => rfl) fun _ _ _ => hx
  exact hmoved.moveIdentities (fun _ => rfl) (fun _ => rfl) fun i hi _ => hmoved.owned i hi

theorem inhabitedBut_takeOver (h : Sound b) : InhabitedBut y (b.takeOver x y) := by
  unfold Base.takeOver
  refine InhabitedBut.moveIdentities ?_ fun i _ _ => Or.inr rfl
  exact (h.inhabitedBut y).moveIdentities fun i _ hsel => Or.inl (by simpa using hsel)

/-- **`merge_people`.** -/
theorem sound_mergePeople {reason : Option String} {id : Nat} (h : Sound b)
    (hmerge : b.mergePeople x y reason = .ok (b', id)) : Sound b' := by
  obtain ⟨-, -, hto, rfl⟩ := mergePeople_cases hmerge
  obtain ⟨p, hp⟩ := Option.isSome_iff_exists.mp hto
  exact (sound_absorbPerson (keyed_takeOver h.toKeyed ⟨p, byKey_some hp⟩) (inhabitedBut_takeOver h)).log

theorem mem_newPerson (b : Base) (name phone : Option String) :
    (⟨b.nextPerson, name, phone, [], none⟩ : Person) ∈ (b.insertPerson name phone).1.people :=
  List.mem_append_right _ (List.mem_singleton_self _)

theorem keyed_detach (h : Keyed b) (ident : Identity) : Keyed (b.detach ident) :=
  (h.insertPerson _ _).moveIdentities (fun _ => rfl) (fun _ => rfl) fun _ _ _ => ⟨_, mem_newPerson b _ _, rfl⟩

theorem inhabitedBut_detach (h : Sound b) (hi : i ∈ b.identities) : InhabitedBut i.personId (b.detach i) := by
  intro p hp hne
  by_cases hnew : p.id = b.nextPerson
  · exact ⟨_, mem_updateWhere_of_pos hi (by simp), hnew.symm⟩
  · obtain ⟨j, hj, hperson⟩ := h.insertPerson_inhabitedBut _ _ p hp hnew
    have hother : j.id ≠ i.id := by
      intro heq
      rw [h.toKeyed.identity_ext hj hi heq] at hperson
      exact hne hperson.symm
    exact ⟨j, mem_updateWhere_of_not hj (by simpa using hother), hperson⟩

/-- **`split_identity`.** -/
theorem sound_splitIdentity {reason : Option String} {id : Nat} (h : Sound b)
    (hsplit : b.splitIdentity x reason = .ok (b', id)) : Sound b' := by
  obtain ⟨ident, hmem, -, -, rfl⟩ := splitIdentity_cases hsplit
  exact (sound_deleteIfEmpty (keyed_detach h.toKeyed ident) (inhabitedBut_detach h hmem)).log

/-! ## Steps -/

theorem keyed_step {decimal : Char → Bool} {a : Action} (h : Keyed b) (hstep : step decimal b a = some b') :
    Keyed b' := by
  cases a with
  | upsertIdentity platform row answer =>
      obtain ⟨⟨c, id⟩, hupsert, rfl⟩ := Option.map_eq_some_iff.mp hstep
      obtain ⟨d, hfound, hcases⟩ := upsertIdentity_cases hupsert
      have hd := keyed_findOrCreate h platform row (row.values decimal)
      rw [hfound] at hd
      rcases hcases with ⟨-, rfl⟩ | ⟨phone, -, hmerge⟩
      · exact hd
      · have hfilled := keyed_fillPrimaryPhone hd id phone
        rcases autoMerge_cases hmerge with rfl | ⟨me, other, hme, hfree, hother, rfl⟩
        · exact hfilled
        · obtain ⟨m, -, target, source, row, -, -, -, htarget, heq⟩ := mergePair_cases hfilled hme hfree hother
          rw [heq]
          exact ((keyed_moveOne hfilled htarget).absorbPerson target source).log
  | mergePeople fromId toId reason =>
      cases hstep
      cases hmerge : b.mergePeople fromId toId reason with
      | error e => exact h
      | ok r =>
          obtain ⟨-, -, hto, heq⟩ := mergePeople_cases hmerge
          obtain ⟨p, hp⟩ := Option.isSome_iff_exists.mp hto
          show Keyed r.1
          rw [heq]
          exact ((keyed_takeOver h ⟨p, byKey_some hp⟩).absorbPerson toId fromId).log
  | splitIdentity identityId reason =>
      cases hstep
      cases hsplit : b.splitIdentity identityId reason with
      | error e => exact h
      | ok r =>
          obtain ⟨ident, -, -, -, heq⟩ := splitIdentity_cases hsplit
          show Keyed r.1
          rw [heq]
          exact ((keyed_detach h ident).deleteIfEmpty ident.personId).log

/-- **Step.** -/
theorem sound_step {decimal : Char → Bool} {a : Action} (h : Sound b) (hstep : step decimal b a = some b') :
    Sound b' := by
  cases a with
  | upsertIdentity platform row answer =>
      obtain ⟨⟨c, id⟩, hupsert, rfl⟩ := Option.map_eq_some_iff.mp hstep
      exact (upsertIdentity_spec h hupsert).1
  | mergePeople fromId toId reason =>
      cases hstep
      cases hmerge : b.mergePeople fromId toId reason with
      | error e => exact h
      | ok r => exact sound_mergePeople h hmerge
  | splitIdentity identityId reason =>
      cases hstep
      cases hsplit : b.splitIdentity identityId reason with
      | error e => exact h
      | ok r => exact sound_splitIdentity h hsplit

/-! ## The log -/

/-- Each automatic merge went to the older person. -/
def LoggedDown (b : Base) : Prop :=
  ∀ row ∈ b.mergeLog, row.action = .autoMerge → row.toPersonId < row.fromPersonId

theorem deleteIfEmpty_mergeLog (b : Base) (x : Nat) : (b.deleteIfEmpty x).mergeLog = b.mergeLog := by
  unfold Base.deleteIfEmpty
  split <;> rfl

theorem absorbPerson_mergeLog (b : Base) (x y : Nat) : (b.absorbPerson x y).mergeLog = b.mergeLog := by
  unfold Base.absorbPerson
  rw [deleteIfEmpty_mergeLog]
  cases b.person y <;> rfl

theorem findOrCreate_mergeLog (b : Base) (platform : Platform) (row : UserRow) (v : Values) :
    (b.findOrCreate platform row v).1.mergeLog = b.mergeLog := by
  rcases findOrCreate_cases b platform row v with heq | ⟨-, heq⟩
  · rw [heq]
    rfl
  · rw [heq]
    rfl

theorem LoggedDown.log {row : MergeLogRow} (h : LoggedDown b)
    (hrow : row.action = .autoMerge → row.toPersonId < row.fromPersonId) : LoggedDown (b.log row) := by
  intro r hr hauto
  rcases List.mem_append.mp hr with hr | hr
  · exact h r hr hauto
  · rw [List.mem_singleton.mp hr] at hauto ⊢
    exact hrow hauto

theorem LoggedDown.of_eq (h : LoggedDown b) (heq : b'.mergeLog = b.mergeLog) : LoggedDown b' := by
  intro r hr
  rw [heq] at hr
  exact h r hr

theorem loggedDown_step {decimal : Char → Bool} {a : Action} (h : LoggedDown b)
    (hstep : step decimal b a = some b') : LoggedDown b' := by
  cases a with
  | upsertIdentity platform row answer =>
      obtain ⟨⟨c, id⟩, hupsert, rfl⟩ := Option.map_eq_some_iff.mp hstep
      obtain ⟨d, hfound, hcases⟩ := upsertIdentity_cases hupsert
      have hlog := findOrCreate_mergeLog b platform row (row.values decimal)
      rw [hfound] at hlog
      have hd : LoggedDown d := h.of_eq hlog
      rcases hcases with ⟨-, rfl⟩ | ⟨phone, -, hmerge⟩
      · exact hd
      · rcases autoMerge_cases hmerge with rfl | ⟨me, other, -, -, hother, rfl⟩
        · exact hd
        · obtain ⟨-, -, -, hperson, -⟩ := mem_twins.mp hother
          refine LoggedDown.log (hd.of_eq (absorbPerson_mergeLog _ _ _)) fun _ => ?_
          show min me.personId other.personId < max me.personId other.personId
          omega
  | mergePeople fromId toId reason =>
      cases hstep
      cases hmerge : b.mergePeople fromId toId reason with
      | error e => exact h
      | ok r =>
          obtain ⟨-, -, -, heq⟩ := mergePeople_cases hmerge
          show LoggedDown r.1
          rw [heq]
          have hlog := absorbPerson_mergeLog (b.takeOver toId fromId) toId fromId
          exact LoggedDown.log (h.of_eq hlog) fun hauto => by cases hauto
  | splitIdentity identityId reason =>
      cases hstep
      cases hsplit : b.splitIdentity identityId reason with
      | error e => exact h
      | ok r =>
          obtain ⟨ident, -, -, -, heq⟩ := splitIdentity_cases hsplit
          show LoggedDown r.1
          rw [heq]
          have hlog := deleteIfEmpty_mergeLog (b.detach ident) ident.personId
          exact LoggedDown.log (h.of_eq hlog) fun hauto => by cases hauto

/-! ## Every run -/

/-- **The structure of the base.** After any calls on an empty base every identity belongs to one person,
    no two identities are of one user, no person is without an identity; `upsert_identity` moves no pinned
    identity, and each identity that it moves goes to an older person. -/
theorem base_structure (decimal : Char → Bool) (s : Base) (h : Run (step decimal) Always emptyBase s) :
    (∀ i ∈ s.identities, ∃! p, p ∈ s.people ∧ p.id = i.personId) ∧
      (s.identities.map Identity.key).Nodup ∧
      (∀ p ∈ s.people, ∃ i ∈ s.identities, i.personId = p.id) ∧
      (∀ platform row answer t, step decimal s (.upsertIdentity platform row answer) = some t → MovesDown s t) ∧
      LoggedDown s := by
  have hsound : Sound s := h.invariant (fun _ _ _ hx _ hstep => sound_step hx hstep) sound_emptyBase
  refine ⟨fun i hi => ?_, hsound.key_nodup, hsound.inhabited, fun platform row answer t hstep => ?_, ?_⟩
  · obtain ⟨p, hp, hperson⟩ := hsound.owned i hi
    refine ⟨p, ⟨hp, hperson⟩, fun q hq => ?_⟩
    exact eq_of_key hsound.people_nodup hq.1 hp (hq.2.trans hperson.symm)
  · obtain ⟨⟨c, id⟩, hupsert, rfl⟩ := Option.map_eq_some_iff.mp hstep
    exact (upsertIdentity_spec hsound hupsert).2
  · exact h.invariant (fun _ _ _ hx _ hstep => loggedDown_step hx hstep) nofun

def asciiDigit (c : Char) : Bool := c.isDigit

def anna : UserRow := ⟨1, none, some "Anna", none, some "8 900 123-45-67", false⟩

/-- Anna on both platforms, merged by her phone, and taken apart again. -/
def annaTwice : List Action :=
  [.upsertIdentity .telegram anna none,
    .upsertIdentity .max anna (some ⟨1, 1, false, .telegram, 1, none, some "Anna", none, some "+79001234567", false⟩),
    .splitIdentity 2 none]

theorem annaTwice_possible : (exec (step asciiDigit) emptyBase annaTwice).isSome = true := by
  decide +kernel

def annaBase : Base := (exec (step asciiDigit) emptyBase annaTwice).get annaTwice_possible

theorem base_structure_annaTwice :
    (∀ i ∈ annaBase.identities, ∃! p, p ∈ annaBase.people ∧ p.id = i.personId) ∧
      (annaBase.identities.map Identity.key).Nodup ∧
      (∀ p ∈ annaBase.people, ∃ i ∈ annaBase.identities, i.personId = p.id) ∧
      (∀ platform row answer t, step asciiDigit annaBase (.upsertIdentity platform row answer) = some t →
        MovesDown annaBase t) ∧
      LoggedDown annaBase :=
  base_structure asciiDigit annaBase (Run.get_exec annaTwice_possible)

end MyPerson.People
