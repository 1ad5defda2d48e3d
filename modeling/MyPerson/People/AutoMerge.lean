import MyPerson.Lib.Gossip
import MyPerson.People.Structure

/-!
# `People.AutoMerge` — how far an automatic merge goes

The rule is that unpinned identities with one phone on different platforms are of one person. Both
`_auto_merge`, the one of `upsert_identity` and the one of the migration, move a single identity at a
time: for all pairs of the phone this is enough in some bases only. `merge_people` moves every identity of
the person.

## Contents
- `Matched`, `Rule`, and the pass of the migration, `migrationAutoMerge`;
- `upsert_joins_iff`: when `upsert_identity` leaves its identity joined;
- `pass_joins_iff`: when the pass leaves the base in order;
- `auto_merge_complete`.
-/

namespace MyPerson.People

open Lib
open WriteLimits (Platform)

/-! ## The rule -/

/-- Both unpinned, with one phone, on different platforms. -/
def Matched (i j : Identity) : Prop :=
  i.personPinned = false ∧ j.personPinned = false ∧ i.phone.isSome = true ∧ j.phone = i.phone ∧
    j.platform ≠ i.platform

instance (i j : Identity) : Decidable (Matched i j) :=
  inferInstanceAs (Decidable (_ ∧ _ ∧ _ ∧ _ ∧ _))

/-- The identity is of the person of all that it is matched with. -/
def Base.Joined (b : Base) (i : Identity) : Prop := ∀ j ∈ b.identities, Matched i j → j.personId = i.personId

instance (b : Base) (i : Identity) : Decidable (b.Joined i) :=
  inferInstanceAs (Decidable (∀ j ∈ b.identities, _ → _))

def Rule (b : Base) : Prop := ∀ i ∈ b.identities, b.Joined i

instance (b : Base) : Decidable (Rule b) := inferInstanceAs (Decidable (∀ i ∈ b.identities, _))

theorem Matched.symm {i j : Identity} (h : Matched i j) : Matched j i := by
  obtain ⟨hi, hj, hsome, hphone, hplatform⟩ := h
  exact ⟨hj, hi, hphone ▸ hsome, hphone.symm, hplatform.symm⟩

/-! ## The pass of the migration -/

/-- The `JOIN` of `_auto_merge` in the migration. -/
def Base.phonePairs (b : Base) : List (Identity × Identity) :=
  b.identities.flatMap fun t => (b.identities.filter fun m =>
    t.phone.isSome && m.phone == t.phone && m.platform == .max && t.platform == .telegram &&
      t.personId != m.personId && !t.personPinned && !m.personPinned).map fun m => (t, m)

/-- An answer of the query: `ORDER BY t.id`, and any order for one `t`. -/
def Base.isPairs (b : Base) (pairs : List (Identity × Identity)) : Bool :=
  decide (pairs.Perm b.phonePairs) && decide (pairs.Pairwise fun p q => p.1.id ≤ q.1.id)

/-- One turn of the loop: the persons of the two are read again. -/
def Base.joinPair (b : Base) (t m : Nat) : Option (Base × Nat) :=
  -- `cur[t_id]`, `cur[m_id]`
  (b.identity t).bind fun curT => (b.identity m).bind fun curM =>
    if curT.personId = curM.personId then some (b, 0)
    else
      let target := min curT.personId curM.personId
      let source := max curT.personId curM.personId
      let moved := if curT.personId = source then t else m
      let b := b.moveIdentities (fun i => i.id == moved) fun i => { i with personId := target }
      -- the statements of `_absorb_person`; the log does not bear on the last of them
      some ((b.absorbPerson target source).log
        ⟨.autoMerge, source, target, some moved, some "phone (migrate_isolation)"⟩, 1)

/-- The loop, with the number of merges. -/
def Base.joinPairs : List (Identity × Identity) → Base → Nat → Option (Base × Nat)
  | [], b, merged => some (b, merged)
  | (t, m) :: pairs, b, merged =>
      (b.joinPair t.id m.id).bind fun (b, n) => Base.joinPairs pairs b (merged + n)

/-- `_auto_merge` of the migration; `none` when the query does not give these pairs. -/
def Base.migrationAutoMerge (b : Base) (pairs : List (Identity × Identity)) : Option (Base × Nat) :=
  if b.isPairs pairs then Base.joinPairs pairs b 0 else none

/-! ## `upsert_identity`: the conditions -/

/-- The person of a user, and whether it is pinned there; a new user gets the next person. -/
def Base.place (b : Base) (platform : Platform) (externalId : Int) : Nat × Bool :=
  match byKey Identity.key b.identities (platform, externalId) with
  | some i => (i.personId, i.personPinned)
  | none => (b.nextPerson, false)

/-- The unpinned identities with a phone on the other platform. -/
def Base.others (b : Base) (platform : Platform) (phone : String) : List Identity :=
  b.identities.filter fun i => i.phone == some phone && i.platform != platform && !i.personPinned

/-- One move brings everyone together: they are already, or all others share an older person, or a single
    one of them is elsewhere, on a younger person. -/
def OneMove (person : Nat) (others : List Identity) : Prop :=
  (∀ o ∈ others, o.personId = person) ∨ (∃ q < person, ∀ o ∈ others, o.personId = q) ∨
    ((others.filter fun o => o.personId != person).length = 1 ∧ ∀ o ∈ others, person ≤ o.personId)

instance (person : Nat) (others : List Identity) : Decidable (OneMove person others) :=
  inferInstanceAs (Decidable (_ ∨ _ ∨ _))

/-- The row brings no phone, or the identity is pinned, or one move is enough. -/
def UpsertJoins (decimal : Char → Bool) (b : Base) (platform : Platform) (row : UserRow) : Prop :=
  ∀ phone, normalizePhone decimal row.phone = some phone →
    (b.place platform row.externalId).2 = true ∨
      OneMove (b.place platform row.externalId).1 (b.others platform phone)

/-! ## `upsert_identity`: the proof -/

section

variable {decimal : Char → Bool} {b b' c : Base} {platform : Platform} {row : UserRow} {v : Values} {id : Nat}
  {me o : Identity} {phone : String}

theorem mem_others : o ∈ b.others platform phone ↔
    o ∈ b.identities ∧ o.phone = some phone ∧ o.platform ≠ platform ∧ o.personPinned = false := by
  unfold Base.others
  rw [List.mem_filter]
  simp [and_assoc]

/-- The identities of the other platforms are not concerned. -/
def SameElsewhere (platform : Platform) (b c : Base) : Prop :=
  ∀ o, o.platform ≠ platform → (o ∈ c.identities ↔ o ∈ b.identities)

theorem SameElsewhere.others (h : SameElsewhere platform b c) : o ∈ c.others platform phone ↔
    o ∈ b.others platform phone := by
  rw [mem_others, mem_others]
  constructor
  · rintro ⟨hmem, hphone, hplatform, hfree⟩
    exact ⟨(h o hplatform).mp hmem, hphone, hplatform, hfree⟩
  · rintro ⟨hmem, hphone, hplatform, hfree⟩
    exact ⟨(h o hplatform).mpr hmem, hphone, hplatform, hfree⟩

theorem sameElsewhere_updateIdentity (b : Base) (platform : Platform) (ext : Int) (v : Values) :
    SameElsewhere platform b (b.updateIdentity platform ext v).1 := by
  intro o hplatform
  have hother : (o.key == (platform, ext)) = false := by
    rw [beq_eq_false_iff_ne]
    exact fun heq => hplatform (congrArg Prod.fst heq)
  constructor
  · intro ho
    rcases of_mem_updateWhere ho with ⟨ho, -⟩ | ⟨i, -, hsel, rfl⟩
    · exact ho
    · -- a refreshed identity is of the row's platform
      rw [show (i.refresh v).key = i.key from rfl, hsel] at hother
      cases hother
  · exact fun ho => mem_updateWhere_of_not ho hother

theorem sameElsewhere_create (b : Base) (platform : Platform) (row : UserRow) (v : Values) :
    SameElsewhere platform b (b.create platform row v) := by
  intro o hplatform
  constructor
  · intro ho
    rcases List.mem_append.mp ho with ho | ho
    · exact ho
    · rw [List.mem_singleton.mp ho] at hplatform
      exact absurd rfl hplatform
  · exact fun ho => List.mem_append_left _ ho

/-- The user's identity after `_update_identity` or the two inserts: it has the row's phone, if there is one,
    and else the one it had. -/
structure Written (b : Base) (platform : Platform) (ext : Int) (v : Values) (c : Base) (me : Identity) : Prop where
  mem        : me ∈ c.identities
  onPlatform : me.platform = platform
  place      : (me.personId, me.personPinned) = b.place platform ext
  phone      : ∀ phone, v.phone = some phone → me.phone = some phone
  kept       : v.phone = none → me.phone = none ∨ ∃ i ∈ b.identities, i.phone = me.phone ∧ i.platform = platform ∧
                (i.personId, i.personPinned) = (me.personId, me.personPinned)
  elsewhere  : SameElsewhere platform b c

theorem findOrCreate_written (hfound : b.findOrCreate platform row v = (c, some id)) :
    ∃ me, me.id = id ∧ Written b platform row.externalId v c me := by
  cases hbefore : byKey Identity.key b.identities (platform, row.externalId) with
  | some i =>
      obtain ⟨hi, hkey⟩ := byKey_some hbefore
      have hplatform : i.platform = platform := congrArg Prod.fst hkey
      rw [findOrCreate_of_found hbefore] at hfound
      cases hfound
      refine ⟨i.refresh v, rfl, ?_, hplatform, ?_, ?_, ?_, sameElsewhere_updateIdentity b platform _ v⟩
      · exact mem_updateWhere_of_pos hi (by simpa using hkey)
      · show (i.personId, i.personPinned) = _
        unfold Base.place
        rw [hbefore]
      · intro phone hphone
        show v.phone.or i.phone = some phone
        rw [hphone]
        rfl
      · intro hnone
        refine Or.inr ⟨i, hi, ?_, hplatform, rfl⟩
        show i.phone = v.phone.or i.phone
        rw [hnone]
        rfl
  | none =>
      rw [findOrCreate_of_new hbefore] at hfound
      cases hfound
      refine ⟨_, rfl, List.mem_append_right _ (List.mem_singleton_self _), rfl, ?_, ?_, ?_,
        sameElsewhere_create b platform row v⟩
      · unfold Base.place
        rw [hbefore]
      · exact fun phone hphone => hphone
      · exact fun hnone => Or.inl hnone

/-- What the rule asks of an unpinned identity with a phone. -/
theorem joined_iff (hfree : me.personPinned = false) (hphone : me.phone = some phone) :
    b.Joined me ↔ ∀ x ∈ b.others me.platform phone, x.personId = me.personId := by
  constructor
  · intro hjoined x hx
    obtain ⟨hmem, hx, hplatform, hfree'⟩ := mem_others.mp hx
    exact hjoined x hmem ⟨hfree, hfree', by rw [hphone]; rfl, hx.trans hphone.symm, hplatform⟩
  · intro hall x hx hmatched
    obtain ⟨-, hfree', -, hsame, hplatform⟩ := hmatched
    exact hall x (mem_others.mpr ⟨hx, hsame.trans hphone, hplatform, hfree'⟩)

/-- The identity of this id is joined. -/
def Base.JoinedAt (b : Base) (id : Nat) : Prop := ∀ i ∈ b.identities, i.id = id → b.Joined i

instance (b : Base) (id : Nat) : Decidable (b.JoinedAt id) :=
  inferInstanceAs (Decidable (∀ i ∈ b.identities, _ → _))

theorem joinedAt_iff (hids : (b.identities.map Identity.id).Nodup) (hme : me ∈ b.identities) :
    b.JoinedAt me.id ↔ b.Joined me := by
  constructor
  · exact fun h => h me hme rfl
  · intro h i hi heq
    rw [eq_of_key hids hi hme heq]
    exact h

/-! ### One move -/

variable {os : List Identity} {p : Nat}

/-- The identity itself moves to the older person. -/
theorem oneMove_of_older (ho : o ∈ os) (hlt : o.personId < p) :
    OneMove p os ↔ ∀ x ∈ os, x.personId = o.personId := by
  constructor
  · rintro (hall | ⟨q, -, hall⟩ | ⟨-, hle⟩)
    · have hsame := hall o ho
      omega
    · exact fun x hx => (hall x hx).trans (hall o ho).symm
    · have hle := hle o ho
      omega
  · exact fun hall => Or.inr (Or.inl ⟨o.personId, hlt, hall⟩)

/-- The other identity moves to the person of this one. -/
theorem oneMove_of_younger (hnodup : os.Nodup) (ho : o ∈ os) (hlt : p < o.personId) :
    OneMove p os ↔ ∀ x ∈ os, x ≠ o → x.personId = p := by
  have happart : o ∈ os.filter fun x => x.personId != p := by
    rw [List.mem_filter]
    exact ⟨ho, by simp; omega⟩
  constructor
  · rintro (hall | ⟨q, hq, hall⟩ | ⟨hone, -⟩) x hx hne
    · exact hall x hx
    · have hsame := hall o ho
      omega
    · obtain ⟨a, ha⟩ := List.length_eq_one_iff.mp hone
      by_contra happart'
      have hx' : x ∈ os.filter fun x => x.personId != p := by
        rw [List.mem_filter]
        exact ⟨hx, by simpa using happart'⟩
      rw [ha, List.mem_singleton] at happart hx'
      exact hne (hx'.trans happart.symm)
  · intro hall
    refine Or.inr (Or.inr ⟨?_, fun x hx => ?_⟩)
    · have hreplicate : os.filter (fun x => x.personId != p)
          = List.replicate (os.filter fun x => x.personId != p).length o := by
        rw [List.eq_replicate_iff]
        refine ⟨rfl, fun x hx => ?_⟩
        obtain ⟨hx, hne⟩ := List.mem_filter.mp hx
        by_contra hother
        exact absurd (hall x hx hother) (by simpa using hne)
      have hle : (os.filter fun x => x.personId != p).length ≤ 1 := by
        rw [← List.nodup_replicate (a := o), ← hreplicate]
        exact hnodup.filter _
      have hpos := List.length_pos_of_mem happart
      omega
    · by_cases heq : x = o
      · rw [heq]
        omega
      · rw [hall x hx heq]

theorem OneMove.of_perm {os' : List Identity} (hperm : os.Perm os') (h : OneMove p os) : OneMove p os' := by
  rcases h with hall | ⟨q, hq, hall⟩ | ⟨hone, hle⟩
  · exact Or.inl fun o ho => hall o (hperm.mem_iff.mpr ho)
  · exact Or.inr (Or.inl ⟨q, hq, fun o ho => hall o (hperm.mem_iff.mpr ho)⟩)
  · refine Or.inr (Or.inr ⟨?_, fun o ho => hle o (hperm.mem_iff.mpr ho)⟩)
    rw [← (hperm.filter _).length_eq]
    exact hone

theorem mergePair_identities (c : Base) (me o : Identity) : (c.mergePair me o).identities =
    updateWhere c.identities
      (fun i => i.id == if me.personId = max me.personId o.personId then me.id else o.id)
      fun i => { i with personId := min me.personId o.personId } :=
  absorbPerson_identities _ _ _

theorem mergePair_ids_nodup (hids : (c.identities.map Identity.id).Nodup) (me o : Identity) :
    ((c.mergePair me o).identities.map Identity.id).Nodup := by
  have hsame : (c.mergePair me o).identities.map Identity.id = c.identities.map Identity.id := by
    rw [mergePair_identities]
    exact map_updateWhere Identity.id fun _ => rfl
  rw [hsame]
  exact hids

/-- **A merge with an older person.** -/
theorem mergePair_joined_older (hids : (c.identities.map Identity.id).Nodup) (hme : me ∈ c.identities)
    (hfree : me.personPinned = false) (hphone : me.phone = some phone) (hlt : o.personId < me.personId) :
    (c.mergePair me o).JoinedAt me.id ↔ ∀ x ∈ c.others me.platform phone, x.personId = o.personId := by
  have heq : (c.mergePair me o).identities
      = updateWhere c.identities (fun i => i.id == me.id) fun i => { i with personId := o.personId } := by
    rw [mergePair_identities, if_pos (by omega), Nat.min_eq_right (Nat.le_of_lt hlt)]
  have hids' := mergePair_ids_nodup hids me o
  have hmoved : { me with personId := o.personId } ∈ (c.mergePair me o).identities :=
    heq ▸ mem_updateWhere_of_pos hme (by simp)
  -- the identities of the other platform stay where they are
  have helsewhere : SameElsewhere me.platform c (c.mergePair me o) := by
    intro x hplatform
    rw [heq]
    constructor
    · intro hx
      rcases of_mem_updateWhere hx with ⟨hx, -⟩ | ⟨i, hi, hsel, rfl⟩
      · exact hx
      · rw [eq_of_key hids hi hme (by simpa using hsel)] at hplatform
        exact absurd rfl hplatform
    · intro hx
      refine mem_updateWhere_of_not hx ?_
      rw [beq_eq_false_iff_ne]
      intro hid
      exact hplatform (by rw [eq_of_key hids hx hme hid])
  have hjoined : (c.mergePair me o).Joined { me with personId := o.personId } ↔
      ∀ x ∈ (c.mergePair me o).others me.platform phone, x.personId = o.personId := joined_iff hfree hphone
  show (c.mergePair me o).JoinedAt { me with personId := o.personId }.id ↔ _
  rw [joinedAt_iff hids' hmoved, hjoined]
  exact forall_congr' fun x => imp_congr_left helsewhere.others

/-- **A merge with a younger person.** -/
theorem mergePair_joined_younger (hids : (c.identities.map Identity.id).Nodup) (hme : me ∈ c.identities)
    (hfree : me.personPinned = false) (hphone : me.phone = some phone) (ho : o ∈ c.others me.platform phone)
    (hlt : me.personId < o.personId) :
    (c.mergePair me o).JoinedAt me.id ↔
      ∀ x ∈ c.others me.platform phone, x ≠ o → x.personId = me.personId := by
  obtain ⟨homem, -, hoplatform, -⟩ := mem_others.mp ho
  have heq : (c.mergePair me o).identities
      = updateWhere c.identities (fun i => i.id == o.id) fun i => { i with personId := me.personId } := by
    rw [mergePair_identities, if_neg (by omega), Nat.min_eq_left (Nat.le_of_lt hlt)]
  have hids' := mergePair_ids_nodup hids me o
  have hother : ∀ x ∈ c.identities, x ≠ o → (x.id == o.id) = false := by
    intro x hx hne
    rw [beq_eq_false_iff_ne]
    exact fun hid => hne (eq_of_key hids hx homem hid)
  have hstays : me ∈ (c.mergePair me o).identities := by
    rw [heq]
    exact mem_updateWhere_of_not hme (hother me hme fun hsame => hoplatform (by rw [hsame]))
  rw [joinedAt_iff hids' hstays, joined_iff hfree hphone]
  constructor
  · intro hall x hx hne
    obtain ⟨hmem, hrest⟩ := mem_others.mp hx
    refine hall x (mem_others.mpr ⟨?_, hrest⟩)
    rw [heq]
    exact mem_updateWhere_of_not hmem (hother x hmem hne)
  · intro hall x hx
    obtain ⟨hmem, hrest⟩ := mem_others.mp hx
    rw [heq] at hmem
    rcases of_mem_updateWhere hmem with ⟨hmem, hsel⟩ | ⟨i, -, -, rfl⟩
    · refine hall x (mem_others.mpr ⟨hmem, hrest⟩) ?_
      rintro rfl
      simp at hsel
    · rfl

/-! ### The call -/

/-- What `_auto_merge` does with an unpinned identity. -/
theorem autoMerge_of_free {answer : Option Identity} (hme : c.identity id = some me)
    (hfree : me.personPinned = false) (hphone : me.phone = some phone) (htext : phone.isEmpty = false)
    (h : c.autoMerge id answer = some b') :
    (c.twins me = [] ∧ b' = c) ∨
      ∃ o ∈ c.twins me, (∀ x ∈ c.twins me, o.personId ≤ x.personId) ∧ b' = c.mergePair me o := by
  unfold Base.autoMerge at h
  rw [hme, Option.bind_some, if_neg (by simp [hfree, hphone, orNone, htext])] at h
  obtain ⟨hanswers, h⟩ := Option.ite_none_right_eq_some.mp h
  cases answer with
  | none => exact Or.inl ⟨List.isEmpty_iff.mp hanswers, (Option.some.inj h).symm⟩
  | some o =>
      obtain ⟨ho, hleast⟩ := Bool.and_eq_true_iff.mp hanswers
      exact Or.inr ⟨o, by simpa using ho, by simpa using hleast, (Option.some.inj h).symm⟩

theorem autoMerge_of_pinned {answer : Option Identity} (hme : c.identity id = some me)
    (hpin : me.personPinned = true) : c.autoMerge id answer = some c := by
  unfold Base.autoMerge
  rw [hme, Option.bind_some, if_pos (Or.inl hpin)]

/-- A normal phone begins with a plus. -/
theorem normalizePhone_isEmpty {raw : Option String} (h : normalizePhone decimal raw = some phone) :
    phone.isEmpty = false := by
  obtain ⟨text, -, h⟩ := Option.bind_eq_some_iff.mp h
  obtain ⟨-, h⟩ := Option.ite_none_left_eq_some.mp h
  cases h
  simp

/-- **`_auto_merge`** of an unpinned identity joins it if and only if one move is enough. -/
theorem autoMerge_joined_iff {answer : Option Identity} (hids : (c.identities.map Identity.id).Nodup)
    (hme : me ∈ c.identities) (hfree : me.personPinned = false) (hphone : me.phone = some phone)
    (htext : phone.isEmpty = false) (h : c.autoMerge me.id answer = some b') :
    b'.JoinedAt me.id ↔ OneMove me.personId (c.others me.platform phone) := by
  have hfound : c.identity me.id = some me := (byKey_eq_some hids).mpr ⟨hme, rfl⟩
  have htwins : ∀ x, x ∈ c.twins me ↔ x ∈ c.others me.platform phone ∧ x.personId ≠ me.personId := by
    intro x
    rw [mem_twins, mem_others, hphone]
    tauto
  rcases autoMerge_of_free hfound hfree hphone htext h with ⟨hempty, rfl⟩ | ⟨o, ho, hleast, rfl⟩
  · -- all the others are of this person
    have hall : ∀ x ∈ b'.others me.platform phone, x.personId = me.personId := by
      intro x hx
      by_contra happart
      have hx := (htwins x).mpr ⟨hx, happart⟩
      rw [hempty] at hx
      cases hx
    rw [joinedAt_iff hids hme, joined_iff hfree hphone]
    exact ⟨fun _ => Or.inl hall, fun _ => hall⟩
  · obtain ⟨ho, happart⟩ := (htwins o).mp ho
    rcases Nat.lt_or_gt_of_ne happart with hlt | hlt
    · rw [mergePair_joined_older hids hme hfree hphone hlt, oneMove_of_older ho hlt]
    · have hnodup : (c.others me.platform phone).Nodup := (List.Nodup.of_map Identity.id hids).filter _
      rw [mergePair_joined_younger hids hme hfree hphone ho hlt, oneMove_of_younger hnodup ho hlt]

/-- A row without a phone changes no phone and moves no one. -/
theorem joined_of_rule (hrule : Rule b) (hw : Written b platform row.externalId v c me) (hnone : v.phone = none) :
    c.Joined me := by
  intro j hj hmatched
  obtain ⟨hfree, hfree', hsome, hphone, hplatform⟩ := hmatched
  rcases hw.kept hnone with hnophone | ⟨i, hi, hsame, hi', hplace⟩
  · rw [hnophone] at hsome
    cases hsome
  · obtain ⟨hperson, hpinned⟩ := Prod.mk.inj hplace
    rw [hw.onPlatform] at hplatform
    have hj' := (hw.elsewhere j hplatform).mp hj
    rw [← hperson]
    exact hrule i hi j hj' ⟨hpinned.trans hfree, hfree', by rw [hsame, hsome], hphone.trans hsame.symm,
      by rw [hi']; exact hplatform⟩

/-- **`upsert_identity`.** It leaves the identity joined if and only if the row brings no phone, or the
    identity is pinned, or one move is enough. -/
theorem upsert_joins_iff {answer : Option Identity} (h : Keyed b) (hrule : Rule b)
    (hupsert : b.upsertIdentity decimal platform row answer = some (b', id)) :
    b'.JoinedAt id ↔ UpsertJoins decimal b platform row := by
  obtain ⟨c, hfound, hcases⟩ := upsertIdentity_cases hupsert
  obtain ⟨me, rfl, hw⟩ := findOrCreate_written hfound
  have hkeyed := keyed_findOrCreate h platform row (row.values decimal)
  rw [hfound] at hkeyed
  have hids : (c.identities.map Identity.id).Nodup := hkeyed.identities_nodup
  have hperson : me.personId = (b.place platform row.externalId).1 := congrArg Prod.fst hw.place
  have hpinned : me.personPinned = (b.place platform row.externalId).2 := congrArg Prod.snd hw.place
  rcases hcases with ⟨hnone, rfl⟩ | ⟨phone, hsome, hmerge⟩
  · rw [joinedAt_iff hids hw.mem]
    refine ⟨fun _ phone hphone => ?_, fun _ => joined_of_rule hrule hw hnone⟩
    rw [show normalizePhone decimal row.phone = none from hnone] at hphone
    cases hphone
  · have hcond : UpsertJoins decimal b platform row ↔
        (me.personPinned = true ∨ OneMove me.personId (b.others platform phone)) := by
      unfold UpsertJoins
      rw [← hperson, ← hpinned, show normalizePhone decimal row.phone = some phone from hsome]
      simp
    rw [hcond]
    by_cases hfree : me.personPinned = true
    · have hlookup : (c.fillPrimaryPhone me.id phone).identity me.id = some me :=
        (byKey_eq_some hids).mpr ⟨hw.mem, rfl⟩
      rw [autoMerge_of_pinned hlookup hfree] at hmerge
      cases hmerge
      refine ⟨fun _ => Or.inl hfree, fun _ i hi heq j hj hmatched => ?_⟩
      rw [eq_of_key hids hi hw.mem heq] at hmatched
      rw [hmatched.1] at hfree
      cases hfree
    · rw [Bool.not_eq_true] at hfree
      have hperm : (c.others platform phone).Perm (b.others platform phone) :=
        (List.perm_ext_iff_of_nodup ((List.Nodup.of_map Identity.id hids).filter _)
          ((List.Nodup.of_map Identity.id h.identities_nodup).filter _)).mpr fun _ => hw.elsewhere.others
      have hmerged := autoMerge_joined_iff (c := c.fillPrimaryPhone me.id phone) hids hw.mem hfree
        (hw.phone phone hsome) (normalizePhone_isEmpty hsome) hmerge
      rw [hmerged, hw.onPlatform, hfree]
      constructor
      · exact fun hone => Or.inr (OneMove.of_perm hperm hone)
      · rintro (hpin | hone)
        · cases hpin
        · exact OneMove.of_perm hperm.symm hone

/-- The query always has an answer. -/
theorem exists_answer (c : Base) (me : Identity) : ∃ answer, c.answers me answer = true := by
  cases hne : c.twins me with
  | nil => exact ⟨none, by simp [Base.answers, hne]⟩
  | cons x xs =>
      have hsome : ∃ n, ∃ o ∈ c.twins me, o.personId = n := ⟨x.personId, x, by simp [hne], rfl⟩
      obtain ⟨o, ho, hperson⟩ := Nat.find_spec hsome
      refine ⟨some o, Bool.and_eq_true_iff.mpr ⟨by simpa using ho, ?_⟩⟩
      rw [List.all_eq_true]
      intro y hy
      have hle := Nat.find_min' hsome ⟨y, hy, rfl⟩
      simpa [hperson] using hle

theorem upsertIdentity_possible (h : Keyed b) (decimal : Char → Bool) (platform : Platform) (row : UserRow) :
    ∃ answer b' id, b.upsertIdentity decimal platform row answer = some (b', id) := by
  have hfound : ∃ c id, b.findOrCreate platform row (row.values decimal) = (c, some id) := by
    cases hbefore : byKey Identity.key b.identities (platform, row.externalId) with
    | some i => exact ⟨_, _, findOrCreate_of_found hbefore⟩
    | none => exact ⟨_, _, findOrCreate_of_new hbefore⟩
  obtain ⟨c, id, hfound⟩ := hfound
  obtain ⟨me, rfl, hw⟩ := findOrCreate_written hfound
  have hkeyed := keyed_findOrCreate h platform row (row.values decimal)
  rw [hfound] at hkeyed
  obtain ⟨answer, hanswer⟩ := exists_answer c me
  refine ⟨answer, ?_⟩
  unfold Base.upsertIdentity
  simp only [hfound]
  cases (row.values decimal).phone with
  | none => exact ⟨c, me.id, rfl⟩
  | some phone =>
      have hmerge : ∃ b', (c.fillPrimaryPhone me.id phone).autoMerge me.id answer = some b' := by
        have hlookup : (c.fillPrimaryPhone me.id phone).identity me.id = some me :=
          (byKey_eq_some hkeyed.identities_nodup).mpr ⟨hw.mem, rfl⟩
        unfold Base.autoMerge
        rw [hlookup, Option.bind_some]
        by_cases hskip : me.personPinned = true ∨ (orNone me.phone).isNone = true
        · exact ⟨_, if_pos hskip⟩
        · rw [if_neg hskip, if_pos (show (c.fillPrimaryPhone me.id phone).answers me answer = true from hanswer)]
          cases answer <;> exact ⟨_, rfl⟩
      obtain ⟨b', hb'⟩ := hmerge
      exact ⟨b', me.id, by simp only [hb', Option.map_some]⟩

end

/-! ## The pass: the condition -/

def edges (pairs : List (Identity × Identity)) : List (Nat × Nat) := pairs.map fun p => (p.1.id, p.2.id)

/-- An identity on the oldest person of the phone, from which the pairs, in their order, lead to `i`. -/
def Base.ReachedByOldest (b : Base) (pairs : List (Identity × Identity)) (i : Identity) : Prop :=
  ∃ u ∈ b.identities, u.personPinned = false ∧ u.phone = i.phone ∧
    (∀ w ∈ b.identities, w.personPinned = false → w.phone = i.phone → u.personId ≤ w.personId) ∧
    Gossip.Reaches (edges pairs) u.id i.id

def PassJoins (b : Base) (pairs : List (Identity × Identity)) : Prop :=
  ∀ i ∈ b.identities, (∃ j ∈ b.identities, Matched i j) → b.ReachedByOldest pairs i

/-! ## The pass: the proof -/

section

variable {b b' c : Base} {g : Nat → Nat} {t m : Nat} {i j : Identity} {pairs : List (Identity × Identity)}

/-- The identities of `b`, each with the person that `g` gives. -/
def Base.placed (b : Base) (g : Nat → Nat) : List Identity :=
  b.identities.map fun i => { i with personId := g i.id }

/-- The persons as they are. -/
def Base.persons (b : Base) (id : Nat) : Nat := ((b.identity id).map Identity.personId).getD 0

theorem persons_of_mem (hids : (b.identities.map Identity.id).Nodup) (hi : i ∈ b.identities) :
    b.persons i.id = i.personId := by
  have hfound : b.identity i.id = some i := (byKey_eq_some hids).mpr ⟨hi, rfl⟩
  unfold Base.persons
  rw [hfound]
  rfl

theorem placed_persons (hids : (b.identities.map Identity.id).Nodup) : b.placed b.persons = b.identities := by
  unfold Base.placed
  rw [List.map_congr_left fun i hi => by rw [persons_of_mem hids hi]]
  exact List.map_id _

/-- The row of an identity, while only persons change. -/
theorem identity_placed (hc : c.identities = b.placed g) (hi : i ∈ b.identities) :
    ∃ x, c.identity i.id = some x ∧ x.personId = g i.id := by
  cases hfound : c.identity i.id with
  | none =>
      have hmem : { i with personId := g i.id } ∈ c.identities := hc ▸ List.mem_map.mpr ⟨i, hi, rfl⟩
      have hno := byKey_none.mp hfound { i with personId := g i.id } hmem
      exact absurd rfl hno
  | some x =>
      obtain ⟨hx, hid⟩ := byKey_some hfound
      rw [hc] at hx
      obtain ⟨k, -, rfl⟩ := List.mem_map.mp hx
      exact ⟨_, rfl, congrArg g hid⟩

theorem updateWhere_placed (k target : Nat) :
    updateWhere (b.placed g) (fun i => i.id == k) (fun i => { i with personId := target })
      = b.placed (Function.update g k target) := by
  unfold updateWhere Base.placed
  rw [List.map_map]
  apply List.map_congr_left
  intro i _
  show (if (i.id == k) = true then _ else _) = _
  rw [Function.update_apply]
  by_cases hk : i.id = k
  · rw [if_pos (by simpa using hk), if_pos hk]
  · rw [if_neg (by simpa using hk), if_neg hk]

/-- **Step.** One turn of the loop brings both to the older of their two persons. -/
theorem joinPair_spec {t m : Identity} (hc : c.identities = b.placed g) (ht : t ∈ b.identities)
    (hm : m ∈ b.identities) : ∃ c' n, c.joinPair t.id m.id = some (c', n) ∧
      c'.identities = b.placed (Gossip.meet g (t.id, m.id)) := by
  obtain ⟨curT, hcurT, hpersonT⟩ := identity_placed hc ht
  obtain ⟨curM, hcurM, hpersonM⟩ := identity_placed hc hm
  unfold Base.joinPair
  rw [hcurT, hcurM, Option.bind_some, Option.bind_some, hpersonT, hpersonM]
  by_cases hsame : g t.id = g m.id
  · rw [if_pos hsame]
    refine ⟨c, 0, rfl, ?_⟩
    rw [Gossip.meet_eq_self hsame]
    exact hc
  · rw [if_neg hsame]
    refine ⟨_, 1, rfl, ?_⟩
    rw [Gossip.meet_eq_update, ← updateWhere_placed, ← hc]
    exact absorbPerson_identities _ _ _

/-- **Run.** The whole loop is a pass over the pairs. -/
theorem joinPairs_spec : ∀ {pairs : List (Identity × Identity)} {c : Base} {g : Nat → Nat} (merged : Nat),
    (∀ p ∈ pairs, p.1 ∈ b.identities ∧ p.2 ∈ b.identities) → c.identities = b.placed g →
    ∃ c' n, Base.joinPairs pairs c merged = some (c', n) ∧
      c'.identities = b.placed (Gossip.run g (edges pairs))
  | [], c, g, merged, _, hc => ⟨c, merged, rfl, hc⟩
  | (t, m) :: pairs, c, _, merged, hmem, hc => by
      obtain ⟨ht, hm⟩ := hmem (t, m) List.mem_cons_self
      obtain ⟨c', n, hstep, hc'⟩ := joinPair_spec hc ht hm
      obtain ⟨c'', n', hrest, hc''⟩ := joinPairs_spec (merged + n)
        (fun p hp => hmem p (List.mem_cons_of_mem _ hp)) hc'
      refine ⟨c'', n', ?_, hc''⟩
      show (c.joinPair t.id m.id).bind _ = _
      rw [hstep]
      exact hrest

theorem mem_phonePairs {p : Identity × Identity} (h : p ∈ b.phonePairs) :
    p.1 ∈ b.identities ∧ p.2 ∈ b.identities ∧ Matched p.1 p.2 := by
  obtain ⟨t, ht, hp⟩ := List.mem_flatMap.mp h
  obtain ⟨m, hm, rfl⟩ := List.mem_map.mp hp
  obtain ⟨hm, hcond⟩ := List.mem_filter.mp hm
  simp only [Bool.and_eq_true, beq_iff_eq, bne_iff_ne, Bool.not_eq_true'] at hcond
  obtain ⟨⟨⟨⟨⟨⟨hsome, hphone⟩, hmax⟩, htelegram⟩, -⟩, hfreeT⟩, hfreeM⟩ := hcond
  refine ⟨ht, hm, hfreeT, hfreeM, hsome, hphone, ?_⟩
  rw [hmax, htelegram]
  decide

/-- The ids of the unpinned identities with a phone. -/
def Base.withPhone (b : Base) (phone : Option String) : Set Nat :=
  {k | ∃ i ∈ b.identities, i.id = k ∧ i.personPinned = false ∧ i.phone = phone}

theorem mem_withPhone {phone : Option String} (hids : (b.identities.map Identity.id).Nodup)
    (hi : i ∈ b.identities) : i.id ∈ b.withPhone phone ↔ i.personPinned = false ∧ i.phone = phone := by
  constructor
  · rintro ⟨k, hk, hid, hfree, hphone⟩
    rw [← eq_of_key hids hk hi hid]
    exact ⟨hfree, hphone⟩
  · exact fun h => ⟨i, hi, rfl, h⟩

/-- The pairs are within the identities of one phone. -/
theorem edges_withPhone (hids : (b.identities.map Identity.id).Nodup) (hpairs : ∀ p ∈ pairs, p ∈ b.phonePairs)
    (phone : Option String) : ∀ e ∈ edges pairs, e.1 ∈ b.withPhone phone ↔ e.2 ∈ b.withPhone phone := by
  intro e he
  obtain ⟨p, hp, rfl⟩ := List.mem_map.mp he
  obtain ⟨ht, hm, hfreeT, hfreeM, -, hphone, -⟩ := mem_phonePairs (hpairs p hp)
  show p.1.id ∈ _ ↔ p.2.id ∈ _
  rw [mem_withPhone hids ht, mem_withPhone hids hm, hphone, hfreeT, hfreeM]

/-- The rule after the persons have changed. -/
theorem rule_placed (hc : c.identities = b.placed g) :
    Rule c ↔ ∀ i ∈ b.identities, ∀ j ∈ b.identities, Matched i j → g j.id = g i.id := by
  unfold Rule Base.Joined
  rw [hc]
  unfold Base.placed
  constructor
  · intro h i hi j hj hmatched
    exact h _ (List.mem_map.mpr ⟨i, hi, rfl⟩) _ (List.mem_map.mpr ⟨j, hj, rfl⟩) hmatched
  · intro h x hx y hy hmatched
    obtain ⟨i, hi, rfl⟩ := List.mem_map.mp hx
    obtain ⟨j, hj, rfl⟩ := List.mem_map.mp hy
    exact h i hi j hj hmatched

/-- Where a phone is on both platforms, all its identities are matched with one of them. -/
theorem Matched.of_phone {k : Identity} (h : Matched i j) (hfree : k.personPinned = false)
    (hphone : k.phone = i.phone) : Matched k j ∨ Matched i k := by
  obtain ⟨hfreeI, hfreeJ, hsome, hphoneJ, hplatform⟩ := h
  by_cases hsame : k.platform = i.platform
  · exact Or.inl ⟨hfree, hfreeJ, hphone ▸ hsome, hphoneJ.trans hphone.symm, hsame ▸ hplatform⟩
  · exact Or.inr ⟨hfreeI, hfree, hsome, hphone, hsame⟩

theorem matched_agree_iff (g : Nat → Nat) :
    (∀ i ∈ b.identities, ∀ j ∈ b.identities, Matched i j → g j.id = g i.id) ↔
      ∀ i ∈ b.identities, (∃ j ∈ b.identities, Matched i j) →
        ∀ v ∈ b.withPhone i.phone, ∀ w ∈ b.withPhone i.phone, g v = g w := by
  constructor
  · rintro hall i hi ⟨j, hj, hmatched⟩
    have hone : ∀ v ∈ b.withPhone i.phone, g v = g i.id := by
      rintro v ⟨k, hk, rfl, hfree, hphone⟩
      rcases hmatched.of_phone hfree hphone with hkj | hik
      · exact (hall k hk j hj hkj).symm.trans (hall i hi j hj hmatched)
      · exact hall i hi k hk hik
    exact fun v hv w hw => (hone v hv).trans (hone w hw).symm
  · intro hall i hi j hj hmatched
    exact hall i hi ⟨j, hj, hmatched⟩ j.id ⟨j, hj, rfl, hmatched.2.1, hmatched.2.2.2.1⟩ i.id
      ⟨i, hi, rfl, hmatched.1, rfl⟩

theorem reachedByOldest_iff (hids : (b.identities.map Identity.id).Nodup) :
    b.ReachedByOldest pairs i ↔ ∃ u ∈ b.withPhone i.phone,
      (∀ w ∈ b.withPhone i.phone, b.persons u ≤ b.persons w) ∧ Gossip.Reaches (edges pairs) u i.id := by
  constructor
  · rintro ⟨u, hu, hfree, hphone, hleast, hreaches⟩
    refine ⟨u.id, ⟨u, hu, rfl, hfree, hphone⟩, ?_, hreaches⟩
    rintro k ⟨w, hw, rfl, hfreeW, hphoneW⟩
    rw [persons_of_mem hids hu, persons_of_mem hids hw]
    exact hleast w hw hfreeW hphoneW
  · rintro ⟨k, ⟨u, hu, rfl, hfree, hphone⟩, hleast, hreaches⟩
    refine ⟨u, hu, hfree, hphone, fun w hw hfreeW hphoneW => ?_, hreaches⟩
    have hle := hleast w.id ⟨w, hw, rfl, hfreeW, hphoneW⟩
    rw [persons_of_mem hids hu, persons_of_mem hids hw] at hle
    exact hle

theorem exists_isPairs (b : Base) : ∃ pairs, b.isPairs pairs = true := by
  refine ⟨b.phonePairs.insertionSort fun p q => p.1.id ≤ q.1.id, Bool.and_eq_true_iff.mpr ⟨?_, ?_⟩⟩
  · exact decide_eq_true (List.perm_insertionSort _ _)
  · have : Std.Total fun p q : Identity × Identity => p.1.id ≤ q.1.id := ⟨fun p q => Nat.le_total _ _⟩
    have : IsTrans (Identity × Identity) fun p q => p.1.id ≤ q.1.id := ⟨fun _ _ _ => Nat.le_trans⟩
    exact decide_eq_true (List.pairwise_insertionSort _ _)

/-- **The pass.** It goes through, and the rule holds after it if and only if the oldest person of each phone
    reaches all its identities. -/
theorem pass_joins_iff (hids : (b.identities.map Identity.id).Nodup) (hpairs : b.isPairs pairs = true) :
    ∃ b' merged, b.migrationAutoMerge pairs = some (b', merged) ∧ (Rule b' ↔ PassJoins b pairs) := by
  have hperm : pairs.Perm b.phonePairs := of_decide_eq_true (Bool.and_eq_true_iff.mp hpairs).1
  have hsub : ∀ p ∈ pairs, p ∈ b.phonePairs := fun p hp => hperm.mem_iff.mp hp
  obtain ⟨b', merged, hrun, hb'⟩ := joinPairs_spec 0
    (fun p hp => ⟨(mem_phonePairs (hsub p hp)).1, (mem_phonePairs (hsub p hp)).2.1⟩) (placed_persons hids).symm
  refine ⟨b', merged, ?_, ?_⟩
  · unfold Base.migrationAutoMerge
    rw [if_pos hpairs]
    exact hrun
  · rw [rule_placed hb', matched_agree_iff]
    constructor
    · intro hagree i hi hmatched
      have hall := (Gossip.run_agree_iff (edges_withPhone hids hsub i.phone)).mp (hagree i hi hmatched)
      obtain ⟨j, hj, hfree, -⟩ := hmatched
      exact (reachedByOldest_iff hids).mpr (hall i.id ⟨i, hi, rfl, hfree, rfl⟩)
    · rintro hjoins i hi ⟨j, hj, hmatched⟩
      refine (Gossip.run_agree_iff (edges_withPhone hids hsub i.phone)).mpr ?_
      rintro v ⟨k, hk, rfl, hfree, hphone⟩
      -- `k` is matched too, so that its phone's oldest person comes to it
      have hmatch : ∃ j ∈ b.identities, Matched k j := by
        rcases hmatched.of_phone hfree hphone with hkj | hik
        · exact ⟨j, hj, hkj⟩
        · exact ⟨i, hi, hik.symm⟩
      have hreached := (reachedByOldest_iff hids).mp (hjoins k hk hmatch)
      rw [hphone] at hreached
      exact hreached

end

/-! ## Both -/

/-- **How far an automatic merge goes.** `upsert_identity` leaves its identity with all that have its phone
    if and only if `UpsertJoins`; the pass of the migration leaves the rule if and only if `PassJoins`. -/
theorem auto_merge_complete (decimal : Char → Bool) (b : Base) (h : Keyed b) :
    (Rule b → ∀ platform row, (∃ answer b' id, b.upsertIdentity decimal platform row answer = some (b', id)) ∧
      ∀ answer b' id, b.upsertIdentity decimal platform row answer = some (b', id) →
        (b'.JoinedAt id ↔ UpsertJoins decimal b platform row)) ∧
    (∃ pairs, b.isPairs pairs = true) ∧
    ∀ pairs, b.isPairs pairs = true →
      ∃ b' merged, b.migrationAutoMerge pairs = some (b', merged) ∧ (Rule b' ↔ PassJoins b pairs) := by
  refine ⟨fun hrule platform row => ⟨upsertIdentity_possible h decimal platform row, ?_⟩, exists_isPairs b, ?_⟩
  · intro answer b' id hupsert
    exact upsert_joins_iff h hrule hupsert
  · exact fun pairs hpairs => pass_joins_iff h.identities_nodup hpairs

/-- Two Telegram users with one phone: two persons, and the rule does not bear on them. -/
def twoAnnas : List Action :=
  [.upsertIdentity .telegram anna none, .upsertIdentity .telegram { anna with externalId := 2 } none]

theorem twoAnnas_possible : (exec (step asciiDigit) emptyBase twoAnnas).isSome = true := by
  decide +kernel

def annasBase : Base := (exec (step asciiDigit) emptyBase twoAnnas).get twoAnnas_possible

theorem keyed_annasBase : Keyed annasBase :=
  (Run.get_exec twoAnnas_possible).invariant (fun _ _ _ h _ hstep => keyed_step h hstep) sound_emptyBase.toKeyed

/-- An identity of `annasBase`, and of the bases below. -/
def identityOf (id personId : Nat) (platform : Platform) (externalUserId : Int) : Identity :=
  ⟨id, personId, false, platform, externalUserId, none, some "Anna", none, some "+79001234567", false⟩

/-- The third is on an older person than the second: it had another phone, that of the first. The last comes
    from the tables that are migrated. -/
def movedBase : Base :=
  ⟨[⟨1, some "Anna", none, [], none⟩, ⟨2, some "Anna", none, [], none⟩, ⟨4, some "Anna", none, [], none⟩],
    [{ identityOf 1 1 .max 1 with phone := some "+79000000000" }, identityOf 2 2 .telegram 2,
      identityOf 3 1 .telegram 3, identityOf 4 4 .max 4], [], 5, 5⟩

theorem keyed_movedBase : Keyed movedBase where
  people_nodup := by decide
  identities_nodup := by decide
  key_nodup := by decide
  owned := by decide
  person_fresh := by decide
  identity_fresh := by decide

def movedPairs : List (Identity × Identity) :=
  [(identityOf 2 2 .telegram 2, identityOf 4 4 .max 4), (identityOf 3 1 .telegram 3, identityOf 4 4 .max 4)]

/-- Anna comes to MAX, and the query gives the older of the two. -/
def annaToMax : Option (Base × Nat) :=
  annasBase.upsertIdentity asciiDigit .max anna (some (identityOf 1 1 .telegram 1))

theorem annaToMax_possible : annaToMax.isSome = true := by decide +kernel

theorem movedPass_possible : (movedBase.migrationAutoMerge movedPairs).isSome = true := by decide +kernel

/-- A MAX identity joins one of the two, not the other; and a turn of the pass takes away what a turn before
    has joined. -/
theorem auto_merge_separates :
    (¬ ∀ (decimal : Char → Bool) (b : Base), Keyed b → Rule b → ∀ platform row answer b' id,
      b.upsertIdentity decimal platform row answer = some (b', id) → b'.JoinedAt id) ∧
    ¬ ∀ b : Base, Keyed b → ∀ pairs b' merged, b.migrationAutoMerge pairs = some (b', merged) → Rule b' := by
  constructor
  · intro hall
    have hrule : Rule annasBase := by decide +kernel
    have hapart : ¬ (annaToMax.get annaToMax_possible).1.JoinedAt (annaToMax.get annaToMax_possible).2 := by
      decide +kernel
    exact hapart (hall asciiDigit annasBase keyed_annasBase hrule .max anna _ _ _
      (Option.some_get annaToMax_possible).symm)
  · intro hall
    have hapart : ¬ Rule ((movedBase.migrationAutoMerge movedPairs).get movedPass_possible).1 := by
      decide +kernel
    exact hapart (hall movedBase keyed_movedBase movedPairs _ _ (Option.some_get movedPass_possible).symm)

/-- Anna on Telegram only. -/
def annaBefore : Base := (exec (step asciiDigit) emptyBase (twoAnnas.take 1)).get (by decide +kernel)

theorem keyed_annaBefore : Keyed annaBefore :=
  (Run.get_exec (by decide +kernel)).invariant (fun _ _ _ h _ hstep => keyed_step h hstep) sound_emptyBase.toKeyed

theorem upsertJoins_annaBefore : UpsertJoins asciiDigit annaBefore .max anna := by
  intro phone hphone
  have hdigits : normalizePhone asciiDigit anna.phone = some "+79001234567" := by decide +kernel
  obtain rfl := Option.some.inj (hdigits.symm.trans hphone)
  exact .inr (by decide +kernel)

/-- Three persons, two of them on Telegram, all with one phone. -/
def apartBase : Base :=
  ⟨[⟨1, some "Anna", none, [], none⟩, ⟨2, some "Anna", none, [], none⟩, ⟨3, some "Anna", none, [], none⟩],
    [identityOf 1 1 .telegram 1, identityOf 2 2 .telegram 2, identityOf 3 3 .max 3], [], 4, 4⟩

theorem keyed_apartBase : Keyed apartBase where
  people_nodup := by decide
  identities_nodup := by decide
  key_nodup := by decide
  owned := by decide
  person_fresh := by decide
  identity_fresh := by decide

def apartPairs : List (Identity × Identity) :=
  [(identityOf 1 1 .telegram 1, identityOf 3 3 .max 3), (identityOf 2 2 .telegram 2, identityOf 3 3 .max 3)]

/-- The first pair brings the MAX identity to the oldest person, the second the other Telegram identity. -/
theorem passJoins_apartBase : PassJoins apartBase apartPairs := by
  intro i hi _
  refine ⟨identityOf 1 1 .telegram 1, by decide, rfl, ?_, ?_⟩
  · revert i
    decide +kernel
  · revert i
    decide +kernel

/-- Anna comes to MAX and joins herself; and a pass of two pairs joins the three. -/
theorem auto_merge_complete_annas :
    (∃ answer b' id, annaBefore.upsertIdentity asciiDigit .max anna answer = some (b', id) ∧ b'.JoinedAt id) ∧
    ∃ b' merged, apartBase.migrationAutoMerge apartPairs = some (b', merged) ∧ Rule b' := by
  obtain ⟨hupsert, -, -⟩ := auto_merge_complete asciiDigit annaBefore keyed_annaBefore
  obtain ⟨-, -, hpass⟩ := auto_merge_complete asciiDigit apartBase keyed_apartBase
  obtain ⟨⟨answer, b', id, hrun⟩, hjoined⟩ := hupsert (by decide +kernel) .max anna
  obtain ⟨b'', merged, hrun', hrule⟩ := hpass apartPairs (by decide +kernel)
  exact ⟨⟨answer, b', id, hrun, (hjoined answer b' id hrun).mpr upsertJoins_annaBefore⟩, b'', merged, hrun',
    hrule.mpr passJoins_apartBase⟩

/-- Both joins moved someone. -/
example : (annaBefore.upsertIdentity asciiDigit .max anna (some (identityOf 1 1 .telegram 1))).map
      (fun r => r.1.identities.map Identity.personId) = some [1, 1] ∧
    (apartBase.migrationAutoMerge apartPairs).map (fun r => (r.1.identities.map Identity.personId, r.2)) =
      some ([1, 1, 1], 2) := by
  decide +kernel

end MyPerson.People
