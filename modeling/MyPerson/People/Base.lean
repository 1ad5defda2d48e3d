import MyPerson.Lib.Rows
import MyPerson.WriteLimits.Basic

/-!
# `People.Base` — the contacts base

A person has identities, one for each user id of a platform. `upsert_identity` finds or creates the
identity of a user and merges people by phone, `merge_people` and `split_identity` are the owner's.
Each of them runs in one transaction: an exception leaves the base as it was.

The query of `_auto_merge` may have several answers (the order is by person only), so the action says
which identity it gave.

## Contents
- the tables, and `normalizePhone`;
- `upsertIdentity` with `autoMerge` and `absorbPerson`, `mergePeople`, `splitIdentity`;
- `step`, one call after the other.
-/

namespace MyPerson.People

open Lib
open WriteLimits (Platform)

/-! ## The tables -/

structure Person where
  id           : Nat
  displayName  : Option String
  primaryPhone : Option String
  tags         : List String
  notes        : Option String
deriving DecidableEq, Repr

structure Identity where
  id             : Nat
  personId       : Nat
  personPinned   : Bool
  platform       : Platform
  externalUserId : Int
  username       : Option String
  firstName      : Option String
  lastName       : Option String
  phone          : Option String
  isBot          : Bool
deriving DecidableEq, Repr

/-- The unique columns besides the id. -/
def Identity.key (i : Identity) : Platform × Int := (i.platform, i.externalUserId)

inductive MergeAction
  | autoMerge | merge | split
deriving DecidableEq, Repr

/-- A row of `people_merge_log`. -/
structure MergeLogRow where
  action       : MergeAction
  fromPersonId : Nat
  toPersonId   : Nat
  identityId   : Option Nat
  reason       : Option String
deriving DecidableEq, Repr

/-- The base, with the next values of its id sequences. -/
structure Base where
  people       : List Person
  identities   : List Identity
  mergeLog     : List MergeLogRow
  nextPerson   : Nat
  nextIdentity : Nat

def emptyBase : Base := ⟨[], [], [], 1, 1⟩

def Base.person (b : Base) (id : Nat) : Option Person := byKey Person.id b.people id

def Base.identity (b : Base) (id : Nat) : Option Identity := byKey Identity.id b.identities id

/-! ## Values -/

/-- `x or None` of a text. -/
def orNone : Option String → Option String
  | some text => if text.isEmpty then none else some text
  | none => none

/-- The columns of `UserRow` that `upsert_identity` reads. -/
structure UserRow where
  externalId : Int
  username   : Option String
  firstName  : Option String
  lastName   : Option String
  phone      : Option String
  isBot      : Bool

/-- `" ".join(…) or username or None`. -/
def displayName (firstName lastName username : Option String) : Option String :=
  let name := " ".intercalate ([firstName, lastName].filterMap orNone)
  (orNone (some name)).or (orNone username)

/-- `normalize_phone`: digits only, a leading 8 of eleven becomes 7. `decimal` is what `\d` matches. -/
def normalizePhone (decimal : Char → Bool) (raw : Option String) : Option String :=
  raw.bind fun text =>
    let digits := text.toList.filter decimal
    let digits := if digits.length = 11 ∧ digits.head? = some '8' then '7' :: digits.tail else digits
    if digits.length < 10 then none else some (String.ofList ('+' :: digits))

/-- The columns of an identity that come with each row. -/
structure Values where
  username  : Option String
  firstName : Option String
  lastName  : Option String
  phone     : Option String
  isBot     : Bool

def UserRow.values (decimal : Char → Bool) (row : UserRow) : Values where
  username := orNone row.username
  firstName := orNone row.firstName
  lastName := orNone row.lastName
  phone := normalizePhone decimal row.phone
  isBot := row.isBot

/-! ## Statements -/

/-- The `SET` of `_update_identity`: `coalesce` of the new and the stored value. -/
def Identity.refresh (v : Values) (i : Identity) : Identity :=
  { i with
    username := v.username.or i.username
    firstName := v.firstName.or i.firstName
    lastName := v.lastName.or i.lastName
    phone := v.phone.or i.phone
    isBot := v.isBot }

/-- `_update_identity`: the id of the updated row, if there is one. -/
def Base.updateIdentity (b : Base) (platform : Platform) (externalId : Int) (v : Values) : Base × Option Nat :=
  ({ b with identities := updateWhere b.identities (fun i => i.key == (platform, externalId)) (Identity.refresh v) },
    (byKey Identity.key b.identities (platform, externalId)).map Identity.id)

/-- `INSERT INTO people`: the id comes from the sequence. -/
def Base.insertPerson (b : Base) (name phone : Option String) : Base × Nat :=
  ({ b with people := b.people ++ [⟨b.nextPerson, name, phone, [], none⟩], nextPerson := b.nextPerson + 1 },
    b.nextPerson)

/-- `INSERT INTO identities … ON CONFLICT DO NOTHING`. -/
def Base.insertIdentity (b : Base) (personId : Nat) (platform : Platform) (externalId : Int) (v : Values) :
    Base × Option Nat :=
  match byKey Identity.key b.identities (platform, externalId) with
  | some _ => ({ b with nextIdentity := b.nextIdentity + 1 }, none)
  | none =>
      ({ b with
        identities := b.identities ++ [⟨b.nextIdentity, personId, false, platform, externalId, v.username,
          v.firstName, v.lastName, v.phone, v.isBot⟩]
        nextIdentity := b.nextIdentity + 1 }, some b.nextIdentity)

def Base.deletePerson (b : Base) (id : Nat) : Base :=
  { b with people := deleteWhere b.people fun p => p.id == id }

/-- The person is deleted if no identity is left. -/
def Base.deleteIfEmpty (b : Base) (id : Nat) : Base :=
  if b.identities.any fun i => i.personId == id then b else b.deletePerson id

/-- `UPDATE identities SET person_id … WHERE`. -/
def Base.moveIdentities (b : Base) (p : Identity → Bool) (set : Identity → Identity) : Base :=
  { b with identities := updateWhere b.identities p set }

def Base.log (b : Base) (row : MergeLogRow) : Base := { b with mergeLog := b.mergeLog ++ [row] }

/-! ## Merging people -/

/-- `ARRAY(SELECT DISTINCT unnest(t || s) ORDER BY 1)`. -/
def uniteTags (t s : List String) : List String := (t ++ s).dedup.insertionSort (· ≤ ·)

/-- The notes of both, one under the other. -/
def joinNotes (t s : Option String) : Option String :=
  match orNone s, orNone t with
  | none, _ => t
  | some s, none => some s
  | some s, some t => some (t ++ "\n" ++ s)

/-- The `SET` of `_absorb_person`. -/
def Person.absorb (s t : Person) : Person :=
  { t with
    tags := uniteTags t.tags s.tags
    notes := joinNotes t.notes s.notes
    displayName := t.displayName.or s.displayName
    primaryPhone := t.primaryPhone.or s.primaryPhone }

/-- `_absorb_person`. -/
def Base.absorbPerson (b : Base) (target source : Nat) : Base :=
  let absorbed := match b.person source with
    | some s => { b with people := updateWhere b.people (fun p => p.id == target) s.absorb }
    | none => b
  absorbed.deleteIfEmpty source

/-- What the query of `_auto_merge` selects from. -/
def Base.twins (b : Base) (me : Identity) : List Identity :=
  b.identities.filter fun i =>
    i.phone == me.phone && i.platform != me.platform && i.personId != me.personId && !i.personPinned

/-- The identity on the younger person moves to the older one. -/
def Base.mergePair (b : Base) (me other : Identity) : Base :=
  let target := min me.personId other.personId
  let source := max me.personId other.personId
  let moved := if me.personId = source then me.id else other.id
  let b := b.moveIdentities (fun i => i.id == moved) fun i => { i with personId := target }
  (b.absorbPerson target source).log
    ⟨.autoMerge, source, target, some moved, some ("phone " ++ me.phone.getD "None")⟩

/-- An answer of the query: any row of the smallest person, none if there is no row. -/
def Base.answers (b : Base) (me : Identity) : Option Identity → Bool
  | none => (b.twins me).isEmpty
  | some other => other ∈ b.twins me && (b.twins me).all fun i => other.personId ≤ i.personId

/-- `_auto_merge`; `none` when the query does not give this answer. -/
def Base.autoMerge (b : Base) (identityId : Nat) (answer : Option Identity) : Option Base :=
  -- `.one()`: the row has just been written
  (b.identity identityId).bind fun me =>
    if me.personPinned ∨ (orNone me.phone).isNone = true then some b
    else if b.answers me answer then
      match answer with
      | none => some b
      | some other => some (b.mergePair me other)
    else none

/-! ## The calls -/

/-- The identity of the row and the base with it: an old one is refreshed, a new one gets a person. -/
def Base.findOrCreate (b : Base) (platform : Platform) (row : UserRow) (v : Values) : Base × Option Nat :=
  match b.updateIdentity platform row.externalId v with
  | (b, some id) => (b, some id)
  | (b, none) =>
      let (b, personId) := b.insertPerson (displayName row.firstName row.lastName row.username) v.phone
      match b.insertIdentity personId platform row.externalId v with
      | (b, some id) => (b, some id)
      -- created by another transaction in between
      | (b, none) => (b.deletePerson personId).updateIdentity platform row.externalId v

/-- A phone that appears later also fills the person's primary phone. -/
def Base.fillPrimaryPhone (b : Base) (identityId : Nat) (phone : String) : Base :=
  { b with
    people := updateWhere b.people
      (fun p => p.primaryPhone.isNone && (b.identity identityId).any fun i => i.personId == p.id)
      fun p => { p with primaryPhone := some phone } }

/-- `upsert_identity`. -/
def Base.upsertIdentity (decimal : Char → Bool) (b : Base) (platform : Platform) (row : UserRow)
    (answer : Option Identity) : Option (Base × Nat) :=
  let v := row.values decimal
  match b.findOrCreate platform row v with
  | (_, none) => none
  | (b, some id) =>
      match v.phone with
      | none => some (b, id)
      | some phone => ((b.fillPrimaryPhone id phone).autoMerge id answer).map fun b => (b, id)

inductive CallError
  | value (text : String)
  | lookup (text : String)
deriving DecidableEq, Repr

def personNotFound (id : Nat) : CallError := .lookup s!"person {id} not found"

/-- `merge_people`. -/
def Base.mergePeople (b : Base) (fromId toId : Nat) (reason : Option String) : Except CallError (Base × Nat) :=
  if fromId = toId then .error (.value "merge_people: from_id == to_id")
  else if (b.person fromId).isNone then .error (personNotFound fromId)
  else if (b.person toId).isNone then .error (personNotFound toId)
  else
    let b := b.moveIdentities (fun i => i.personId == fromId)
      fun i => { i with personId := toId, personPinned := true }
    let b := b.moveIdentities (fun i => i.personId == toId) fun i => { i with personPinned := true }
    .ok ((b.absorbPerson toId fromId).log ⟨.merge, fromId, toId, none, reason⟩, toId)

/-- `split_identity`. -/
def Base.splitIdentity (b : Base) (identityId : Nat) (reason : Option String) : Except CallError (Base × Nat) :=
  match b.identity identityId with
  | none => .error (.lookup s!"identity {identityId} not found")
  | some ident =>
      let (b, newPerson) := b.insertPerson (displayName ident.firstName ident.lastName ident.username) ident.phone
      let b := b.moveIdentities (fun i => i.id == identityId)
        fun i => { i with personId := newPerson, personPinned := true }
      .ok ((b.deleteIfEmpty ident.personId).log ⟨.split, ident.personId, newPerson, some identityId, reason⟩,
        newPerson)

/-! ## Steps -/

inductive Action
  | upsertIdentity (platform : Platform) (row : UserRow) (answer : Option Identity)
  | mergePeople (fromId toId : Nat) (reason : Option String)
  | splitIdentity (identityId : Nat) (reason : Option String)

/-- The base after a call that may raise. -/
def committed (b : Base) : Except CallError (Base × Nat) → Base
  | .ok (b', _) => b'
  | .error _ => b

def step (decimal : Char → Bool) (b : Base) : Action → Option Base
  | .upsertIdentity platform row answer => (b.upsertIdentity decimal platform row answer).map Prod.fst
  | .mergePeople fromId toId reason => some (committed b (b.mergePeople fromId toId reason))
  | .splitIdentity identityId reason => some (committed b (b.splitIdentity identityId reason))

/-! ## What each call does -/

variable {decimal : Char → Bool} {b b' : Base}

theorem autoMerge_cases {id : Nat} {answer : Option Identity} (h : b.autoMerge id answer = some b') :
    b' = b ∨ ∃ me other, me ∈ b.identities ∧ me.personPinned = false ∧ other ∈ b.twins me ∧
      b' = b.mergePair me other := by
  unfold Base.autoMerge at h
  obtain ⟨me, hme, h⟩ := Option.bind_eq_some_iff.mp h
  by_cases hskip : me.personPinned = true ∨ (orNone me.phone).isNone = true
  · rw [if_pos hskip] at h
    exact Or.inl (Option.some.inj h).symm
  · rw [if_neg hskip] at h
    by_cases hanswers : b.answers me answer = true
    · rw [if_pos hanswers] at h
      cases answer with
      | none => exact Or.inl (Option.some.inj h).symm
      | some other =>
          have hother : other ∈ b.twins me := by
            have hboth := Bool.and_eq_true_iff.mp hanswers
            simpa using hboth.1
          exact Or.inr ⟨me, other, (byKey_some hme).1, by simpa using fun hpin => hskip (Or.inl hpin), hother,
            (Option.some.inj h).symm⟩
    · rw [if_neg hanswers] at h
      cases h

/-- The base with a new identity for a new person. -/
def Base.create (b : Base) (platform : Platform) (row : UserRow) (v : Values) : Base :=
  { b with
    people := b.people ++
      [⟨b.nextPerson, displayName row.firstName row.lastName row.username, v.phone, [], none⟩]
    identities := b.identities ++ [⟨b.nextIdentity, b.nextPerson, false, platform, row.externalId, v.username,
      v.firstName, v.lastName, v.phone, v.isBot⟩]
    nextPerson := b.nextPerson + 1
    nextIdentity := b.nextIdentity + 1 }

/-- The user has an identity: it is refreshed. -/
theorem findOrCreate_of_found {i : Identity} {platform : Platform} {row : UserRow} {v : Values}
    (hfound : byKey Identity.key b.identities (platform, row.externalId) = some i) :
    b.findOrCreate platform row v = ((b.updateIdentity platform row.externalId v).1, some i.id) := by
  have hupdated : b.updateIdentity platform row.externalId v
      = ((b.updateIdentity platform row.externalId v).1, some i.id) := by
    unfold Base.updateIdentity
    rw [hfound]
    rfl
  unfold Base.findOrCreate
  rw [hupdated]

/-- The user is new. No transaction comes in between: the branch that drops the new person again is not
    taken. -/
theorem findOrCreate_of_new {platform : Platform} {row : UserRow} {v : Values}
    (hfound : byKey Identity.key b.identities (platform, row.externalId) = none) :
    b.findOrCreate platform row v = (b.create platform row v, some b.nextIdentity) := by
  have hnew : ∀ i ∈ b.identities, i.key ≠ (platform, row.externalId) := byKey_none.mp hfound
  have hsame : updateWhere b.identities (fun i => i.key == (platform, row.externalId)) (Identity.refresh v)
      = b.identities := by
    unfold updateWhere
    rw [List.map_congr_left fun i hi => if_neg (by simpa using hnew i hi)]
    exact List.map_id _
  have hupdated : b.updateIdentity platform row.externalId v = (b, none) := by
    unfold Base.updateIdentity
    rw [hfound, hsame]
    rfl
  unfold Base.findOrCreate
  rw [hupdated]
  simp only [Base.insertPerson, Base.insertIdentity, hfound]
  rfl

theorem findOrCreate_cases (b : Base) (platform : Platform) (row : UserRow) (v : Values) :
    (b.findOrCreate platform row v).1 = (b.updateIdentity platform row.externalId v).1 ∨
      (∀ i ∈ b.identities, i.key ≠ (platform, row.externalId)) ∧
        (b.findOrCreate platform row v).1 = b.create platform row v := by
  cases hfound : byKey Identity.key b.identities (platform, row.externalId) with
  | some i =>
      rw [findOrCreate_of_found hfound]
      exact Or.inl rfl
  | none =>
      rw [findOrCreate_of_new hfound]
      exact Or.inr ⟨byKey_none.mp hfound, rfl⟩

theorem upsertIdentity_cases {platform : Platform} {row : UserRow} {answer : Option Identity} {id : Nat}
    (h : b.upsertIdentity decimal platform row answer = some (b', id)) :
    ∃ c, b.findOrCreate platform row (row.values decimal) = (c, some id) ∧
      (((row.values decimal).phone = none ∧ b' = c) ∨ ∃ phone, (row.values decimal).phone = some phone ∧
        (c.fillPrimaryPhone id phone).autoMerge id answer = some b') := by
  unfold Base.upsertIdentity at h
  rcases hfound : b.findOrCreate platform row (row.values decimal) with ⟨c, none | i⟩
  · simp only [hfound] at h
    cases h
  · simp only [hfound] at h
    cases hphone : (row.values decimal).phone with
    | none =>
        simp only [hphone] at h
        cases h
        exact ⟨_, rfl, Or.inl ⟨rfl, rfl⟩⟩
    | some phone =>
        simp only [hphone] at h
        obtain ⟨d, hmerge, heq⟩ := Option.map_eq_some_iff.mp h
        cases heq
        exact ⟨c, rfl, Or.inr ⟨phone, rfl, hmerge⟩⟩

/-- The identities of `source` come to `target`, and all of them are pinned. -/
def Base.takeOver (b : Base) (target source : Nat) : Base :=
  (b.moveIdentities (fun i => i.personId == source)
    fun i => { i with personId := target, personPinned := true }).moveIdentities
    (fun i => i.personId == target) fun i => { i with personPinned := true }

theorem mergePeople_cases {fromId toId id : Nat} {reason : Option String}
    (h : b.mergePeople fromId toId reason = .ok (b', id)) :
    fromId ≠ toId ∧ (b.person fromId).isSome = true ∧ (b.person toId).isSome = true ∧
      b' = ((b.takeOver toId fromId).absorbPerson toId fromId).log ⟨.merge, fromId, toId, none, reason⟩ := by
  unfold Base.mergePeople at h
  by_cases hsame : fromId = toId
  · rw [if_pos hsame] at h
    cases h
  · rw [if_neg hsame] at h
    by_cases hfrom : (b.person fromId).isNone = true
    · rw [if_pos hfrom] at h
      cases h
    · rw [if_neg hfrom] at h
      by_cases hto : (b.person toId).isNone = true
      · rw [if_pos hto] at h
        cases h
      · rw [if_neg hto] at h
        cases h
        rw [Bool.not_eq_true, Option.isNone_eq_false_iff] at hfrom hto
        exact ⟨hsame, hfrom, hto, rfl⟩

/-- The identity gets a new person, and is pinned to it. -/
def Base.detach (b : Base) (ident : Identity) : Base :=
  (b.insertPerson (displayName ident.firstName ident.lastName ident.username) ident.phone).1.moveIdentities
    (fun i => i.id == ident.id) fun i => { i with personId := b.nextPerson, personPinned := true }

theorem splitIdentity_cases {identityId id : Nat} {reason : Option String}
    (h : b.splitIdentity identityId reason = .ok (b', id)) :
    ∃ ident ∈ b.identities, b.identity identityId = some ident ∧ ident.id = identityId ∧
      b' = ((b.detach ident).deleteIfEmpty ident.personId).log
        ⟨.split, ident.personId, b.nextPerson, some identityId, reason⟩ := by
  unfold Base.splitIdentity at h
  cases hident : b.identity identityId with
  | none =>
      rw [hident] at h
      cases h
  | some ident =>
      rw [hident] at h
      cases h
      obtain ⟨hmem, rfl⟩ := byKey_some hident
      exact ⟨ident, hmem, rfl, rfl, rfl⟩

end MyPerson.People
