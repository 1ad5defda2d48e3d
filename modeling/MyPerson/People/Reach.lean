import MyPerson.Lib.Query
import MyPerson.People.Structure

/-!
# `People.Reach` — who can be written to

How an account reaches a person is computed three times: `reachable` lists people in SQL, `reach_person`
takes the best identity in a loop, `person_accounts` takes the first identity that can be reached. They
agree if and only if the first one is the best one, and no identity with an empty phone comes out on top
(`reach_agrees_iff`).

## Contents
- the tables, `reachOf` and its SQL twin `reachMethod`;
- `reachable`, `reachPerson`, `personAccounts`;
- the rows of a person, and what each computation finds among them;
- `reach_agrees_iff`, a person with two identities, and one with five.
-/

namespace MyPerson.People

open Lib
open WriteLimits (Platform)

/-! ## The tables -/

inductive Mode
  | ro | rw
deriving DecidableEq, Repr

structure Account where
  id           : Nat
  accountAlias : String
  platform     : Platform
  mode         : Mode
  isEnabled    : Bool
deriving DecidableEq, Repr

/-- A user as an account sees it. -/
structure User where
  accountId  : Nat
  id         : Nat
  identityId : Nat
  accessHash : Option Int
  isContact  : Bool
deriving DecidableEq, Repr

structure Message where
  accountId    : Nat
  senderUserId : Option Nat
deriving DecidableEq, Repr

structure Db where
  base     : Base
  accounts : List Account
  users    : List User
  messages : List Message

/-! ## Ways -/

inductive Method
  | direct | username | phone
deriving DecidableEq, Repr

def Method.rank : Method → Nat
  | .direct => 0
  | .username => 1
  | .phone => 2

structure Reach where
  method : Method
  note   : Option String
deriving DecidableEq, Repr

def phoneNote : String := "ImportContacts adds the person to the account's address book"

/-- `user is not None and user.access_hash is not None`. -/
def hasAccessHash (user : Option User) : Bool := user.any fun u => u.accessHash.isSome

/-- `reach_of`. -/
def reachOf (platform : Platform) (identity : Identity) (user : Option User) : Option Reach :=
  if identity.platform ≠ platform then none
  else if platform = .max then some ⟨.direct, none⟩
  else if hasAccessHash user then some ⟨.direct, none⟩
  else if (orNone identity.username).isSome then some ⟨.username, none⟩
  else if (orNone identity.phone).isSome then some ⟨.phone, some phoneNote⟩
  else none

/-- `_reach_method`, the `CASE` of the query. -/
def reachMethod (platform : Platform) (identity : Identity) (user : Option User) : Option Method :=
  if platform = .max then some .direct
  else if hasAccessHash user then some .direct
  else if identity.username.getD "" ≠ "" then some .username
  else if identity.phone.isSome then some .phone
  else none

/-! ## The computations -/

def Db.usersOf (db : Db) (acc : Account) (i : Identity) : List User :=
  db.users.filter fun u => u.accountId == acc.id && u.identityId == i.id

/-- `outerjoin(User, …)`. -/
def Db.withUsers (db : Db) (acc : Account) (identities : List Identity) : List (Identity × Option User) :=
  identities.flatMap fun i =>
    match db.usersOf acc i with
    | [] => [(i, none)]
    | u :: us => (u :: us).map fun u => (i, some u)

/-- A row of `candidates`. -/
structure Candidate where
  person   : Person
  identity : Identity
  method   : Option Method

def Db.candidates (db : Db) (acc : Account) : List Candidate :=
  (db.withUsers acc (db.base.identities.filter fun i => i.platform == acc.platform)).flatMap fun iu =>
    (db.base.people.filter fun p => p.id == iu.1.personId).map fun p =>
      ⟨p, iu.1, reachMethod acc.platform iu.1 iu.2⟩

/-- `case((method == 'direct', 0), (method == 'username', 1), else_=2)`. -/
def Candidate.rank (c : Candidate) : Nat :=
  if c.method = some .direct then 0 else if c.method = some .username then 1 else 2

/-- The `ORDER BY` of `best`. -/
def Candidate.order (c : Candidate) : ℕ ×ₗ ℕ ×ₗ ℕ := toLex (c.person.id, toLex (c.rank, c.identity.id))

/-- `best`: one candidate for each person. -/
def Db.best (db : Db) (acc : Account) : List Candidate :=
  distinctOn (fun c => c.person.id)
    (orderBy Candidate.order ((db.candidates acc).filter fun c => c.method.isSome))

/-- What `/reachable` shows of a person. -/
structure ReachableRow where
  personId       : Nat
  name           : Option String
  username       : Option String
  phone          : Option String
  externalUserId : Int
  method         : Option Method
  note           : Option String
deriving DecidableEq, Repr

def Candidate.row (c : Candidate) : ReachableRow :=
  ⟨c.person.id, c.person.displayName, c.identity.username, c.identity.phone, c.identity.externalUserId, c.method,
    if c.method = some .phone then some phoneNote else none⟩

/-- `reachable` without a search text. -/
def Db.reachable (db : Db) (acc : Account) (limit offset : Nat) : List ReachableRow :=
  (page (orderBy (fun c => c.person.id) (db.best acc)) limit offset).map Candidate.row

def Db.identitiesOn (db : Db) (acc : Account) (personId : Nat) : List Identity :=
  db.base.identities.filter fun i => i.personId == personId && i.platform == acc.platform

/-- `reach_person`. -/
def Db.reachPerson (db : Db) (acc : Account) (personId : Nat) : Option ((Identity × Option User) × Reach) :=
  firstBest (fun iu => reachOf acc.platform iu.1 iu.2) (fun r => r.method.rank)
    (orderBy (fun iu => iu.1.id) (db.withUsers acc (db.identitiesOn acc personId)))

/-- `_identities` of one person. -/
def Db.identitiesOf (db : Db) (personId : Nat) : List Identity :=
  orderBy Identity.id (db.base.identities.filter fun i => i.personId == personId)

/-- `by_identity.get`: of several users of an identity the last one counts. -/
def Db.byIdentity (db : Db) (acc : Account) (i : Identity) : Option User := (db.usersOf acc i).getLast?

/-- An entry of `person_accounts`. -/
structure AccountRow where
  accountId     : Nat
  accountAlias  : String
  platform      : Platform
  mode          : Mode
  knows         : Bool
  hasAccessHash : Bool
  isContact     : Bool
  reachable     : Option Method
  reachNote     : Option String
  messages      : Nat
deriving DecidableEq, Repr

/-- The first identity that can be reached. -/
def Db.firstReach (db : Db) (acc : Account) (personId : Nat) : Option Reach :=
  if acc.mode = Mode.rw then
    (db.identitiesOf personId).findSome? fun i => reachOf acc.platform i (db.byIdentity acc i)
  else none

def Db.accountRow (db : Db) (personId : Nat) (acc : Account) : AccountRow :=
  let users := db.users.filter fun u =>
    u.accountId == acc.id && (db.identitiesOf personId).any fun i => i.id == u.identityId
  let reach := db.firstReach acc personId
  ⟨acc.id, acc.accountAlias, acc.platform, acc.mode, !users.isEmpty, users.any fun u => u.accessHash.isSome,
    users.any User.isContact, reach.map Reach.method, reach.bind Reach.note,
    (db.messages.filter fun m => m.accountId == acc.id && users.any fun u => m.senderUserId == some u.id).length⟩

/-- `person_accounts`. -/
def Db.personAccounts (db : Db) (personId : Nat) : List AccountRow :=
  (orderBy Account.id (db.accounts.filter Account.isEnabled)).map (db.accountRow personId)

/-! ## The rows of a person -/

section

variable {db : Db} {acc : Account} {personId : Nat} {i j : Identity} {u v : Option User} {r : Reach} {m : Method}

theorem mem_withUsers {identities : List Identity} :
    (i, u) ∈ db.withUsers acc identities ↔ i ∈ identities ∧ (i, u) ∈ db.withUsers acc [i] := by
  unfold Db.withUsers
  rw [List.mem_flatMap]
  constructor
  · rintro ⟨j, hj, hmem⟩
    have hij : j = i := by
      split at hmem
      · exact (congrArg Prod.fst (List.mem_singleton.mp hmem)).symm
      · obtain ⟨w, -, heq⟩ := List.mem_map.mp hmem
        exact congrArg Prod.fst heq
    subst hij
    exact ⟨hj, by rw [List.flatMap_singleton]; exact hmem⟩
  · rintro ⟨hi, hmem⟩
    rw [List.flatMap_singleton] at hmem
    exact ⟨i, hi, hmem⟩

/-- An identity of the person on the account's platform, with a user that the account knows it by. -/
def IsRow (db : Db) (acc : Account) (personId : Nat) (i : Identity) (u : Option User) : Prop :=
  i ∈ db.base.identities ∧ i.personId = personId ∧ i.platform = acc.platform ∧ (i, u) ∈ db.withUsers acc [i]

theorem isRow_iff : IsRow db acc personId i u ↔ (i, u) ∈ db.withUsers acc (db.identitiesOn acc personId) := by
  rw [mem_withUsers]
  unfold IsRow Db.identitiesOn
  rw [List.mem_filter]
  simp [and_assoc]

/-- The user that `person_accounts` looks at makes a row too. -/
theorem isRow_byIdentity (hi : i ∈ db.base.identities) (hperson : i.personId = personId)
    (hplatform : i.platform = acc.platform) : IsRow db acc personId i (db.byIdentity acc i) := by
  refine ⟨hi, hperson, hplatform, ?_⟩
  unfold Db.withUsers Db.byIdentity
  rw [List.flatMap_singleton]
  cases hus : db.usersOf acc i with
  | nil => exact List.mem_singleton_self _
  | cons w ws =>
      show (i, (w :: ws).getLast?) ∈ (w :: ws).map fun u => (i, some u)
      rw [List.getLast?_cons]
      refine List.mem_map.mpr ⟨_, ?_, rfl⟩
      exact List.mem_of_getLast? (List.getLast?_cons ..)

theorem mem_candidates {c : Candidate} :
    c ∈ db.candidates acc ↔ c.person ∈ db.base.people ∧
      ∃ u, IsRow db acc c.person.id c.identity u ∧ c.method = reachMethod acc.platform c.identity u := by
  unfold Db.candidates
  rw [List.mem_flatMap]
  constructor
  · rintro ⟨⟨i, u⟩, hrow, hmem⟩
    obtain ⟨p, hp, rfl⟩ := List.mem_map.mp hmem
    obtain ⟨hp, hid⟩ := List.mem_filter.mp hp
    obtain ⟨hi, hu⟩ := mem_withUsers.mp hrow
    obtain ⟨hi, hplatform⟩ := List.mem_filter.mp hi
    have hid' : p.id = i.personId := by simpa using hid
    exact ⟨hp, u, ⟨hi, hid'.symm, by simpa using hplatform, hu⟩, rfl⟩
  · rintro ⟨hp, u, ⟨hi, hperson, hplatform, hu⟩, hmethod⟩
    refine ⟨(c.identity, u), mem_withUsers.mpr ⟨List.mem_filter.mpr ⟨hi, by simpa using hplatform⟩, hu⟩, ?_⟩
    refine List.mem_map.mpr ⟨c.person, List.mem_filter.mpr ⟨hp, by simpa using hperson.symm⟩, ?_⟩
    rw [← hmethod]

/-! ## The two rules -/

/-- A phone that is empty but not null. -/
structure EmptyPhone (acc : Account) (i : Identity) (u : Option User) : Prop where
  telegram : acc.platform ≠ .max
  hash     : hasAccessHash u = false
  username : orNone i.username = none
  phone    : i.phone = some ""

theorem username_iff (i : Identity) : i.username.getD "" ≠ "" ↔ (orNone i.username).isSome = true := by
  cases i.username with
  | none => simp [orNone]
  | some name =>
      by_cases hname : name = ""
      · simp [orNone, hname]
      · simp [orNone, hname]

/-- Where `reach_of` finds a way, the query finds the same. -/
theorem reachMethod_of_reachOf (h : reachOf acc.platform i u = some r) :
    reachMethod acc.platform i u = some r.method := by
  unfold reachOf at h
  unfold reachMethod
  by_cases hplatform : i.platform ≠ acc.platform
  · rw [if_pos hplatform] at h
    cases h
  · rw [if_neg hplatform] at h
    by_cases hmax : acc.platform = .max
    · rw [if_pos hmax] at h ⊢
      cases h
      rfl
    · rw [if_neg hmax] at h ⊢
      by_cases hhash : hasAccessHash u = true
      · rw [if_pos hhash] at h ⊢
        cases h
        rfl
      · rw [if_neg hhash] at h ⊢
        by_cases hname : (orNone i.username).isSome = true
        · rw [if_pos hname] at h
          rw [if_pos ((username_iff i).mpr hname)]
          cases h
          rfl
        · rw [if_neg hname] at h
          rw [if_neg fun hne => hname ((username_iff i).mp hne)]
          by_cases hphone : (orNone i.phone).isSome = true
          · rw [if_pos hphone] at h
            cases h
            cases hnull : i.phone with
            | none =>
                rw [hnull] at hphone
                cases hphone
            | some phone => rfl
          · rw [if_neg hphone] at h
            cases h

/-- On an empty phone the query goes further than `reach_of`. -/
theorem EmptyPhone.ways (h : EmptyPhone acc i u) (hplatform : i.platform = acc.platform) :
    reachOf acc.platform i u = none ∧ reachMethod acc.platform i u = some .phone := by
  have hnone : ¬(orNone i.username).isSome = true := by
    rw [h.username]
    exact Bool.false_ne_true
  constructor
  · unfold reachOf
    rw [if_neg (not_not_intro hplatform), if_neg h.telegram, if_neg (by simp [h.hash]), if_neg hnone, h.phone]
    rfl
  · unfold reachMethod
    rw [if_neg h.telegram, if_neg (by simp [h.hash]), if_neg fun hne => hnone ((username_iff i).mp hne), h.phone]
    rfl

/-- It goes further nowhere else. -/
theorem emptyPhone_of_ways (hplatform : i.platform = acc.platform) (hof : reachOf acc.platform i u = none)
    (hmethod : reachMethod acc.platform i u = some m) : m = .phone ∧ EmptyPhone acc i u := by
  unfold reachOf at hof
  unfold reachMethod at hmethod
  rw [if_neg (not_not_intro hplatform)] at hof
  by_cases hmax : acc.platform = .max
  · rw [if_pos hmax] at hof
    cases hof
  · rw [if_neg hmax] at hof hmethod
    by_cases hhash : hasAccessHash u = true
    · rw [if_pos hhash] at hof
      cases hof
    · rw [if_neg hhash] at hof hmethod
      by_cases hname : (orNone i.username).isSome = true
      · rw [if_pos hname] at hof
        cases hof
      · rw [if_neg hname] at hof
        rw [if_neg fun hne => hname ((username_iff i).mp hne)] at hmethod
        cases hphone : i.phone with
        | none =>
            rw [hphone] at hmethod
            cases hmethod
        | some phone =>
            rw [hphone] at hof hmethod
            cases hmethod
            refine ⟨rfl, hmax, by simpa using hhash, by simpa using hname, ?_⟩
            by_cases hempty : phone = ""
            · rw [hphone, hempty]
            · rw [if_pos (by simp [orNone, hempty])] at hof
              cases hof

/-! ## What each computation finds -/

/-- `reach_person` finds nothing, or the first of the best rows. -/
theorem reachPerson_none (h : db.reachPerson acc personId = none) (hrow : IsRow db acc personId i u) :
    reachOf acc.platform i u = none := by
  have hspec := firstBest_spec (fun iu : Identity × Option User => reachOf acc.platform iu.1 iu.2)
    (fun r => r.method.rank) (fun iu => Nat.le_refl iu.1.id)
    (orderBy_sorted (fun iu => iu.1.id) (db.withUsers acc (db.identitiesOn acc personId)))
  unfold Db.reachPerson at h
  rw [h] at hspec
  exact hspec (i, u) (mem_orderBy.mpr (isRow_iff.mp hrow))

theorem reachPerson_some (h : db.reachPerson acc personId = some ((i, u), r)) :
    IsRow db acc personId i u ∧ reachOf acc.platform i u = some r ∧
      ∀ j v r', IsRow db acc personId j v → reachOf acc.platform j v = some r' →
        r.method.rank < r'.method.rank ∨ r.method.rank = r'.method.rank ∧ i.id ≤ j.id := by
  have hspec := firstBest_spec (fun iu : Identity × Option User => reachOf acc.platform iu.1 iu.2)
    (fun r => r.method.rank) (fun iu => Nat.le_refl iu.1.id)
    (orderBy_sorted (fun iu => iu.1.id) (db.withUsers acc (db.identitiesOn acc personId)))
  unfold Db.reachPerson at h
  rw [h] at hspec
  obtain ⟨hmem, hvalue, hmin⟩ := hspec
  refine ⟨isRow_iff.mpr (mem_orderBy.mp hmem), hvalue, fun j v r' hrow hr' => ?_⟩
  exact hmin (j, v) (mem_orderBy.mpr (isRow_iff.mp hrow)) r' hr'

theorem rank_eq {c : Candidate} (h : c.method = some m) : c.rank = m.rank := by
  unfold Candidate.rank
  rw [h]
  cases m <;> rfl

/-- A row of `reachable` is the least candidate of its person. -/
theorem mem_reachable {limit : Nat} (hlimit : 0 < limit) {row : ReachableRow} :
    (∃ k, row ∈ db.reachable acc limit (k * limit)) ↔ ∃ c ∈ db.best acc, c.row = row := by
  unfold Db.reachable
  constructor
  · rintro ⟨k, hk⟩
    obtain ⟨c, hc, rfl⟩ := List.mem_map.mp hk
    exact ⟨c, mem_orderBy.mp ((mem_page hlimit).mp ⟨k, hc⟩), rfl⟩
  · rintro ⟨c, hc, rfl⟩
    have hsorted : c ∈ orderBy (fun c => c.person.id) (db.best acc) := mem_orderBy.mpr hc
    obtain ⟨k, hk⟩ := (mem_page hlimit).mpr hsorted
    exact ⟨k, List.mem_map_of_mem hk⟩

theorem best_row {c : Candidate} (h : c ∈ db.best acc) :
    ∃ u m, IsRow db acc c.person.id c.identity u ∧ reachMethod acc.platform c.identity u = some m ∧
      c.method = some m ∧
      ∀ j v m', IsRow db acc c.person.id j v → reachMethod acc.platform j v = some m' →
        m.rank < m'.rank ∨ m.rank = m'.rank ∧ c.identity.id ≤ j.id := by
  have hc := mem_orderBy.mp (mem_of_mem_distinctOn h)
  obtain ⟨hcand, hsome⟩ := List.mem_filter.mp hc
  obtain ⟨hp, u, hrow, hmethod⟩ := mem_candidates.mp hcand
  obtain ⟨m, hm⟩ := Option.isSome_iff_exists.mp hsome
  refine ⟨u, m, hrow, hmethod.symm.trans hm, hm, fun j v m' hrow' hm' => ?_⟩
  have hother : (⟨c.person, j, some m'⟩ : Candidate) ∈ (db.candidates acc).filter fun c => c.method.isSome :=
    List.mem_filter.mpr ⟨mem_candidates.mpr ⟨hp, v, hrow', hm'.symm⟩, rfl⟩
  have hle := distinctOn_first (fun c => le_refl (Candidate.order c)) (orderBy_sorted _ _) h
    (mem_orderBy.mpr hother) rfl
  unfold Candidate.order at hle
  rw [Prod.Lex.toLex_le_toLex, Prod.Lex.toLex_le_toLex, rank_eq hm, rank_eq rfl] at hle
  rcases hle with hlt | ⟨-, hle⟩
  · exact absurd hlt (Nat.lt_irrefl _)
  · exact hle

/-- A row that the query finds a way for puts its person on the list. -/
theorem exists_best (h : Keyed db.base) (hrow : IsRow db acc personId i u)
    (hm : reachMethod acc.platform i u = some m) : ∃ c ∈ db.best acc, c.person.id = personId := by
  obtain ⟨p, hp, hpi⟩ := h.owned i hrow.1
  have hperson : p.id = personId := hpi.trans hrow.2.1
  have hcand : (⟨p, i, some m⟩ : Candidate) ∈ (db.candidates acc).filter fun c => c.method.isSome :=
    List.mem_filter.mpr ⟨mem_candidates.mpr ⟨hp, u, hperson ▸ hrow, hm.symm⟩, rfl⟩
  have hsorted : (⟨p, i, some m⟩ : Candidate) ∈ orderBy Candidate.order
      ((db.candidates acc).filter fun c => c.method.isSome) := mem_orderBy.mpr hcand
  obtain ⟨c, hc, hgroup⟩ := exists_mem_distinctOn (fun c : Candidate => c.person.id) hsorted
  exact ⟨c, hc, hgroup.trans hperson⟩

theorem mem_identitiesOf : i ∈ db.identitiesOf personId ↔ i ∈ db.base.identities ∧ i.personId = personId := by
  unfold Db.identitiesOf
  rw [mem_orderBy, List.mem_filter]
  simp

theorem platform_of_reachOf (h : reachOf acc.platform i u = some r) : i.platform = acc.platform := by
  unfold reachOf at h
  by_contra hne
  rw [if_pos hne] at h
  cases h

/-- `person_accounts` finds nothing, or the first identity that can be reached. -/
theorem firstReach_none (hrw : acc.mode = Mode.rw) (h : db.firstReach acc personId = none)
    (hi : i ∈ db.base.identities) (hperson : i.personId = personId) :
    reachOf acc.platform i (db.byIdentity acc i) = none := by
  unfold Db.firstReach at h
  rw [if_pos hrw, List.findSome?_eq_none_iff] at h
  exact h i (mem_identitiesOf.mpr ⟨hi, hperson⟩)

theorem firstReach_some (hrw : acc.mode = Mode.rw)
    (h : db.firstReach acc personId = some r) :
    ∃ i ∈ db.base.identities, i.personId = personId ∧ reachOf acc.platform i (db.byIdentity acc i) = some r ∧
      ∀ j ∈ db.base.identities, j.personId = personId → j.id < i.id →
        reachOf acc.platform j (db.byIdentity acc j) = none := by
  unfold Db.firstReach at h
  rw [if_pos hrw] at h
  obtain ⟨i, hi, hvalue, hfirst⟩ := findSome_first (orderBy_sorted Identity.id _) h
  obtain ⟨hmem, hperson⟩ := mem_identitiesOf.mp hi
  refine ⟨i, hmem, hperson, hvalue, fun j hj hjp hlt => ?_⟩
  rcases hfirst j (mem_identitiesOf.mpr ⟨hj, hjp⟩) with rfl | hnone | hle
  · exact absurd hlt (Nat.lt_irrefl _)
  · exact hnone
  · exact absurd hlt (Nat.not_lt.mpr hle)

/-! ## The agreement -/

/-- What the three computations say of a person, for one account. -/
structure Agree (db : Db) (acc : Account) (personId limit : Nat) : Prop where
  /-- The person is on a page if and only if there is a way. -/
  listed  : (∃ k, ∃ row ∈ db.reachable acc limit (k * limit), row.personId = personId) ↔
    (db.reachPerson acc personId).isSome = true
  /-- The row shows the identity and the way. -/
  same    : ∀ k, ∀ row ∈ db.reachable acc limit (k * limit), row.personId = personId →
    ∀ i u r, db.reachPerson acc personId = some ((i, u), r) →
      row.externalUserId = i.externalUserId ∧ row.username = i.username ∧ row.phone = i.phone ∧
        row.method = some r.method ∧ row.note = r.note
  /-- The account's entry has the same method. -/
  account : ∃ row ∈ db.personAccounts personId, row.accountId = acc.id ∧
    row.reachable = (db.reachPerson acc personId).map fun found => found.2.method

/-- An identity with an empty phone is not the first of the best candidates. -/
def EmptyPhonesOutranked (db : Db) (acc : Account) (personId : Nat) : Prop :=
  ∀ i u, IsRow db acc personId i u → EmptyPhone acc i u →
    ∃ j v r, IsRow db acc personId j v ∧ reachOf acc.platform j v = some r ∧ (r.method ≠ .phone ∨ j.id < i.id)

/-- The first identity that can be reached can be reached as well as any other. -/
def FirstIsBest (db : Db) (acc : Account) (personId : Nat) : Prop :=
  ∀ i u r, IsRow db acc personId i u → reachOf acc.platform i u = some r →
    ∃ j ∈ db.base.identities, j.personId = personId ∧
      (∃ r', reachOf acc.platform j (db.byIdentity acc j) = some r' ∧ r'.method.rank ≤ r.method.rank) ∧
      ∀ k ∈ db.base.identities, k.personId = personId → k.id < j.id →
        reachOf acc.platform k (db.byIdentity acc k) = none

theorem note_of_reachOf (h : reachOf acc.platform i u = some r) :
    r.note = if r.method = .phone then some phoneNote else none := by
  unfold reachOf at h
  split at h
  · cases h
  · split at h
    · cases h
      rfl
    · split at h
      · cases h
        rfl
      · split at h
        · cases h
          rfl
        · split at h
          · cases h
            rfl
          · cases h

theorem rank_injective {m m' : Method} (h : m.rank = m'.rank) : m = m' := by
  cases m <;> cases m' <;> first | rfl | cases h

/-- The best candidate of the query is the one of the loop. -/
theorem best_eq (hkeyed : Keyed db.base) (hempty : EmptyPhonesOutranked db acc personId) {c : Candidate}
    (hc : c ∈ db.best acc) (hperson : c.person.id = personId)
    (hfound : db.reachPerson acc personId = some ((i, u), r)) :
    c.identity = i ∧ c.method = some r.method := by
  subst hperson
  obtain ⟨w, m, hrow, hmethod, hcm, hleast⟩ := best_row hc
  obtain ⟨hrow', hreach, hmin⟩ := reachPerson_some hfound
  have hbest := hleast i u r.method hrow' (reachMethod_of_reachOf hreach)
  cases hway : reachOf acc.platform c.identity w with
  | none =>
      -- an empty phone has come out on top
      obtain ⟨rfl, hphone⟩ := emptyPhone_of_ways hrow.2.2.1 hway hmethod
      obtain ⟨j, v, r', hrowj, hr', hbetter⟩ := hempty c.identity w hrow hphone
      have hle := hleast j v r'.method hrowj (reachMethod_of_reachOf hr')
      exfalso
      rcases hbetter with hne | hlt
      · cases hm : r'.method with
        | phone => exact hne hm
        | direct =>
            rw [hm] at hle
            simp [Method.rank] at hle
        | username =>
            rw [hm] at hle
            simp [Method.rank] at hle
      · have hrank : r'.method.rank ≤ Method.phone.rank := by
          cases r'.method <;> decide
        omega
  | some r' =>
      have hr' := reachMethod_of_reachOf hway
      rw [hmethod] at hr'
      cases hr'
      have hother := hmin c.identity w r' hrow hway
      have hranks : r'.method.rank = r.method.rank := by omega
      have hids : c.identity.id = i.id := by omega
      exact ⟨hkeyed.identity_ext hrow.1 hrow'.1 hids, by rw [hcm, rank_injective hranks]⟩

theorem mem_personAccounts (hmem : acc ∈ db.accounts) (henabled : acc.isEnabled = true) :
    db.accountRow personId acc ∈ db.personAccounts personId := by
  unfold Db.personAccounts
  exact List.mem_map_of_mem (mem_orderBy.mpr (List.mem_filter.mpr ⟨hmem, henabled⟩))

theorem accountRow_of_mem (hnodup : (db.accounts.map Account.id).Nodup) (hmem : acc ∈ db.accounts)
    {row : AccountRow} (hrow : row ∈ db.personAccounts personId) (hid : row.accountId = acc.id) :
    row = db.accountRow personId acc := by
  unfold Db.personAccounts at hrow
  obtain ⟨acc', hacc', rfl⟩ := List.mem_map.mp hrow
  have hmem' := (List.mem_filter.mp (mem_orderBy.mp hacc')).1
  rw [eq_of_key hnodup hmem' hmem hid]

/-- **Agreement.** The three computations agree on a person if and only if no empty phone is the query's
    choice and the first identity that can be reached is the best one. -/
theorem reach_agrees_iff (db : Db) (acc : Account) (personId limit : Nat) (hkeyed : Keyed db.base)
    (hnodup : (db.accounts.map Account.id).Nodup) (hmem : acc ∈ db.accounts) (henabled : acc.isEnabled = true)
    (hrw : acc.mode = Mode.rw) (hlimit : 0 < limit) :
    Agree db acc personId limit ↔ EmptyPhonesOutranked db acc personId ∧ FirstIsBest db acc personId := by
  constructor
  · rintro ⟨hlisted, hsame, row, hrow, hid, hreach⟩
    have hentry : (db.firstReach acc personId).map Reach.method
        = (db.reachPerson acc personId).map fun found => found.2.method := by
      rw [← hreach, accountRow_of_mem hnodup hmem hrow hid]
      rfl
    constructor
    · intro i u hrowi hphone
      obtain ⟨-, hmethod⟩ := hphone.ways hrowi.2.2.1
      obtain ⟨c, hc, hperson⟩ := exists_best hkeyed hrowi hmethod
      obtain ⟨k, hk⟩ := (mem_reachable hlimit).mpr ⟨c, hc, rfl⟩
      obtain ⟨⟨⟨j, v⟩, r⟩, hfound⟩ := Option.isSome_iff_exists.mp (hlisted.mp ⟨k, c.row, hk, hperson⟩)
      obtain ⟨hrowj, hway, -⟩ := reachPerson_some hfound
      obtain ⟨hext, -, -, hm, -⟩ := hsame k c.row hk hperson j v r hfound
      refine ⟨j, v, r, hrowj, hway, ?_⟩
      by_cases hrphone : r.method = .phone
      · right
        subst hperson
        obtain ⟨w, m, hrowc, -, hcm, hleast⟩ := best_row hc
        have hkey : c.identity = j := by
          refine eq_of_key hkeyed.key_nodup hrowc.1 hrowj.1 ?_
          unfold Identity.key
          rw [hrowc.2.2.1, hrowj.2.2.1]
          exact congrArg _ hext
        have hmr : m = .phone := by
          have hboth : c.method = some r.method := hm
          rw [hcm, hrphone] at hboth
          exact Option.some.inj hboth
        have hle := hleast i u .phone hrowi hmethod
        rw [hmr, hkey] at hle
        have hne : j.id ≠ i.id := by
          intro heq
          rw [hkeyed.identity_ext hrowj.1 hrowi.1 heq] at hway
          -- the phone is empty, so only another user could make `reach_of` find a way, and that is not by phone
          unfold reachOf at hway
          rw [if_neg (not_not_intro hrowi.2.2.1), if_neg hphone.telegram] at hway
          by_cases hhash : hasAccessHash v = true
          · rw [if_pos hhash] at hway
            cases hway
            cases hrphone
          · rw [if_neg hhash, hphone.username, hphone.phone] at hway
            cases hway
        omega
      · exact Or.inl hrphone
    · intro i u r hrowi hway
      cases hfound : db.reachPerson acc personId with
      | none =>
          rw [reachPerson_none hfound hrowi] at hway
          cases hway
      | some found =>
          obtain ⟨⟨j, v⟩, r'⟩ := found
          rw [hfound] at hentry
          obtain ⟨r'', hfirst, hmethod⟩ := Option.map_eq_some_iff.mp hentry
          obtain ⟨k, hk, hkp, hkway, hkfirst⟩ := firstReach_some hrw hfirst
          obtain ⟨-, -, hmin⟩ := reachPerson_some hfound
          have hle := hmin i u r hrowi hway
          refine ⟨k, hk, hkp, ⟨r'', hkway, ?_⟩, hkfirst⟩
          have hranks : r''.method.rank = r'.method.rank := congrArg Method.rank hmethod
          omega
  · rintro ⟨hempty, hfirst⟩
    refine ⟨⟨?_, fun hsome => ?_⟩, ?_, db.accountRow personId acc, mem_personAccounts hmem henabled, rfl, ?_⟩
    · rintro ⟨k, row, hk, hperson⟩
      obtain ⟨c, hc, rfl⟩ := (mem_reachable hlimit).mp ⟨k, hk⟩
      obtain ⟨w, m, hrow, hmethod, -, -⟩ := best_row hc
      cases hfound : db.reachPerson acc personId with
      | some found => rfl
      | none =>
          have hrow' : IsRow db acc personId c.identity w := hperson ▸ hrow
          obtain ⟨-, hphone⟩ := emptyPhone_of_ways hrow.2.2.1 (reachPerson_none hfound hrow') hmethod
          obtain ⟨j, v, r, hrowj, hway, -⟩ := hempty c.identity w hrow' hphone
          rw [reachPerson_none hfound hrowj] at hway
          cases hway
    · obtain ⟨⟨⟨i, u⟩, r⟩, hfound⟩ := Option.isSome_iff_exists.mp hsome
      obtain ⟨hrow, hway, -⟩ := reachPerson_some hfound
      obtain ⟨c, hc, hperson⟩ := exists_best hkeyed hrow (reachMethod_of_reachOf hway)
      obtain ⟨k, hk⟩ := (mem_reachable hlimit).mpr ⟨c, hc, rfl⟩
      exact ⟨k, c.row, hk, hperson⟩
    · intro k row hk hperson i u r hfound
      obtain ⟨c, hc, rfl⟩ := (mem_reachable hlimit).mp ⟨k, hk⟩
      obtain ⟨hident, hmethod⟩ := best_eq hkeyed hempty hc hperson hfound
      obtain ⟨-, hway, -⟩ := reachPerson_some hfound
      unfold Candidate.row
      rw [hident, hmethod, note_of_reachOf hway]
      exact ⟨rfl, rfl, rfl, rfl, by simp⟩
    · show (db.firstReach acc personId).map Reach.method = _
      cases hfound : db.reachPerson acc personId with
      | none =>
          cases hnone : db.firstReach acc personId with
          | none => rfl
          | some r =>
              obtain ⟨i, hi, hperson, hway, -⟩ := firstReach_some hrw hnone
              have hrow := isRow_byIdentity hi hperson (platform_of_reachOf hway)
              rw [reachPerson_none hfound hrow] at hway
              cases hway
      | some found =>
          obtain ⟨⟨i, u⟩, r⟩ := found
          obtain ⟨hrow, hway, hmin⟩ := reachPerson_some hfound
          obtain ⟨j, hj, hjp, ⟨r', hjway, hjle⟩, hjfirst⟩ := hfirst i u r hrow hway
          cases hsome : db.firstReach acc personId with
          | none =>
              rw [firstReach_none hrw hsome hj hjp] at hjway
              cases hjway
          | some r'' =>
              obtain ⟨k, hk, hkp, hkway, hkfirst⟩ := firstReach_some hrw hsome
              have hjk : j = k := by
                refine hkeyed.identity_ext hj hk (Nat.le_antisymm ?_ ?_)
                · by_contra hlt
                  rw [hjfirst k hk hkp (by omega)] at hkway
                  cases hkway
                · by_contra hlt
                  rw [hkfirst j hj hjp (by omega)] at hjway
                  cases hjway
              subst hjk
              cases hjway.symm.trans hkway
              have hle := hmin j _ r' (isRow_byIdentity hj hjp (platform_of_reachOf hjway)) hjway
              have hsame : r'.method = r.method := rank_injective (by omega)
              exact congrArg some hsame

end

/-! ## A person with two identities -/

def work : Account := ⟨1, "work", .telegram, Mode.rw, true⟩

/-- Anna's first Telegram identity, of which only the phone is known. -/
def annaByPhone : Identity := ⟨1, 1, false, .telegram, 5, none, some "Anna", none, some "+79001234567", false⟩

/-- Her second one, which the account has an access hash for. -/
def annaDirect : Identity := ⟨2, 1, true, .telegram, 6, none, some "Anna", none, none, false⟩

def annaDb (identities : List Identity) : Db :=
  ⟨⟨[⟨1, some "Anna", none, [], none⟩], identities, [], 2, 3⟩, [work], [⟨1, 1, 2, some 77, false⟩], []⟩

/-- `reach_person` writes to the second identity, `person_accounts` reports the first. -/
theorem reach_agrees_fails : ¬Agree (annaDb [annaByPhone, annaDirect]) work 1 50 := by
  rintro ⟨-, -, row, hrow, -, hreach⟩
  have hdiffer : ((annaDb [annaByPhone, annaDirect]).personAccounts 1).all (fun row =>
      row.reachable != ((annaDb [annaByPhone, annaDirect]).reachPerson work 1).map fun found => found.2.method)
      = true := by decide +kernel
  have hne := List.all_eq_true.mp hdiffer row hrow
  rw [hreach] at hne
  simp at hne

/-! ### Where they agree -/

/-- One without a way, one with an access hash, one with an empty phone, one with a user name and two rows, and one on
    MAX. -/
def annaWays : Db :=
  ⟨⟨[⟨1, some "Anna", none, [], none⟩],
      [⟨1, 1, false, .telegram, 5, none, some "Anna", none, none, false⟩, annaDirect,
        ⟨3, 1, false, .telegram, 7, none, some "Anna", none, some "", false⟩,
        ⟨4, 1, false, .telegram, 8, some "anna", some "Anna", none, some "+79001234567", false⟩,
        ⟨5, 1, false, .max, 9, none, some "Anna", none, none, false⟩], [], 2, 6⟩,
    [work], [⟨1, 1, 2, some 77, false⟩, ⟨1, 2, 4, none, true⟩, ⟨1, 3, 4, none, false⟩], []⟩

theorem keyed_annaWays : Keyed annaWays.base where
  people_nodup := by decide
  identities_nodup := by decide
  key_nodup := by decide
  owned := by decide
  person_fresh := by decide
  identity_fresh := by decide

theorem isRow_annaDirect : IsRow annaWays work 1 annaDirect (some ⟨1, 1, 2, some 77, false⟩) :=
  ⟨by decide, rfl, rfl, by decide +kernel⟩

/-- The one with the access hash comes first, and is the best. -/
theorem reach_agrees_annaWays : Agree annaWays work 1 50 := by
  refine (reach_agrees_iff annaWays work 1 50 keyed_annaWays (by decide) (by decide) rfl rfl (by decide)).mpr
    ⟨fun i u hrow hphone => ?_, fun i u r hrow hway => ?_⟩
  · exact ⟨annaDirect, _, ⟨.direct, none⟩, isRow_annaDirect, by decide +kernel, .inl (by decide)⟩
  · refine ⟨annaDirect, by decide, rfl, ⟨⟨.direct, none⟩, by decide +kernel, Nat.zero_le _⟩, ?_⟩
    decide +kernel

end MyPerson.People
