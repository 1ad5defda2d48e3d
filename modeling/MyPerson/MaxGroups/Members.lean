import MyPerson.Lib.Dict
import MyPerson.Lib.Json
import MyPerson.Lib.Paging

/-!
# `MaxGroups.Members` — members of a MAX chat, page by page

`members` and `find_members` of `app/max/groups.py`. Both ask for a page until they have `limit` members, and stop
when a page is empty or comes without a marker. `members` adds every element of a page; `find_members` adds those
that parse, and looks at the whole page when it decides to stop.

## Contents
- `Request`, `parseMember`, `members`, `findMembers`;
- `Ends`, what a caller expects of either;
- `members_end`, `findMembers_ends_iff`, `member_paging_ends_iff`;
- pages that never end.
-/

namespace MyPerson.MaxGroups

open Lib
open Lib.Paging

/-- `MEMBERS_PAGE`. -/
def membersPage : Nat := 100

/-- The parts of a member request that change from page to page; `marker` is left out of the frame when it is not
    set. -/
structure Request where
  marker : Option Json
  count  : Nat

/-- The request for the next page, `missing` elements being missing. -/
def Request.next (previousMarker : Option Json) (missing : Nat) : Request :=
  ⟨previousMarker.filter Json.truthy, min membersPage missing⟩

/-! ## `members` -/

variable {M : Type*}

/-- What `get_chat_members` of the client gives: members, already parsed, and a marker. -/
structure Page (M : Type*) where
  members : List M
  marker  : Json

/-- `if not page or not marker`. -/
def Page.last (p : Page M) : Bool := p.members.isEmpty || !p.marker.truthy

/-- `members`, with at most `fuel` requests. -/
def members (answers : Nat → Page M) (limit fuel : Nat) : Option (List Request × List M) :=
  gather (fun previous missing => .next (previous.map Page.marker) missing) Page.members Page.last answers limit fuel
    none [] []

/-! ## `find_members` -/

/-- The payload of an answer to opcode 59; a missing list of members is empty. -/
structure Payload where
  members : List Json
  marker  : Json

/-- `parse_member`; `validate` is `Member.model_validate` of the client library, `none` when it raises. -/
def parseMember (validate : List (String × Json) → Option M) : Json → Option M
  | .obj item =>
      match Json.field "contact" item with
      | some (.obj _) =>
          let presence := (Json.field "presence" item).filter Json.truthy
          validate (Dict.set "presence" (presence.getD (.obj [])) item)
      | _ => none
  | _ => none

/-- The members that an answer adds. -/
def Payload.parsed (validate : List (String × Json) → Option M) (p : Payload) : List M :=
  p.members.filterMap (parseMember validate)

/-- `if not items or not marker`. -/
def Payload.last (p : Payload) : Bool := p.members.isEmpty || !p.marker.truthy

/-- `find_members`, with at most `fuel` requests. -/
def findMembers (validate : List (String × Json) → Option M) (answers : Nat → Payload) (limit fuel : Nat) :
    Option (List Request × List M) :=
  gather (fun previous missing => .next (previous.map Payload.marker) missing) (Payload.parsed validate) Payload.last
    answers limit fuel none [] []

/-! ## What a caller expects -/

/-- The call returns after at most `n` requests with at most `n` members, and these are elements of the answered
    pages, in the order received; `elements i` are those of the `i`-th answer. -/
def Ends (call : Nat → Option (List Request × List M)) (elements : Nat → List M) (n : Nat) : Prop :=
  ∃ asked found, call n = some (asked, found) ∧ asked.length ≤ n ∧ found.length ≤ n ∧
    found.Sublist ((List.range asked.length).flatMap elements)

/-- A loop meets the expectation if one of the first `n` answers is the last, or they have `n` elements together. -/
theorem ends_iff {α : Type*} {ask : Option α → Nat → Request} {page : α → List M} {last : α → Bool}
    {answers : Nat → α} {n : Nat} :
    Ends (fun fuel => gather ask page last answers n fuel none [] []) (fun i => page (answers i)) n ↔
      (∃ i < n, last (answers i) = true) ∨ n ≤ (gathered page answers n).length := by
  have hsome : (gather ask page last answers n n none [] []).isSome ↔
      (∃ i, 0 ≤ i ∧ i < 0 + n ∧ last (answers i) = true) ∨ n ≤ (gathered page answers (0 + n)).length :=
    gather_isSome_iff rfl
  rw [Nat.zero_add] at hsome
  simp only [Nat.zero_le, true_and] at hsome
  rw [← hsome, Option.isSome_iff_exists]
  constructor
  · rintro ⟨asked, found, hcall, -⟩
    exact ⟨_, hcall⟩
  · rintro ⟨⟨asked, found⟩, hcall⟩
    obtain ⟨hle, rfl⟩ := gather_sound rfl hcall
    refine ⟨asked, _, hcall, by simpa using hle, ?_, List.take_sublist _ _⟩
    rw [List.length_take]
    exact Nat.min_le_left _ _

/-- `members` ends: a page that is not the last adds a member. -/
theorem members_end (answers : Nat → Page M) (n : Nat) :
    Ends (members answers n) (fun i => (answers i).members) n := by
  refine ends_iff.mpr ?_
  by_cases hlast : ∃ i < n, (answers i).last = true
  · exact Or.inl hlast
  · refine Or.inr ?_
    have hgrow : ∀ k ≤ n, k ≤ (gathered Page.members answers k).length := by
      intro k
      induction k with
      | zero => exact fun _ => Nat.zero_le _
      | succ k ih =>
          intro hk
          have hne : (answers k).members ≠ [] := by
            intro hnil
            exact hlast ⟨k, hk, by rw [Page.last, hnil]; rfl⟩
          have hpos := List.length_pos_iff.mpr hne
          rw [gathered_succ, List.length_append]
          have := ih (by omega)
          omega
    exact hgrow n (Nat.le_refl n)

/-- One of the first `n` answers has no elements or no marker, or `n` of their elements parse. -/
def EnoughParsed (validate : List (String × Json) → Option M) (answers : Nat → Payload) (n : Nat) : Prop :=
  (∃ i < n, (answers i).members = [] ∨ (answers i).marker.truthy = false) ∨
    n ≤ ((List.range n).flatMap fun i => (answers i).parsed validate).length

theorem findMembers_ends_iff (validate : List (String × Json) → Option M) (answers : Nat → Payload) (n : Nat) :
    Ends (findMembers validate answers n) (fun i => (answers i).parsed validate) n ↔
      EnoughParsed validate answers n := by
  have hlast : ∀ p : Payload, p.last = true ↔ p.members = [] ∨ p.marker.truthy = false := by
    intro p
    simp [Payload.last]
  unfold EnoughParsed
  simp only [← hlast]
  exact ends_iff

/-- **Member paging.** `members` ends whatever MAX answers; `find_members` ends where the elements that do not parse
    leave enough that do. -/
theorem member_paging_ends_iff (validate : List (String × Json) → Option M) (pages : Nat → Page M)
    (answers : Nat → Payload) (n : Nat) :
    (Ends (members pages n) (fun i => (pages i).members) n ∧
        Ends (findMembers validate answers n) (fun i => (answers i).parsed validate) n) ↔
      EnoughParsed validate answers n := by
  rw [findMembers_ends_iff]
  exact and_iff_right (members_end pages n)

/-! ## Pages that never end -/

/-- Each page has one element without a contact, and a marker. -/
def contactless : Nat → Payload := fun _ => ⟨[.obj [("presence", .obj [])]], .int 1⟩

/-- `find_members` never returns on such pages, however many requests it sends. -/
theorem contactless_never (validate : List (String × Json) → Option M) (n fuel : Nat) :
    findMembers validate contactless (n + 1) fuel = none := by
  have hsome : (findMembers validate contactless (n + 1) fuel).isSome ↔
      (∃ i, 0 ≤ i ∧ i < 0 + fuel ∧ (contactless i).last = true) ∨
        n + 1 ≤ (gathered (Payload.parsed validate) contactless (0 + fuel)).length :=
    gather_isSome_iff rfl
  have hparsed : ∀ i, (contactless i).parsed validate = [] := fun _ => rfl
  have hempty : ∀ k, gathered (Payload.parsed validate) contactless k = [] := by
    intro k
    simp [gathered, hparsed]
  have hlast : ∀ i, (contactless i).last = false := fun _ => rfl
  rw [Option.eq_none_iff_forall_ne_some]
  intro result hresult
  rw [hresult, hempty] at hsome
  simp [hlast] at hsome

/-- **A search that does not end.** -/
theorem find_members_unending :
    ¬ ∀ (validate : List (String × Json) → Option Nat) (pages : Nat → Page Nat) (answers : Nat → Payload) (n : Nat),
      Ends (members pages n) (fun i => (pages i).members) n ∧
        Ends (findMembers validate answers n) (fun i => (answers i).parsed validate) n := by
  intro h
  obtain ⟨-, asked, found, hcall, -⟩ := h (fun _ => none) (fun _ => ⟨[], .null⟩) contactless 1
  rw [contactless_never _ 0] at hcall
  cases hcall

end MyPerson.MaxGroups
