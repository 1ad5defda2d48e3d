import MyPerson.Lib.Edits
import MyPerson.MaxDialogs.Peer

/-!
# `MaxDialogs.Titles` — private chats titled by the peer's name

`fill_dialog_titles` of `app/repo/chats.py`: one `UPDATE` that gives each private chat of a MAX account the name of
its peer, where there is one and the title is another. The peer is evaluated for every chat that is selected, the
saved messages too, so one key that no bigint holds stops the whole statement.

## Contents
- `Account`, `Chat`, `User`;
- `retitle`, what the statement makes of one chat, and `fillDialogTitles`;
- `Retitled`, `retitle_cases`, `fillDialogTitles_spec`.
-/

namespace MyPerson.MaxDialogs

open Lib

/-! ## Tables -/

structure Account where
  id             : Int
  «alias»        : String
  platform       : String
  externalUserId : Option Int64

structure Chat where
  accountId  : Int
  id         : Int
  externalId : Int64
  chatType   : String
  title      : Option String
  raw        : Json

structure User where
  accountId  : Int
  externalId : Int64
  username   : Option String
  firstName  : Option String
  lastName   : Option String

/-- The primary key. -/
def Chat.key (c : Chat) : Int × Int := (c.accountId, c.id)

/-! ## The statement -/

/-- `SAVED_MESSAGES_TITLE`. -/
def savedMessagesTitle : String := "Избранное"

/-- `trim`. -/
def trimSpaces (s : String) : String :=
  String.ofList (((s.toList.dropWhile (· = ' ')).reverse.dropWhile (· = ' ')).reverse)

/-- `coalesce(nullif(trim(concat_ws(' ', first_name, last_name)), ''), username)`. -/
def User.name (u : User) : Option String :=
  let name := trimSpaces (" ".intercalate [u.firstName, u.lastName].reduceOption)
  if name ≠ "" then some name else u.username

/-- The name of a private chat; `me` is the account's own user. -/
def nameOf (users : List User) (me : Int64) (c : Chat) : Except Failure (Option String) :=
  (titlePeer c.externalId c.raw me).map fun peer =>
    if c.externalId = 0 then some savedMessagesTitle
    else (users.find? fun u => u.accountId = c.accountId && u.externalId = peer).bind User.name

/-- The chats that the statement looks at. -/
def selected (accountId : Int) (chatIds : Option (List Int64)) (c : Chat) : Bool :=
  c.accountId = accountId && c.chatType = "private" && (chatIds.all fun ids => ids.contains c.externalId)

/-- `SET title = n.name … WHERE n.name IS NOT NULL AND c.title IS DISTINCT FROM n.name`. -/
def Chat.withName (c : Chat) (name : Option String) : Chat :=
  if name ≠ none ∧ c.title ≠ name then { c with title := name } else c

/-- The statement, for one chat. -/
def retitle (users : List User) (me : Int64) (accountId : Int) (chatIds : Option (List Int64)) (c : Chat) :
    Except Failure Chat :=
  if selected accountId chatIds c then (nameOf users me c).map c.withName else .ok c

/-- The own user of a MAX account that knows it. -/
def maxOwnUser (accounts : List Account) (accountId : Int) : Option Int64 :=
  (accounts.find? fun a => a.id = accountId).bind fun a => if a.platform = "max" then a.externalUserId else none

/-- `fill_dialog_titles`; nothing without an own user. -/
def fillDialogTitles (accounts : List Account) (users : List User) (chats : List Chat) (accountId : Int)
    (chatIds : Option (List Int64)) : Except Failure (List Chat) :=
  match maxOwnUser accounts accountId with
  | none => .ok chats
  | some me => chats.mapM (retitle users me accountId chatIds)

/-! ## What it does to a chat -/

/-- Only the title is set, and only of a chat that is selected. -/
def Retitled (accountId : Int) (chatIds : Option (List Int64)) (c c' : Chat) : Prop :=
  c' = c ∨ (selected accountId chatIds c = true ∧ ∃ title, c' = { c with title := title })

variable {users : List User} {me : Int64} {accountId : Int} {chatIds : Option (List Int64)} {c c' : Chat}

theorem retitle_of_selected (h : selected accountId chatIds c = true) :
    retitle users me accountId chatIds c = (nameOf users me c).map c.withName := if_pos h

/-- What the statement makes of a chat, which keeps it when it comes again. -/
theorem retitle_cases (h : retitle users me accountId chatIds c = .ok c') :
    Retitled accountId chatIds c c' ∧ retitle users me accountId chatIds c' = .ok c' := by
  by_cases hsel : selected accountId chatIds c = true
  · have hstatement := h
    rw [retitle_of_selected hsel] at hstatement
    cases hname : nameOf users me c with
    | error e =>
        rw [hname] at hstatement
        cases hstatement
    | ok name =>
        rw [hname] at hstatement
        have hc' : c.withName name = c' := Except.ok.inj hstatement
        unfold Chat.withName at hc'
        -- the name does not depend on the title
        by_cases hset : name ≠ none ∧ c.title ≠ name
        · rw [if_pos hset] at hc'
          subst hc'
          have hname' : nameOf users me { c with title := name } = .ok name := hname
          have hsel' : selected accountId chatIds { c with title := name } = true := hsel
          refine ⟨Or.inr ⟨hsel, name, rfl⟩, ?_⟩
          rw [retitle_of_selected hsel', hname']
          exact congrArg Except.ok (if_neg fun hagain => hagain.2 rfl)
        · rw [if_neg hset] at hc'
          subst hc'
          exact ⟨Or.inl rfl, h⟩
  · have hkept : retitle users me accountId chatIds c = .ok c := if_neg hsel
    obtain rfl : c = c' := Except.ok.inj (hkept.symm.trans h)
    exact ⟨Or.inl rfl, hkept⟩

/-- **A fixed point.** The statement sets titles only, and a second time it sets none. -/
theorem fillDialogTitles_spec {accounts : List Account} {chats chats' : List Chat}
    (h : fillDialogTitles accounts users chats accountId chatIds = .ok chats') :
    List.Forall₂ (Retitled accountId chatIds) chats chats' ∧
      fillDialogTitles accounts users chats' accountId chatIds = .ok chats' := by
  unfold fillDialogTitles at h ⊢
  cases hme : maxOwnUser accounts accountId with
  | none =>
      rw [hme] at h
      obtain rfl := Except.ok.inj h
      exact ⟨List.forall₂_same.mpr fun c _ => Or.inl rfl, rfl⟩
  | some me =>
      rw [hme] at h
      have hpass := mapM_ok_iff.mp h
      refine ⟨hpass.imp fun c c' hc => (retitle_cases hc).1, mapM_ok_iff.mpr (List.forall₂_same.mpr ?_)⟩
      exact forall_of_forall₂ hpass fun c c' hc => (retitle_cases hc).2

end MyPerson.MaxDialogs
