import Mathlib.Data.Finset.Image
import Mathlib.Data.Int.Bitwise
import MyPerson.Lib.Decimal
import MyPerson.Lib.Json

/-!
# `MaxDialogs.Peer` — the other side of a private MAX chat

The rule is written twice: `dialog_peer` of `app/max/normalize.py` reads keys with `int`, the peer expression of
`_FILL_DIALOG_TITLES` in `app/repo/chats.py` takes the keys of a regular expression and casts them. A key is one of
`raw.participants`, in the order jsonb keeps; chat and user ids are bigints, and a missing raw is null.

## Contents
- `dialogPeer`, `titlePeer`, `dialogPeersMissing`;
- `Agree`, the keys on which they agree;
- `titlePeer_iff`, `dialogPeer_agrees_iff`;
- `peers_agree`.
-/

namespace MyPerson.MaxDialogs

open Lib

/-! ## The two rules -/

inductive Failure
  /-- `AttributeError`: raw is neither an object nor empty. -/
  | noGet
  /-- A number that no bigint holds. -/
  | outOfRange

/-- The keys of `raw.participants`, if it is an object. -/
def participants (raw : Json) : List String :=
  match raw.get? "participants" with
  | some (.obj fields) => fields.map Prod.fst
  | _ => []

/-- The loop of `dialog_peer`: the first key that is a number other than `me`. -/
def firstOther (me : Int) : List String → Option Int
  | [] => none
  | key :: keys =>
      match Decimal.parse key with
      | some peer => if peer ≠ me then some peer else firstOther me keys
      | none => firstOther me keys

/-- `dialog_peer`. -/
def dialogPeer (chatId : Int) (raw : Json) (me : Int) : Except Failure (Option Int) :=
  if chatId = 0 then .ok none
  else if raw.truthy && !raw.isObj then .error .noGet
  else .ok (some ((firstOther me (participants raw)).getD (chatId.xor me)))

/-- A number that a bigint holds. -/
def InRange (n : Int) : Prop := -2 ^ 63 ≤ n ∧ n < 2 ^ 63

instance (n : Int) : Decidable (InRange n) := instDecidableAnd

def toBigint (n : Int) : Except Failure Int64 := if InRange n then .ok (Int64.ofInt n) else .error .outOfRange

/-- `k ~ '^-?[0-9]+$'`. -/
def isPlain (key : String) : Bool := Decimal.isWhole Char.isDigit key.toList

/-- The number of a plain key. -/
def plainValue (key : String) : Int := Decimal.wholeValue key.toList

/-- The subquery of the peer expression: the first plain key that is not `me`; the keys after it are not cast. -/
def firstPlain (me : Int64) : List String → Except Failure (Option Int64)
  | [] => .ok none
  | key :: keys =>
      if isPlain key then
        match toBigint (plainValue key) with
        | .ok peer => if peer ≠ me then .ok (some peer) else firstPlain me keys
        | .error e => .error e
      else firstPlain me keys

/-- The peer expression of `_FILL_DIALOG_TITLES`. -/
def titlePeer (externalId : Int64) (raw : Json) (me : Int64) : Except Failure Int64 :=
  (firstPlain me (participants raw)).map fun peer => peer.getD (externalId ^^^ me)

/-- `NewMaxStore.dialog_peers_missing`: `chats` are the private chats of the account, `named` its users with a first
    name. -/
def dialogPeersMissing (me : Option Int64) (chats : List (Int64 × Json)) (named : List Int64) :
    Except Failure (Finset Int) :=
  match me with
  | none => .ok ∅
  | some me => do
      let found ← (chats.filter fun c => c.1 ≠ 0).mapM fun c => dialogPeer c.1.toInt c.2 me.toInt
      let peers := found.reduceOption.toFinset.erase me.toInt
      if peers = ∅ then .ok ∅
      else if ∀ p ∈ peers, InRange p then .ok (peers \ (named.map Int64.toInt).toFinset)
      else .error .outOfRange

/-! ## Exclusive or in two's complement -/

theorem toInt_of_msb {w : Nat} (x : BitVec w) (h : x.msb = true) : x.toInt = Int.negSucc (~~~x).toNat := by
  have hlt := x.isLt
  rw [BitVec.toInt_eq_msb_cond, if_pos h, BitVec.toNat_not]
  omega

theorem toInt_of_not_msb {w : Nat} (x : BitVec w) (h : x.msb = false) : x.toInt = Int.ofNat x.toNat := by
  rw [BitVec.toInt_eq_msb_cond, if_neg (by rw [h]; decide)]
  rfl

/-- Bigints and Python's integers have the same exclusive or. -/
theorem bitVec_toInt_xor {w : Nat} (x y : BitVec w) : (x ^^^ y).toInt = x.toInt.xor y.toInt := by
  have hmsb : (x ^^^ y).msb = (x.msb ^^ y.msb) := BitVec.msb_xor
  cases hx : x.msb <;> cases hy : y.msb <;> rw [hx, hy] at hmsb
  · rw [toInt_of_not_msb _ hmsb, toInt_of_not_msb x hx, toInt_of_not_msb y hy]
    rfl
  · rw [toInt_of_msb _ hmsb, toInt_of_not_msb x hx, toInt_of_msb y hy, BitVec.not_xor_right]
    rfl
  · rw [toInt_of_msb _ hmsb, toInt_of_msb x hx, toInt_of_not_msb y hy, BitVec.not_xor_left]
    rfl
  · have hnot : x ^^^ y = ~~~x ^^^ ~~~y := by
      rw [← BitVec.not_xor_left, ← BitVec.not_xor_right, BitVec.not_not]
    rw [toInt_of_not_msb _ hmsb, toInt_of_msb x hx, toInt_of_msb y hy, hnot]
    rfl

theorem toInt_xor (a b : Int64) : (a ^^^ b).toInt = a.toInt.xor b.toInt := bitVec_toInt_xor a.toBitVec b.toBitVec

theorem inRange_toInt (a : Int64) : InRange a.toInt := ⟨Int64.le_toInt a, Int64.toInt_lt a⟩

theorem toInt_ofInt {n : Int} (h : InRange n) : (Int64.ofInt n).toInt = n := Int64.toInt_ofInt_of_le h.1 h.2

theorem toBigint_ok {n : Int} (h : InRange n) : toBigint n = .ok (Int64.ofInt n) := if_pos h

theorem toBigint_error {n : Int} (h : ¬ InRange n) : toBigint n = .error .outOfRange := if_neg h

/-! ## Where they agree -/

/-- A plain key of somebody else. -/
def isPlainOther (me : Int) (key : String) : Bool := isPlain key && plainValue key ≠ me

/-- `n` is the number of the first plain key of somebody else; without such a key it is `fallback`. -/
def Named (me fallback n : Int) (keys : List String) : Prop :=
  match keys.find? (isPlainOther me) with
  | some key => plainValue key = n ∧ InRange n
  | none => n = fallback

/-- A key that `int` reads as somebody else. -/
def isReadOther (me : Int) (key : String) : Bool := (Decimal.parse key).any fun n => n ≠ me

/-- `n` is the number of the first key that `int` reads as somebody else; without such a key it is `fallback`. -/
def ReadAs (me fallback n : Int) (keys : List String) : Prop :=
  match keys.find? (isReadOther me) with
  | some key => Decimal.parse key = some n
  | none => n = fallback

/-- What the keys are when the rules agree. The first key that is a number of somebody else by either rule is plain,
    `int` reads it, and it is a bigint; or it is written in another way, and the plain keys after it name the same
    number; or it is plain with too many digits for `int`, and the keys after it are read as the same number. -/
def Agree (me fallback : Int) : List String → Prop
  | [] => True
  | key :: keys =>
      match Decimal.parse key with
      | none =>
          if isPlainOther me key then InRange (plainValue key) ∧ ReadAs me fallback (plainValue key) keys
          else Agree me fallback keys
      | some n =>
          if n = me then Agree me fallback keys
          else if isPlain key then InRange n
          else Named me fallback n keys

/-- A plain key that `int` reads at all. -/
theorem plainValue_of_parse {key : String} {n : Int} (hplain : isPlain key = true) (h : Decimal.parse key = some n) :
    plainValue key = n := by
  have hread := Decimal.read_of_isWhole (Decimal.isWhole_mono (fun _ hc => Decimal.isDecimal_of_isDigit hc) hplain)
  exact Option.some.inj (hread.symm.trans (Decimal.read_of_parse h))

/-- The loop of `dialog_peer` stops at the first key that `int` reads as somebody else. -/
theorem firstOther_iff {me fallback n : Int} (keys : List String) :
    (firstOther me keys).getD fallback = n ↔ ReadAs me fallback n keys := by
  induction keys with
  | nil => exact eq_comm
  | cons key keys ih =>
      unfold firstOther ReadAs
      rw [List.find?_cons]
      cases hparse : Decimal.parse key with
      | none =>
          have hother : isReadOther me key = false := by rw [isReadOther, hparse]; rfl
          rw [hother]
          exact ih
      | some peer =>
          by_cases hme : peer = me
          · have hother : isReadOther me key = false := by simp [isReadOther, hparse, hme]
            simp only [hother, hme, ne_eq, not_true, if_false]
            exact ih
          · have hother : isReadOther me key = true := by simp [isReadOther, hparse, hme]
            simp only [hother, hme, hparse, ne_eq, not_false_eq_true, if_true, Option.getD_some, Option.some.injEq]

theorem firstPlain_find (me : Int64) (keys : List String) :
    firstPlain me keys = match keys.find? (isPlainOther me.toInt) with
      | some key => (toBigint (plainValue key)).map some
      | none => .ok none := by
  induction keys with
  | nil => rfl
  | cons key keys ih =>
      unfold firstPlain
      rw [List.find?_cons]
      cases hplain : isPlain key with
      | false =>
          have hother : isPlainOther me.toInt key = false := by rw [isPlainOther, hplain, Bool.false_and]
          rw [hother, if_neg Bool.false_ne_true]
          exact ih
      | true =>
          have hother : isPlainOther me.toInt key = decide (plainValue key ≠ me.toInt) := by
            rw [isPlainOther, hplain, Bool.true_and]
          rw [hother, if_pos rfl]
          by_cases hrange : InRange (plainValue key)
          · -- on bigints the test is that of the numbers
            rw [toBigint_ok hrange]
            by_cases hme : plainValue key = me.toInt
            · have heq : Int64.ofInt (plainValue key) = me := Int64.toInt_inj.mp ((toInt_ofInt hrange).trans hme)
              rw [decide_eq_false (not_not.mpr hme)]
              exact (if_neg (not_not.mpr heq)).trans ih
            · have hne : Int64.ofInt (plainValue key) ≠ me := fun heq =>
                hme ((toInt_ofInt hrange).symm.trans (congrArg Int64.toInt heq))
              rw [decide_eq_true hme]
              simp only [toBigint_ok hrange]
              exact if_pos hne
          · -- a number that is no bigint is not the account's, and stops both
            have hme : plainValue key ≠ me.toInt := fun heq => hrange (heq ▸ inRange_toInt me)
            rw [decide_eq_true hme]
            simp only [toBigint_error hrange]
            rfl

/-- What the peer expression gives. -/
theorem titlePeer_iff (externalId : Int64) (raw : Json) (me : Int64) (n : Int) :
    (titlePeer externalId raw me).map Int64.toInt = .ok n ↔
      Named me.toInt (externalId.toInt.xor me.toInt) n (participants raw) := by
  unfold titlePeer Named
  rw [firstPlain_find]
  cases (participants raw).find? (isPlainOther me.toInt) with
  | none =>
      have hvalue : (Except.map Int64.toInt (Except.map (fun peer => peer.getD (externalId ^^^ me))
          (Except.ok none)) : Except Failure Int) = .ok (externalId.toInt.xor me.toInt) :=
        congrArg Except.ok (toInt_xor externalId me)
      simp only [hvalue, Except.ok.injEq]
      exact eq_comm
  | some key =>
      by_cases hrange : InRange (plainValue key)
      · simp only [toBigint_ok hrange, Except.map, Option.getD_some, Except.ok.injEq, toInt_ofInt hrange]
        exact ⟨fun heq => ⟨heq, heq ▸ hrange⟩, And.left⟩
      · simp only [toBigint_error hrange, Except.map, reduceCtorEq, false_iff]
        rintro ⟨rfl, hin⟩
        exact hrange hin

theorem named_firstOther_iff {me fallback : Int} (keys : List String) :
    Named me fallback ((firstOther me keys).getD fallback) keys ↔ Agree me fallback keys := by
  induction keys with
  | nil => exact iff_of_true rfl trivial
  | cons key keys ih =>
      -- a key that is not a plain one of somebody else is passed over by the expression
      have hskip : ∀ n, isPlainOther me key = false →
          (Named me fallback n (key :: keys) ↔ Named me fallback n keys) := by
        intro n hother
        unfold Named
        rw [List.find?_cons, hother]
      unfold firstOther Agree
      cases hparse : Decimal.parse key with
      | none =>
          simp only
          cases hother : isPlainOther me key with
          | false =>
              rw [if_neg Bool.false_ne_true]
              exact (hskip _ hother).trans ih
          | true =>
              -- too many digits for `int`; the expression takes this key
              rw [if_pos rfl, and_comm, ← firstOther_iff]
              unfold Named
              rw [List.find?_cons, hother]
              constructor
              · rintro ⟨hvalue, hrange⟩
                exact ⟨hvalue.symm, hvalue ▸ hrange⟩
              · rintro ⟨hvalue, hrange⟩
                exact ⟨hvalue.symm, hvalue ▸ hrange⟩
      | some n =>
          have hvalue : isPlain key = true → plainValue key = n := fun hplain => plainValue_of_parse hplain hparse
          simp only
          by_cases hme : n = me
          · have hother : isPlainOther me key = false := by
              unfold isPlainOther
              cases hplain : isPlain key with
              | false => rfl
              | true => simp [hvalue hplain, hme]
            simp only [hme, ne_eq, not_true, if_false, if_true]
            exact (hskip _ hother).trans ih
          · -- Python takes this key; the expression takes it when it is plain
            simp only [hme, ne_eq, not_false_eq_true, if_true, if_false, Option.getD_some]
            cases hplain : isPlain key with
            | false =>
                have hother : isPlainOther me key = false := by rw [isPlainOther, hplain, Bool.false_and]
                rw [if_neg Bool.false_ne_true]
                exact hskip n hother
            | true =>
                have hother : isPlainOther me key = true := by simp [isPlainOther, hplain, hvalue hplain, hme]
                unfold Named
                rw [List.find?_cons, hother, if_pos rfl]
                exact and_iff_right (hvalue hplain)

/-- The rules name the same peer. -/
def SamePeer (externalId : Int64) (raw : Json) (me : Int64) : Prop :=
  dialogPeer externalId.toInt raw me.toInt = (titlePeer externalId raw me).map fun peer => some peer.toInt

/-- Raw is an object or empty, and the rules agree on its keys. -/
def Agrees (externalId : Int64) (raw : Json) (me : Int64) : Prop :=
  (raw.truthy = true → raw.isObj = true) ∧
    Agree me.toInt (externalId.toInt.xor me.toInt) (participants raw)

theorem participants_of_not_isObj {raw : Json} (h : raw.isObj = false) : participants raw = [] := by
  cases raw with
  | obj fields => cases h
  | _ => rfl

theorem toInt_ne_zero {a : Int64} (h : a ≠ 0) : a.toInt ≠ 0 := fun heq => h (Int64.toInt_inj.mp heq)

theorem dialogPeer_agrees_iff {externalId : Int64} {raw : Json} {me : Int64} (hchat : externalId ≠ 0) :
    SamePeer externalId raw me ↔ Agrees externalId raw me := by
  unfold SamePeer Agrees dialogPeer
  rw [if_neg (toInt_ne_zero hchat)]
  by_cases hget : raw.truthy = true ∧ raw.isObj = false
  · -- `get` is asked of something else than a dictionary; the expression falls back to the exclusive or
    have hguard : (raw.truthy && !raw.isObj) = true := by rw [hget.1, hget.2]; rfl
    rw [if_pos hguard]
    refine iff_of_false ?_ fun h => absurd (h.1 hget.1) (by rw [hget.2]; exact Bool.false_ne_true)
    unfold titlePeer
    rw [participants_of_not_isObj hget.2]
    rintro ⟨⟩
  · have hobj : raw.truthy = true → raw.isObj = true := fun htruthy =>
      eq_true_of_ne_false fun hnot => hget ⟨htruthy, hnot⟩
    have hguard : ¬ (raw.truthy && !raw.isObj) = true := by
      simpa using hobj
    rw [if_neg hguard, and_iff_right hobj, ← named_firstOther_iff, ← titlePeer_iff]
    cases titlePeer externalId raw me with
    | error e => exact iff_of_false (by rintro ⟨⟩) (by rintro ⟨⟩)
    | ok peer =>
        simp only [Except.map, Except.ok.injEq, Option.some.injEq]
        exact eq_comm

/-- The peers of the chats, by one rule and by the other. -/
theorem mapM_peers {me : Int64} {chats : List (Int64 × Json)} (hchats : ∀ c ∈ chats, c.1 ≠ 0)
    (hagree : ∀ c ∈ chats, Agrees c.1 c.2 me) :
    ∃ peers, chats.mapM (fun c => titlePeer c.1 c.2 me) = .ok peers ∧
      chats.mapM (fun c => dialogPeer c.1.toInt c.2 me.toInt) = .ok (peers.map fun peer => some peer.toInt) := by
  induction chats with
  | nil => exact ⟨[], rfl, rfl⟩
  | cons c chats ih =>
      obtain ⟨peers, htitles, hnames⟩ :=
        ih (fun c' hc' => hchats c' (List.mem_cons_of_mem c hc')) fun c' hc' => hagree c' (List.mem_cons_of_mem c hc')
      have hchat := hchats c List.mem_cons_self
      have hagrees := hagree c List.mem_cons_self
      have hsame : SamePeer c.1 c.2 me := (dialogPeer_agrees_iff hchat).mpr hagrees
      obtain ⟨peer, hpeer⟩ : ∃ peer, titlePeer c.1 c.2 me = .ok peer := by
        have hnumber := (titlePeer_iff c.1 c.2 me _).mpr ((named_firstOther_iff _).mpr hagrees.2)
        cases htitle : titlePeer c.1 c.2 me with
        | ok peer => exact ⟨peer, rfl⟩
        | error e =>
            rw [htitle] at hnumber
            cases hnumber
      have hdialog : dialogPeer c.1.toInt c.2 me.toInt = .ok (some peer.toInt) := by
        rw [hsame, hpeer]
        rfl
      refine ⟨peer :: peers, ?_, ?_⟩
      · rw [List.mapM_cons, hpeer, htitles]
        rfl
      · rw [List.mapM_cons, hdialog, hnames]
        rfl

/-- **One rule, written twice.** For a chat other than the saved messages the rules name the same peer exactly when
    raw is an object or empty and its keys are as `Agree` says; where this holds of all chats, the names that are
    fetched are those that titles need. -/
theorem peers_agree (me : Int64) :
    (∀ (externalId : Int64) (raw : Json), externalId ≠ 0 →
      (SamePeer externalId raw me ↔ Agrees externalId raw me)) ∧
    ∀ (chats : List (Int64 × Json)) (named : List Int64), (∀ c ∈ chats, c.1 ≠ 0 → Agrees c.1 c.2 me) →
      ∃ peers, (chats.filter fun c => c.1 ≠ 0).mapM (fun c => titlePeer c.1 c.2 me) = .ok peers ∧
        dialogPeersMissing (some me) chats named =
          .ok ((peers.map Int64.toInt).toFinset.erase me.toInt \ (named.map Int64.toInt).toFinset) := by
  refine ⟨fun externalId raw hchat => dialogPeer_agrees_iff hchat, fun chats named hagree => ?_⟩
  have hnonzero : ∀ c ∈ chats.filter fun c => c.1 ≠ 0, c.1 ≠ 0 := fun c hc => by
    simpa using (List.mem_filter.mp hc).2
  obtain ⟨peers, htitles, hnames⟩ := mapM_peers hnonzero fun c hc =>
    hagree c (List.mem_filter.mp hc).1 (hnonzero c hc)
  refine ⟨peers, htitles, ?_⟩
  have hreduce : (peers.map fun peer => some peer.toInt).reduceOption = peers.map Int64.toInt := by
    unfold List.reduceOption
    rw [List.filterMap_map]
    exact congrFun List.filterMap_eq_map peers
  have hrange : ∀ p ∈ (peers.map Int64.toInt).toFinset.erase me.toInt, InRange p := by
    intro p hp
    obtain ⟨peer, -, rfl⟩ := List.mem_map.mp (List.mem_toFinset.mp (Finset.mem_of_mem_erase hp))
    exact inRange_toInt peer
  unfold dialogPeersMissing
  simp only [hnames, bind, Except.bind, hreduce]
  rw [if_pos hrange]
  split
  · rename_i hempty
    rw [hempty, Finset.empty_sdiff]
  · rfl

/-- A number with a plus sign: the name of user 5 is fetched, and the title is that of user 99. -/
theorem plus_sign_differs : ¬ ∀ (externalId : Int64) (raw : Json) (me : Int64), externalId ≠ 0 →
    SamePeer externalId raw me := by
  intro h
  have hsame := h 7 (.obj [("participants", .obj [("+5", .int 2), ("100", .int 1)])]) 100 (by decide)
  have hpython : dialogPeer 7 (.obj [("participants", .obj [("+5", .int 2), ("100", .int 1)])]) 100 =
      .ok (some 5) := rfl
  have hsql : titlePeer 7 (.obj [("participants", .obj [("+5", .int 2), ("100", .int 1)])]) 100 = .ok 99 := rfl
  rw [SamePeer, hsql] at hsame
  have hdiff := hpython.symm.trans hsame
  simp [Except.map] at hdiff

end MyPerson.MaxDialogs
