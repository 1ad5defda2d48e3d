import Mathlib.Data.List.DropRight
import Mathlib.Data.List.Infix
import MyPerson.Lib.Decimal
import MyPerson.Lib.Scan

/-!
# `Phone.Mask` — phone numbers and their masks

`app/utils/phone.py`: `normalize_phone`, `mask_phone` and `mask_phones_in_text`. A text is the list of its
characters. The pattern of a phone in a text takes the rest of a stretch of digits, white space, dashes and brackets
up to its last digit, so two numbers in a row are one match.

## Contents
- `normalizePhone`, `maskPhone`, `maskPhonesInText`;
- `Masked`, texts whose only digits are those of masks;
- `Fine`, texts whose matches are masked whole;
- `phones_masked`.
-/

namespace MyPerson.Phone

open Lib

/-! ## Numbers and masks -/

/-- `_NON_DIGITS.sub("", text)`. -/
def digitsOf (text : List Char) : List Char := text.filter Decimal.isDecimal

/-- `normalize_phone`. -/
def normalizePhone (raw : List Char) : Option (List Char) :=
  let digits := digitsOf raw
  let digits := if digits.length = 11 ∧ digits.head? = some '8' then '7' :: digits.tail else digits
  if digits.length < 10 then none else some ('+' :: digits)

/-- `mask_phone`. -/
def maskPhone (phone : List Char) : Option (List Char) :=
  (normalizePhone phone).map fun e164 =>
    let digits := e164.tail
    '+' :: digits.take 1 ++ List.replicate (digits.length - 5) '*' ++ digits.drop (digits.length - 4)

/-! ## Phones in a text -/

def isBracket (c : Char) : Bool := c = '(' || c = ')'

/-- A character of `[\d\s()-]`. -/
def isPhoneChar (c : Char) : Bool := Decimal.isDecimal c || Decimal.isSpace c || isBracket c || c = '-'

/-- `[\d\s()-]*\d` at the front of a text: as far as it goes, and then back to a digit. -/
def upToDigit (text : List Char) : List Char :=
  (text.takeWhile isPhoneChar).rdropWhile fun c => !Decimal.isDecimal c

/-- `\d[\d\s()-]{8,}\d` at the front of a text. -/
def numberAt : List Char → Option (List Char)
  | [] => none
  | d :: rest => if Decimal.isDecimal d ∧ 9 ≤ (upToDigit rest).length then some (d :: upToDigit rest) else none

/-- `\+?\d[\d\s()-]{8,}\d` at the front of a text. -/
def phoneAt : List Char → Option (List Char)
  | [] => none
  | c :: rest => if c = '+' then (numberAt rest).map fun number => '+' :: number else numberAt (c :: rest)

/-- `\s*[()]\s*` at the front of a text. -/
def separatorAt (text : List Char) : Option (List Char) :=
  match text.dropWhile Decimal.isSpace with
  | [] => none
  | c :: rest =>
      if isBracket c then some (text.takeWhile Decimal.isSpace ++ c :: rest.takeWhile Decimal.isSpace) else none

/-- `one`: what becomes of a chunk; ten digits have a mask. -/
def one (chunk : List Char) : List Char :=
  let digits := (digitsOf chunk).length
  if 10 ≤ digits ∧ digits ≤ 15 then (maskPhone chunk).getD [] else chunk

/-- `repl`: what becomes of a match. -/
def repl (run : List Char) : List Char :=
  if (digitsOf run).length ≤ 15 then one run else (Scan.split separatorAt [] 0 run).flatMap one

/-- `mask_phones_in_text`. -/
def maskPhonesInText (text : List Char) : List Char := Scan.sub phoneAt repl 0 text

/-! ## Characters -/

theorem isPhoneChar_of_isDecimal {c : Char} (h : Decimal.isDecimal c = true) : isPhoneChar c = true := by
  rw [isPhoneChar, h]
  rfl

theorem plus_not_phoneChar : isPhoneChar '+' = false := by decide

theorem star_not_phoneChar : isPhoneChar '*' = false := by decide

theorem not_isDecimal_of_isBracket {c : Char} (h : isBracket c = true) : Decimal.isDecimal c = false := by
  have hbrackets : Decimal.isDecimal '(' = false ∧ Decimal.isDecimal ')' = false := by decide
  rcases Bool.or_eq_true_iff.mp h with hc | hc
  · exact of_decide_eq_true hc ▸ hbrackets.1
  · exact of_decide_eq_true hc ▸ hbrackets.2

theorem not_isDecimal_of_isSpace {c : Char} (h : Decimal.isSpace c = true) : Decimal.isDecimal c = false := by
  cases hdec : Decimal.isDecimal c with
  | false => rfl
  | true =>
      rw [Decimal.isSpace_of_isDecimal hdec] at h
      cases h

/-- No digit in it. -/
def Plain (text : List Char) : Prop := ∀ c ∈ text, Decimal.isDecimal c = false

instance (text : List Char) : Decidable (Plain text) := List.decidableBAll _ _

theorem digitsOf_plain {text : List Char} (h : Plain text) : digitsOf text = [] :=
  List.filter_eq_nil_iff.mpr fun c hc => Bool.eq_false_iff.mp (h c hc)

theorem plain_of_digitsOf {text : List Char} (h : digitsOf text = []) : Plain text := fun c hc =>
  Bool.eq_false_iff.mpr (List.filter_eq_nil_iff.mp h c hc)

theorem digitsOf_append (a b : List Char) : digitsOf (a ++ b) = digitsOf a ++ digitsOf b := List.filter_append a b

/-! ## Where no match starts -/

variable {c d : Char} {text rest : List Char}

theorem numberAt_other (hc : Decimal.isDecimal c = false) : numberAt (c :: rest) = none := by
  simp [numberAt, hc]

theorem numberAt_short (h : (upToDigit rest).length < 9) : numberAt (c :: rest) = none :=
  if_neg fun hlong => absurd hlong.2 (Nat.not_le.mpr h)

theorem phoneAt_number (hd : Decimal.isDecimal d = true) : phoneAt (d :: rest) = numberAt (d :: rest) := by
  refine if_neg ?_
  rintro rfl
  exact absurd hd (by decide)

theorem phoneAt_other (hplus : c ≠ '+') (hc : Decimal.isDecimal c = false) : phoneAt (c :: rest) = none :=
  (if_neg hplus).trans (numberAt_other hc)

theorem phoneAt_plus (rest : List Char) :
    phoneAt ('+' :: rest) = (numberAt rest).map fun number => '+' :: number := by
  rw [phoneAt, if_pos rfl]

theorem phoneAt_plus_none (h : numberAt rest = none) : phoneAt ('+' :: rest) = none := by
  rw [phoneAt_plus, h]
  rfl

/-- A stretch ends before a character that is not of a phone. -/
theorem upToDigit_cons_of_not (hc : isPhoneChar c = false) : upToDigit (c :: rest) = [] := by
  rw [upToDigit, List.takeWhile_cons, hc]
  rfl

/-- What a match takes of characters of a phone, when no digit follows in the stretch. -/
theorem upToDigit_append (hrun : ∀ c ∈ text, isPhoneChar c = true) (hrest : Plain (rest.takeWhile isPhoneChar)) :
    upToDigit (text ++ rest) = text.rdropWhile fun c => !Decimal.isDecimal c := by
  have hdrop : ∀ c ∈ (rest.takeWhile isPhoneChar).reverse, (!Decimal.isDecimal c) = true := fun c hc => by
    rw [hrest c (List.mem_reverse.mp hc)]
    rfl
  rw [upToDigit, List.takeWhile_append_of_pos hrun]
  unfold List.rdropWhile
  rw [List.reverse_append, List.dropWhile_append_of_pos hdrop]

theorem upToDigit_append_length (hrun : ∀ c ∈ text, isPhoneChar c = true)
    (hrest : Plain (rest.takeWhile isPhoneChar)) : (upToDigit (text ++ rest)).length ≤ text.length := by
  rw [upToDigit_append hrun hrest]
  exact (List.rdropWhile_prefix _ _).length_le

/-! ## Masked texts -/

/-- The only digits are those of masks: one after a plus sign, four after stars. -/
inductive Masked : List Char → Prop
  | nil : Masked []
  | other {c : Char} {text : List Char} (hc : Decimal.isDecimal c = false) (h : Masked text) : Masked (c :: text)
  | mask {d : Char} {k : Nat} {last text : List Char} (hd : Decimal.isDecimal d = true) (hlast : last.length = 4)
      (hdigits : ∀ c ∈ last, Decimal.isDecimal c = true) (h : Masked text) :
      Masked ('+' :: d :: '*' :: (List.replicate k '*' ++ (last ++ text)))

theorem masked_append {a b : List Char} (ha : Masked a) (hb : Masked b) : Masked (a ++ b) := by
  induction ha with
  | nil => exact hb
  | other hc _ ih => exact .other hc ih
  | mask hd hlast hdigits _ ih =>
      simp only [List.cons_append, List.append_assoc]
      exact .mask hd hlast hdigits ih

theorem masked_flatMap {f : List Char → List Char} {pieces : List (List Char)} (h : ∀ p ∈ pieces, Masked (f p)) :
    Masked (pieces.flatMap f) := by
  induction pieces with
  | nil => exact .nil
  | cons p pieces ih =>
      rw [List.flatMap_cons]
      exact masked_append (h p List.mem_cons_self) (ih fun p' hp' => h p' (List.mem_cons_of_mem p hp'))

theorem masked_plain (h : Plain text) : Masked text := by
  induction text with
  | nil => exact .nil
  | cons c text ih => exact .other (h c List.mem_cons_self) (ih fun c' hc' => h c' (List.mem_cons_of_mem c hc'))

/-- A masked text starts with a plus sign or with something else than a digit. -/
theorem masked_head (h : Masked (c :: text)) : Decimal.isDecimal c = false := by
  cases h with
  | other hc _ => exact hc
  | mask => decide

/-- The stretch at the front of a masked text has no digit: a mask begins with a plus sign. -/
theorem masked_stretch (h : Masked text) : Plain (text.takeWhile isPhoneChar) := by
  induction h with
  | nil => exact fun c hc => by cases hc
  | @other c text hc _ ih =>
      rw [List.takeWhile_cons]
      split
      · intro c' hc'
        rcases List.mem_cons.mp hc' with rfl | hc'
        · exact hc
        · exact ih c' hc'
      · exact fun c hc => by cases hc
  | mask =>
      rw [List.takeWhile_cons, plus_not_phoneChar]
      exact fun c hc => by cases hc

theorem numberAt_masked (h : Masked text) : numberAt text = none := by
  cases text with
  | nil => rfl
  | cons c text => exact numberAt_other (masked_head h)

theorem sub_stars (k : Nat) (rest : List Char) :
    Scan.sub phoneAt repl 0 (List.replicate k '*' ++ rest) =
      List.replicate k '*' ++ Scan.sub phoneAt repl 0 rest := by
  refine Scan.sub_pass fun c hc cs => ?_
  rw [List.eq_of_mem_replicate hc]
  exact phoneAt_other (by decide) (by decide)

/-- A few digits before a masked text are no phone. -/
theorem sub_digits (h : Masked text) {last : List Char} (hlen : last.length ≤ 9)
    (hdigits : ∀ c ∈ last, Decimal.isDecimal c = true) :
    Scan.sub phoneAt repl 0 (last ++ text) = last ++ Scan.sub phoneAt repl 0 text := by
  induction last with
  | nil => rfl
  | cons d last ih =>
      have hlast : ∀ c ∈ last, Decimal.isDecimal c = true := fun c hc => hdigits c (List.mem_cons_of_mem d hc)
      have hshort : (upToDigit (last ++ text)).length < 9 :=
        (upToDigit_append_length (fun c hc => isPhoneChar_of_isDecimal (hlast c hc)) (masked_stretch h)).trans_lt hlen
      have hnone : phoneAt (d :: (last ++ text)) = none :=
        (phoneAt_number (hdigits d List.mem_cons_self)).trans (numberAt_short hshort)
      rw [List.cons_append, Scan.sub_none hnone, ih (Nat.le_of_succ_le hlen) hlast, List.cons_append]

/-- **Once is enough.** A masked text stays as it is. -/
theorem mask_of_masked (h : Masked text) : maskPhonesInText text = text := by
  unfold maskPhonesInText
  induction h with
  | nil => rfl
  | @other c text hc h ih =>
      have hnone : phoneAt (c :: text) = none := by
        by_cases hplus : c = '+'
        · exact hplus ▸ phoneAt_plus_none (numberAt_masked h)
        · exact phoneAt_other hplus hc
      rw [Scan.sub_none hnone, ih]
  | @mask d k last text hd hlast hdigits h ih =>
      -- the stars end the stretch of the first digit, and the last four are too few
      have hshort : ∀ rest, (upToDigit ('*' :: rest)).length < 9 := fun rest => by
        simp [upToDigit_cons_of_not star_not_phoneChar]
      rw [Scan.sub_none (phoneAt_plus_none (numberAt_short (hshort _))),
        Scan.sub_none ((phoneAt_number hd).trans (numberAt_short (hshort _))),
        Scan.sub_none (phoneAt_other (by decide) (by decide)), sub_stars,
        sub_digits h (by omega) hdigits, ih]

/-! ## Numbers in a masked text -/

variable {w : List Char}

theorem digitsOf_prefix (h : Masked text) (hw : ∀ c ∈ w, isPhoneChar c = true) {last : List Char}
    (hfront : w <+: last ++ text) : (digitsOf w).length ≤ last.length := by
  induction last generalizing w with
  | nil =>
      obtain ⟨t, rfl⟩ := hfront
      have hplain : Plain w := fun c hc => masked_stretch h c (by
        rw [List.takeWhile_append_of_pos hw]
        exact List.mem_append_left _ hc)
      rw [digitsOf_plain hplain]
  | cons x last ih =>
      cases w with
      | nil => exact Nat.zero_le _
      | cons c w =>
          have hrest := ih (fun c' hc' => hw c' (List.mem_cons_of_mem c hc')) (List.cons_prefix_cons.mp hfront).2
          have hone : (digitsOf (c :: w)).length ≤ (digitsOf w).length + 1 := by
            unfold digitsOf
            rw [List.filter_cons]
            split
            · exact Nat.le_refl _
            · exact Nat.le_succ _
          exact hone.trans (Nat.succ_le_succ hrest)

theorem digitsOf_infix_last (h : Masked text) (hw : ∀ c ∈ w, isPhoneChar c = true) {last : List Char}
    (hwithin : w <:+: last ++ text) (htext : w <:+: text → (digitsOf w).length ≤ 4) (hlast : last.length ≤ 4) :
    (digitsOf w).length ≤ 4 := by
  induction last with
  | nil => exact htext hwithin
  | cons x last ih =>
      rcases List.infix_cons_iff.mp hwithin with hfront | hwithin
      · have hle : (digitsOf w).length ≤ (x :: last).length := digitsOf_prefix h hw hfront
        exact hle.trans hlast
      · exact ih hwithin (Nat.le_of_succ_le hlast)

/-- Characters of a phone do not begin with another character. -/
theorem nil_of_front (hc : isPhoneChar c = false) (hw : ∀ c ∈ w, isPhoneChar c = true)
    (hfront : w <+: c :: text) : w = [] := by
  cases w with
  | nil => rfl
  | cons c' w =>
      obtain rfl := (List.cons_prefix_cons.mp hfront).1
      rw [hw c' List.mem_cons_self] at hc
      cases hc

theorem infix_of_cons (hc : isPhoneChar c = false) (hw : ∀ c ∈ w, isPhoneChar c = true)
    (hwithin : w <:+: c :: text) : w <:+: text := by
  rcases List.infix_cons_iff.mp hwithin with hfront | hwithin
  · rw [nil_of_front hc hw hfront]
    exact List.nil_infix
  · exact hwithin

/-- **Nothing to read.** No stretch of a masked text has more than four digits. -/
theorem digitsOf_infix (h : Masked text) (hw : ∀ c ∈ w, isPhoneChar c = true) (hwithin : w <:+: text) :
    (digitsOf w).length ≤ 4 := by
  induction h with
  | nil =>
      rw [List.infix_nil.mp hwithin]
      exact Nat.zero_le 4
  | @other c text hc h ih =>
      rcases List.infix_cons_iff.mp hwithin with hfront | hwithin
      · have hle : (digitsOf w).length ≤ [c].length := digitsOf_prefix h hw hfront
        exact hle.trans (Nat.le_add_left 1 3)
      · exact ih hwithin
  | @mask d k last text hd hlast hdigits h ih =>
      have hstars : ∀ n, w <:+: List.replicate n '*' ++ (last ++ text) → w <:+: last ++ text := by
        intro n
        induction n with
        | zero => exact id
        | succ n ihn => exact fun hn => ihn (infix_of_cons star_not_phoneChar hw hn)
      have hafter := infix_of_cons plus_not_phoneChar hw hwithin
      rcases List.infix_cons_iff.mp hafter with hfront | hafter
      · cases w with
        | nil => exact Nat.zero_le 4
        | cons x w =>
            have hw' : ∀ c ∈ w, isPhoneChar c = true := fun c hc => hw c (List.mem_cons_of_mem x hc)
            obtain rfl := nil_of_front star_not_phoneChar hw' (List.cons_prefix_cons.mp hfront).2
            exact (List.length_filter_le _ _).trans (Nat.le_add_left 1 3)
      · exact digitsOf_infix_last h hw (hstars (k + 1) hafter) ih hlast.le

/-! ## What becomes of a match -/

/-- As many digits as one phone number has, or none. -/
def Whole (n : Nat) : Prop := n = 0 ∨ (10 ≤ n ∧ n ≤ 15)

/-- How many digits stand in the pieces between the brackets. -/
def counts (run : List Char) : List Nat := (run.splitOnP isBracket).map fun piece => (digitsOf piece).length

theorem normalizePhone_some {chunk : List Char} (h : 10 ≤ (digitsOf chunk).length) :
    ∃ digits, normalizePhone chunk = some ('+' :: digits) ∧ 10 ≤ digits.length ∧
      ∀ c ∈ digits, Decimal.isDecimal c = true := by
  have hdigits : ∀ c ∈ digitsOf chunk, Decimal.isDecimal c = true := fun c hc => (List.mem_filter.mp hc).2
  unfold normalizePhone
  by_cases htrunk : (digitsOf chunk).length = 11 ∧ (digitsOf chunk).head? = some '8'
  · have hlen : 10 ≤ ('7' :: (digitsOf chunk).tail).length := by
      rw [List.length_cons, List.length_tail]
      omega
    refine ⟨'7' :: (digitsOf chunk).tail, ?_, hlen, fun c hc => ?_⟩
    · simp only [if_pos htrunk]
      exact if_neg (Nat.not_lt.mpr hlen)
    · rcases List.mem_cons.mp hc with rfl | hc
      · decide
      · exact hdigits c (List.mem_of_mem_tail hc)
  · refine ⟨digitsOf chunk, ?_, h, hdigits⟩
    simp only [if_neg htrunk]
    exact if_neg (Nat.not_lt.mpr h)

theorem maskPhone_masked {chunk : List Char} (h : 10 ≤ (digitsOf chunk).length) :
    ∃ mask, maskPhone chunk = some mask ∧ Masked mask := by
  obtain ⟨digits, hnormal, hlen, hdigits⟩ := normalizePhone_some h
  refine ⟨_, by rw [maskPhone, hnormal]; rfl, ?_⟩
  obtain ⟨d, digits, rfl⟩ := List.exists_cons_of_ne_nil (List.ne_nil_of_length_pos (by omega : 0 < digits.length))
  obtain ⟨k, hk⟩ : ∃ k, digits.length - 4 = k + 1 := by
    rw [List.length_cons] at hlen
    exact ⟨digits.length - 5, by omega⟩
  have hlast : ((d :: digits).drop ((d :: digits).length - 4)).length = 4 := by
    rw [List.length_drop]
    omega
  have hmasked := Masked.mask (k := k) (hdigits d List.mem_cons_self) hlast
    (fun c hc => hdigits c (List.mem_of_mem_drop hc)) .nil
  rw [List.append_nil] at hmasked
  simpa [hk, List.replicate_succ] using hmasked

theorem one_masked {chunk : List Char} (h : Whole (digitsOf chunk).length) : Masked (one chunk) := by
  unfold one
  rcases h with hzero | hphone
  · simp only [hzero]
    exact masked_plain (plain_of_digitsOf (List.length_eq_zero_iff.mp hzero))
  · obtain ⟨mask, hmask, hmasked⟩ := maskPhone_masked hphone.1
    simp only [if_pos hphone, hmask]
    exact hmasked

/-! ## Pieces between brackets -/

theorem counts_ne_nil (run : List Char) : counts run ≠ [] := fun h =>
  List.splitOnP_ne_nil isBracket run (List.map_eq_nil_iff.mp h)

theorem counts_bracket (hc : isBracket c = true) (run : List Char) : counts (c :: run) = 0 :: counts run := by
  rw [counts, List.splitOnP_cons_eq_if_modifyHead, if_pos hc]
  rfl

theorem counts_cons (hc : isBracket c = false) (run : List Char) :
    counts (c :: run) = (counts run).modifyHead fun n => (digitsOf [c]).length + n := by
  have hdigits : ∀ piece, (digitsOf (c :: piece)).length = (digitsOf [c]).length + (digitsOf piece).length :=
    fun piece => by rw [← List.length_append, ← digitsOf_append]; rfl
  rw [counts, counts, List.splitOnP_cons_eq_if_modifyHead, hc, if_neg Bool.false_ne_true]
  cases run.splitOnP isBracket with
  | nil => rfl
  | cons piece pieces => exact congrArg₂ List.cons (hdigits piece) rfl

theorem counts_plain_cons (hc : Decimal.isDecimal c = false) (hbracket : isBracket c = false) (run : List Char) :
    counts (c :: run) = counts run := by
  have hzero : (digitsOf [c]).length = 0 := by simp [digitsOf, hc]
  rw [counts_cons hbracket, hzero]
  cases counts run with
  | nil => rfl
  | cons n ns => simp

/-- A piece before a bracket. -/
theorem counts_append {piece : List Char} (h : ∀ c ∈ piece, isBracket c = false) (run : List Char) :
    counts (piece ++ run) = (counts run).modifyHead fun n => (digitsOf piece).length + n := by
  induction piece with
  | nil =>
      cases hrun : counts run with
      | nil => simp [hrun]
      | cons n ns => simp [hrun, digitsOf]
  | cons c piece ih =>
      have hdigits : (digitsOf (c :: piece)).length = (digitsOf [c]).length + (digitsOf piece).length := by
        rw [← List.length_append, ← digitsOf_append]
        rfl
      rw [List.cons_append, counts_cons (h c List.mem_cons_self),
        ih fun c' hc' => h c' (List.mem_cons_of_mem c hc'), hdigits]
      cases counts run with
      | nil => rfl
      | cons n ns => simp [Nat.add_assoc]

/-- Characters that are no digits, in front. -/
theorem mem_counts_append_left {pre run : List Char} (hpre : Plain pre) {n : Nat} (h : n ∈ counts run) :
    n ∈ counts (pre ++ run) := by
  induction pre with
  | nil => exact h
  | cons c pre ih =>
      have hrest := ih fun c' hc' => hpre c' (List.mem_cons_of_mem c hc')
      cases hbracket : isBracket c with
      | true =>
          rw [List.cons_append, counts_bracket hbracket]
          exact List.mem_cons_of_mem 0 hrest
      | false =>
          rw [List.cons_append, counts_plain_cons (hpre c List.mem_cons_self) hbracket]
          exact hrest

/-- Characters that are no digits, at the end: only empty pieces are added. -/
theorem counts_append_right {post : List Char} (hpost : Plain post) (run : List Char) :
    ∃ k, counts (run ++ post) = counts run ++ List.replicate k 0 := by
  induction run with
  | nil =>
      induction post with
      | nil => exact ⟨0, rfl⟩
      | cons c post ih =>
          obtain ⟨k, hk⟩ := ih fun c' hc' => hpost c' (List.mem_cons_of_mem c hc')
          rw [List.nil_append] at hk
          cases hbracket : isBracket c with
          | true =>
              refine ⟨k + 1, ?_⟩
              rw [List.nil_append, counts_bracket hbracket, hk]
              rfl
          | false =>
              refine ⟨k, ?_⟩
              rw [List.nil_append, counts_plain_cons (hpost c List.mem_cons_self) hbracket, hk]
  | cons c run ih =>
      obtain ⟨k, hk⟩ := ih
      refine ⟨k, ?_⟩
      cases hbracket : isBracket c with
      | true => rw [List.cons_append, counts_bracket hbracket, counts_bracket hbracket, hk, List.cons_append]
      | false =>
          rw [List.cons_append, counts_cons hbracket, counts_cons hbracket, hk]
          obtain ⟨n, ns, hns⟩ := List.exists_cons_of_ne_nil (counts_ne_nil run)
          rw [hns]
          rfl

theorem not_isBracket_of_isSpace (hc : Decimal.isSpace c = true) : isBracket c = false := by
  have hbrackets : Decimal.isSpace '(' = false ∧ Decimal.isSpace ')' = false := by decide
  cases hbracket : isBracket c with
  | false => rfl
  | true =>
      rcases Bool.or_eq_true_iff.mp hbracket with h | h
      · rw [of_decide_eq_true h, hbrackets.1] at hc
        cases hc
      · rw [of_decide_eq_true h, hbrackets.2] at hc
        cases hc

/-- White space, a bracket and white space. -/
theorem separatorAt_some {m : List Char} (h : separatorAt text = some m) :
    ∃ before b after rest, m = before ++ b :: after ∧ text = m ++ rest ∧ isBracket b = true ∧
      (∀ c ∈ before, Decimal.isSpace c = true) ∧ ∀ c ∈ after, Decimal.isSpace c = true := by
  unfold separatorAt at h
  have hsplit := List.takeWhile_append_dropWhile (p := Decimal.isSpace) (l := text)
  cases hdrop : text.dropWhile Decimal.isSpace with
  | nil =>
      rw [hdrop] at h
      cases h
  | cons b rest =>
      rw [hdrop] at h hsplit
      by_cases hb : isBracket b = true
      · simp only [if_pos hb, Option.some.injEq] at h
        refine ⟨_, b, rest.takeWhile Decimal.isSpace, rest.dropWhile Decimal.isSpace, h.symm, ?_, hb,
          fun c hc => List.mem_takeWhile_imp hc, fun c hc => List.mem_takeWhile_imp hc⟩
        rw [← h, List.append_assoc, List.cons_append, List.takeWhile_append_dropWhile, hsplit]
      · simp [hb] at h

theorem separatorAt_bracket (hc : isBracket c = true) : separatorAt (c :: rest) ≠ none := by
  have hspace : Decimal.isSpace c = false := by
    cases hspace : Decimal.isSpace c with
    | false => rfl
    | true =>
        rw [not_isBracket_of_isSpace hspace] at hc
        cases hc
  simp [separatorAt, hspace, hc]

/-- A separator ends a piece; the pieces after it are those of the rest. -/
theorem separatorAt_cut {m piece : List Char} (h : separatorAt text = some m)
    (hpiece : ∀ c ∈ piece, isBracket c = false) :
    ∃ rest, text = m ++ rest ∧ m ≠ [] ∧ Plain m ∧
      ∃ ns, counts (piece ++ text) = (digitsOf piece).length :: ns ∧ ∀ n ∈ counts rest, n ∈ ns := by
  obtain ⟨before, b, after, rest, rfl, rfl, hb, hbefore, hafter⟩ := separatorAt_some h
  have hplain : ∀ l : List Char, (∀ c ∈ l, Decimal.isSpace c = true) → Plain l := fun l hl c hc =>
    not_isDecimal_of_isSpace (hl c hc)
  have hfree : ∀ c ∈ piece ++ before, isBracket c = false := fun c hc =>
    (List.mem_append.mp hc).elim (hpiece c) fun hc => not_isBracket_of_isSpace (hbefore c hc)
  refine ⟨rest, rfl, by simp, fun c hc => ?_, counts (after ++ rest), ?_, fun n hn =>
    mem_counts_append_left (hplain after hafter) hn⟩
  · rcases List.mem_append.mp hc with hc | hc
    · exact hplain before hbefore c hc
    · rcases List.mem_cons.mp hc with rfl | hc
      · exact not_isDecimal_of_isBracket hb
      · exact hplain after hafter c hc
  · rw [List.append_assoc, List.cons_append, ← List.append_assoc, counts_append hfree, counts_bracket hb,
      digitsOf_append, digitsOf_plain (hplain before hbefore), List.append_nil]
    rfl

/-- What `re.split` cuts out has the digits of a piece between brackets. -/
theorem split_counts {p piece : List Char} {skip : Nat} (hpiece : ∀ c ∈ piece, isBracket c = false)
    (hp : p ∈ Scan.split separatorAt piece skip text) :
    (digitsOf p).length = 0 ∨ (digitsOf p).length ∈ counts (piece ++ text.drop skip) := by
  induction text generalizing piece skip with
  | nil =>
      have hone : counts (piece ++ []) = [(digitsOf piece).length + 0] := counts_append hpiece []
      obtain rfl : p = piece := by
        cases skip <;> exact List.mem_singleton.mp hp
      rw [List.drop_nil, hone]
      exact Or.inr List.mem_cons_self
  | cons c cs ih =>
      cases skip with
      | succ skip => exact ih hpiece hp
      | zero =>
          rw [Scan.split] at hp
          cases hsep : separatorAt (c :: cs) with
          | none =>
              -- no cut: `c` goes on the piece
              rw [hsep] at hp
              have hc : isBracket c = false := Bool.eq_false_iff.mpr fun hc => separatorAt_bracket hc hsep
              have hlonger : ∀ c' ∈ piece ++ [c], isBracket c' = false := fun c' hc' =>
                (List.mem_append.mp hc').elim (hpiece c') fun hc' => List.mem_singleton.mp hc' ▸ hc
              have hnext : (digitsOf p).length = 0 ∨ (digitsOf p).length ∈ counts (piece ++ [c] ++ cs.drop 0) :=
                ih hlonger hp
              rwa [List.drop_zero, List.append_assoc] at hnext
          | some m =>
              -- a cut: the piece, the separator, and what is cut out of the rest
              rw [hsep] at hp
              obtain ⟨rest, htext, hne, hplain, ns, hcounts, hns⟩ := separatorAt_cut hsep hpiece
              rw [List.drop_zero, hcounts]
              rcases List.mem_cons.mp hp with rfl | hp
              · exact Or.inr List.mem_cons_self
              · rcases List.mem_cons.mp hp with rfl | hp
                · rw [digitsOf_plain hplain]
                  exact Or.inl rfl
                · have hdrop : cs.drop (m.length - 1) = rest := by
                    have htail : (c :: cs).drop m.length = rest := by rw [htext, List.drop_left]
                    rwa [← Nat.succ_pred_eq_of_pos (List.length_pos_of_ne_nil hne), List.drop_succ_cons] at htail
                  rcases ih (fun c hc => by cases hc) hp with hzero | hmem
                  · exact Or.inl hzero
                  · rw [List.nil_append, hdrop] at hmem
                    exact Or.inr (List.mem_cons_of_mem _ (hns _ hmem))

/-! ## Stretches of a text -/

/-- The stretches of digits, white space, dashes and brackets, as long as they go. -/
def stretches (text : List Char) : List (List Char) := text.splitOnP fun c => !isPhoneChar c

/-- The digits of a stretch are masked: it has as many as one number, or its pieces between brackets do. -/
def FineStretch (run : List Char) : Prop :=
  ((digitsOf run).length ≤ 15 → Whole (digitsOf run).length) ∧
    (15 < (digitsOf run).length → ∀ n ∈ counts run, Whole n)

def Fine (text : List Char) : Prop := ∀ run ∈ stretches text, FineStretch run

/-- A match in a stretch: what is before its first digit, and what is after its last one. -/
theorem exists_core {run : List Char} (h : digitsOf run ≠ []) :
    ∃ pre d body post, run = pre ++ (d :: (body ++ post)) ∧ Plain pre ∧ Plain post ∧ Decimal.isDecimal d = true ∧
      body = (body ++ post).rdropWhile fun c => !Decimal.isDecimal c := by
  have hsplit := List.takeWhile_append_dropWhile (p := fun c => !Decimal.isDecimal c) (l := run)
  have hpre : Plain (run.takeWhile fun c => !Decimal.isDecimal c) := fun c hc => by
    simpa using List.mem_takeWhile_imp hc
  cases hdrop : run.dropWhile (fun c => !Decimal.isDecimal c) with
  | nil =>
      rw [hdrop, List.append_nil] at hsplit
      exact absurd (digitsOf_plain (hsplit ▸ hpre)) h
  | cons d tail =>
      have hd : Decimal.isDecimal d = true := by
        have hhead := List.head_dropWhile_not (fun c => !Decimal.isDecimal c) (l := run) (by rw [hdrop]; simp)
        simpa [hdrop] using hhead
      have htail := List.rdropWhile_append_rtakeWhile (p := fun c => !Decimal.isDecimal c) (l := tail)
      refine ⟨_, d, tail.rdropWhile fun c => !Decimal.isDecimal c, tail.rtakeWhile fun c => !Decimal.isDecimal c,
        ?_, hpre, fun c hc => ?_, hd, ?_⟩
      · rw [htail, ← hdrop, hsplit]
      · simpa using List.mem_rtakeWhile_imp hc
      · rw [htail]

theorem digitsOf_core {pre post : List Char} (hpre : Plain pre) (hpost : Plain post) (d : Char) (body : List Char) :
    digitsOf (pre ++ (d :: (body ++ post))) = digitsOf (d :: body) := by
  rw [← List.cons_append, digitsOf_append, digitsOf_append, digitsOf_plain hpre, digitsOf_plain hpost,
    List.append_nil, List.nil_append]

/-- **A match is masked.** The match of a fine stretch, with or without a plus sign. -/
theorem repl_masked {plus pre post body : List Char} (hplus : plus = [] ∨ plus = ['+']) (hpre : Plain pre)
    (hpost : Plain post) (hfine : FineStretch (pre ++ (d :: (body ++ post)))) :
    Masked (repl (plus ++ d :: body)) := by
  have hdigits : digitsOf (plus ++ d :: body) = digitsOf (pre ++ (d :: (body ++ post))) := by
    rw [digitsOf_core hpre hpost, digitsOf_append]
    rcases hplus with rfl | rfl
    · rfl
    · have hsign : Plain ['+'] := by decide
      rw [digitsOf_plain hsign]
      rfl
  have hcounts : counts (plus ++ d :: body) = counts (d :: body) := by
    rcases hplus with rfl | rfl
    · rfl
    · exact counts_plain_cons (by decide) (by decide) _
  unfold repl
  split
  · rename_i hle
    rw [hdigits] at hle
    exact one_masked (hdigits ▸ hfine.1 hle)
  · -- too long for one number: every part is masked by itself
    rename_i hlong
    rw [hdigits] at hlong
    refine masked_flatMap fun p hp => one_masked ?_
    rcases split_counts (fun c hc => by cases hc) hp with hzero | hmem
    · exact Or.inl hzero
    · obtain ⟨k, hk⟩ := counts_append_right hpost (d :: body)
      rw [List.nil_append, List.drop_zero, hcounts] at hmem
      have hrun : (digitsOf p).length ∈ counts (d :: (body ++ post)) := by
        rw [← List.cons_append, hk]
        exact List.mem_append_left _ hmem
      exact hfine.2 (Nat.not_le.mp hlong) _ (mem_counts_append_left hpre hrun)

/-- A fine stretch with digits has a match. -/
theorem numberAt_core {body post rest : List Char} (hd : Decimal.isDecimal d = true)
    (hrun : ∀ c ∈ body ++ post, isPhoneChar c = true) (hrest : rest.takeWhile isPhoneChar = [])
    (hbody : body = (body ++ post).rdropWhile fun c => !Decimal.isDecimal c)
    (hlong : 10 ≤ (digitsOf (d :: body)).length) :
    numberAt (d :: (body ++ (post ++ rest))) = some (d :: body) := by
  have hupTo : upToDigit (body ++ (post ++ rest)) = body := by
    rw [← List.append_assoc, upToDigit_append hrun (by rw [hrest]; exact fun c hc => by cases hc), ← hbody]
  have hlen : 9 ≤ body.length := by
    have hle : (digitsOf (d :: body)).length ≤ (d :: body).length := List.length_filter_le _ _
    rw [List.length_cons] at hle
    omega
  rw [numberAt, hupTo, if_pos ⟨hd, hlen⟩]

theorem sub_plain {p : List Char} (hp : Plain p) (hchars : ∀ c ∈ p, isPhoneChar c = true) (text : List Char) :
    Scan.sub phoneAt repl 0 (p ++ text) = p ++ Scan.sub phoneAt repl 0 text := by
  refine Scan.sub_pass fun c hc cs => phoneAt_other ?_ (hp c hc)
  rintro rfl
  have hchar := hchars _ hc
  rw [plus_not_phoneChar] at hchar
  cases hchar

/-- The match of a stretch is replaced, with the plus sign before it. -/
theorem sub_core {plus body post rest : List Char} (hplus : plus = [] ∨ plus = ['+'])
    (hd : Decimal.isDecimal d = true) (hrun : ∀ c ∈ body ++ post, isPhoneChar c = true) (hpost : Plain post)
    (hrest : rest.takeWhile isPhoneChar = [])
    (hbody : body = (body ++ post).rdropWhile fun c => !Decimal.isDecimal c)
    (hlong : 10 ≤ (digitsOf (d :: body)).length) :
    Scan.sub phoneAt repl 0 (plus ++ (d :: (body ++ (post ++ rest)))) =
      repl (plus ++ d :: body) ++ (post ++ Scan.sub phoneAt repl 0 rest) := by
  have hnumber := numberAt_core hd hrun hrest hbody hlong
  have hfound : phoneAt ((plus ++ d :: body) ++ (post ++ rest)) = some (plus ++ d :: body) := by
    rcases hplus with rfl | rfl
    · exact (phoneAt_number hd).trans hnumber
    · exact (phoneAt_plus _).trans (congrArg (Option.map _) hnumber)
  have hassoc : plus ++ (d :: (body ++ (post ++ rest))) = (plus ++ d :: body) ++ (post ++ rest) := by simp
  rw [hassoc, Scan.sub_some hfound (by simp),
    sub_plain hpost fun c hc => hrun c (List.mem_append_right _ hc)]

theorem fine_cut {run rest : List Char} {x : Char} (hrun : ∀ c ∈ run, isPhoneChar c = true)
    (hx : isPhoneChar x = false) (h : Fine (run ++ x :: rest)) : FineStretch run ∧ Fine rest := by
  have hcut : stretches (run ++ x :: rest) = run :: stretches rest :=
    List.splitOnP_append_cons_of_forall_mem (fun c hc => by rw [hrun c hc]; rfl) x (by rw [hx]; rfl) rest
  unfold Fine at h
  rw [hcut] at h
  exact ⟨h run List.mem_cons_self, fun run' hrun' => h run' (List.mem_cons_of_mem run hrun')⟩

/-- A stretch of a fine text at the front of what follows it. -/
theorem sub_stretch {run rest plus : List Char} (hplus : plus = [] ∨ plus = ['+'])
    (hrun : ∀ c ∈ run, isPhoneChar c = true) (hfine : FineStretch run) (hrest : rest.takeWhile isPhoneChar = [])
    (hhead : ∀ c cs, rest = c :: cs → Decimal.isDecimal c = false) (h : Masked (Scan.sub phoneAt repl 0 rest)) :
    Masked (Scan.sub phoneAt repl 0 (plus ++ (run ++ rest))) := by
  -- without digits in front the plus sign starts no match
  have hbefore : ∀ text, numberAt text = none → Masked (Scan.sub phoneAt repl 0 text) →
      Masked (Scan.sub phoneAt repl 0 (plus ++ text)) := by
    intro text hnone htext
    rcases hplus with rfl | rfl
    · exact htext
    · rw [List.singleton_append, Scan.sub_none (phoneAt_plus_none hnone)]
      exact .other (by decide) htext
  by_cases hdigits : digitsOf run = []
  · have hplain := plain_of_digitsOf hdigits
    refine hbefore _ ?_ ?_
    · cases run with
      | nil =>
          cases rest with
          | nil => rfl
          | cons c cs => exact numberAt_other (hhead c cs rfl)
      | cons c run => exact numberAt_other (hplain c List.mem_cons_self)
    · rw [sub_plain hplain hrun]
      exact masked_append (masked_plain hplain) h
  · obtain ⟨pre, d, body, post, rfl, hpre, hpost, hd, hbody⟩ := exists_core hdigits
    have hlong : 10 ≤ (digitsOf (d :: body)).length := by
      rw [← digitsOf_core hpre hpost]
      by_contra hshort
      rcases hfine.1 (by omega) with hzero | hphone
      · exact hdigits (List.length_eq_zero_iff.mp hzero)
      · exact hshort hphone.1
    have hpreChars : ∀ c ∈ pre, isPhoneChar c = true := fun c hc => hrun c (List.mem_append_left _ hc)
    have htailChars : ∀ c ∈ body ++ post, isPhoneChar c = true := fun c hc =>
      hrun c (List.mem_append_right _ (List.mem_cons_of_mem d hc))
    have hmatch : ∀ plus : List Char, plus = [] ∨ plus = ['+'] →
        Masked (Scan.sub phoneAt repl 0 (plus ++ (d :: (body ++ (post ++ rest))))) := by
      intro plus hplus
      rw [sub_core hplus hd htailChars hpost hrest hbody hlong]
      exact masked_append (repl_masked hplus hpre hpost hfine) (masked_append (masked_plain hpost) h)
    have hrunRest : pre ++ (d :: (body ++ post)) ++ rest = pre ++ (d :: (body ++ (post ++ rest))) := by simp
    rw [hrunRest]
    cases pre with
    | nil => exact hmatch plus hplus
    | cons c pre =>
        refine hbefore _ (numberAt_other (hpre c List.mem_cons_self)) ?_
        rw [sub_plain hpre hpreChars]
        exact masked_append (masked_plain hpre) (hmatch [] (Or.inl rfl))

/-- **Masked whole.** A fine text has no digits left but those of masks. -/
theorem masked_of_fine (h : Fine text) : Masked (maskPhonesInText text) := by
  -- one stretch after the other; a plus sign in front of a stretch belongs to its match
  have hall : ∀ n, ∀ text : List Char, text.length ≤ n → Fine text → ∀ plus : List Char, plus = [] ∨ plus = ['+'] →
      Masked (Scan.sub phoneAt repl 0 (plus ++ text)) := by
    intro n
    induction n with
    | zero =>
        intro text hlen _ plus hplus
        obtain rfl : text = [] := List.length_eq_zero_iff.mp (Nat.le_zero.mp hlen)
        rcases hplus with rfl | rfl
        · exact .nil
        · exact .other (by decide) .nil
    | succ n ih =>
        intro text hlen hfine plus hplus
        have hsplit := List.takeWhile_append_dropWhile (p := isPhoneChar) (l := text)
        have hchars : ∀ c ∈ text.takeWhile isPhoneChar, isPhoneChar c = true := fun c hc => List.mem_takeWhile_imp hc
        cases hdrop : text.dropWhile isPhoneChar with
        | nil =>
            -- the stretch goes to the end
            rw [hdrop, List.append_nil] at hsplit
            have hstretch : FineStretch text := hfine text (by
              have hone : stretches text = [text] :=
                List.splitOnP_eq_singleton fun c hc => by rw [hchars c (hsplit.symm ▸ hc)]; rfl
              rw [hone]
              exact List.mem_singleton.mpr rfl)
            have hend : Masked (Scan.sub phoneAt repl 0 (plus ++ (text ++ []))) :=
              sub_stretch hplus (hsplit ▸ hchars) hstretch rfl (by simp) .nil
            rwa [List.append_nil] at hend
        | cons x rest =>
            have hx : isPhoneChar x = false := by
              have hhead := List.head_dropWhile_not isPhoneChar (l := text) (by rw [hdrop]; simp)
              simpa [hdrop] using hhead
            rw [hdrop] at hsplit
            have hxdigit : Decimal.isDecimal x = false := by
              cases hdec : Decimal.isDecimal x with
              | false => rfl
              | true =>
                  rw [isPhoneChar_of_isDecimal hdec] at hx
                  cases hx
            obtain ⟨hstretch, hfineRest⟩ := fine_cut hchars hx (hsplit.symm ▸ hfine)
            have hshorter : rest.length ≤ n := by
              have htotal := congrArg List.length hsplit
              rw [List.length_append, List.length_cons] at htotal
              omega
            have hrest : Masked (Scan.sub phoneAt repl 0 (x :: rest)) := by
              -- the sign goes to the next round, another character is passed over
              by_cases hplus : x = '+'
              · exact hplus ▸ ih rest hshorter hfineRest ['+'] (Or.inr rfl)
              · rw [Scan.sub_none (phoneAt_other hplus hxdigit)]
                exact .other hxdigit (ih rest hshorter hfineRest [] (Or.inl rfl))
            rw [← hsplit]
            exact sub_stretch hplus hchars hstretch (by rw [List.takeWhile_cons, hx]; rfl)
              (fun c cs heq => (List.cons.inj heq).1 ▸ hxdigit) hrest
  exact hall text.length text (Nat.le_refl _) h [] (Or.inl rfl)

/-! ## Texts with numbers in them -/

/-- A part of a text: a phone number, or something without digits. -/
inductive Segment
  | number (plus : Bool) (body : List Char)
  | other (text : List Char)

def Segment.chars : Segment → List Char
  | .number plus body => if plus then '+' :: body else body
  | .other text => text

/-- A number has 10 to 15 digits, and white space, dashes and brackets. -/
def Segment.Valid : Segment → Prop
  | .number _ body =>
      (∀ c ∈ body, isPhoneChar c = true) ∧ 10 ≤ (digitsOf body).length ∧ (digitsOf body).length ≤ 15
  | .other text => Plain text

instance (s : Segment) : Decidable s.Valid :=
  match s with
  | .number _ body =>
      -- by the list, not by the type of characters, which is finite too
      have : Decidable (∀ c ∈ body, isPhoneChar c = true) := List.decidableBAll _ body
      instDecidableAnd
  | .other text => inferInstanceAs (Decidable (Plain text))

def textOf (segments : List Segment) : List Char := segments.flatMap Segment.chars

/-- In a stretch with more digits than a number has, every piece between brackets has the digits of one number or
    none. -/
def LongCut (text : List Char) : Prop :=
  ∀ run ∈ stretches text, 15 < (digitsOf run).length → ∀ n ∈ counts run, Whole n

instance (n : Nat) : Decidable (Whole n) := instDecidableOr

instance (text : List Char) : Decidable (LongCut text) := List.decidableBAll _ _

theorem stretches_cons_of_not (hc : isPhoneChar c = false) (text : List Char) :
    stretches (c :: text) = [] :: stretches text := by
  rw [stretches, List.splitOnP_cons_eq_if_modifyHead, hc]
  rfl

theorem stretches_append {run : List Char} (hrun : ∀ c ∈ run, isPhoneChar c = true) (text : List Char) :
    stretches (run ++ text) = (stretches text).modifyHead fun first => run ++ first := by
  induction run with
  | nil =>
      cases hs : stretches text with
      | nil => simp [hs]
      | cons first others => simp [hs]
  | cons c run ih =>
      have hc : ¬ (!isPhoneChar c) = true := by
        rw [hrun c List.mem_cons_self]
        exact Bool.false_ne_true
      have hrest := ih fun c' hc' => hrun c' (List.mem_cons_of_mem c hc')
      unfold stretches at hrest ⊢
      rw [List.cons_append, List.splitOnP_cons_eq_if_modifyHead, if_neg hc, hrest]
      cases List.splitOnP (fun c => !isPhoneChar c) text with
      | nil => rfl
      | cons first others => rfl

/-- No digit, or those of a number at least. -/
def Enough (run : List Char) : Prop := (digitsOf run).length = 0 ∨ 10 ≤ (digitsOf run).length

theorem enough_append {run text : List Char} (hrun : ∀ c ∈ run, isPhoneChar c = true) (henough : Enough run)
    (h : ∀ first ∈ stretches text, Enough first) : ∀ first ∈ stretches (run ++ text), Enough first := by
  rw [stretches_append hrun]
  cases hs : stretches text with
  | nil => exact fun first hfirst => by cases hfirst
  | cons first others =>
      rw [hs] at h
      intro first' hfirst'
      rcases List.mem_cons.mp hfirst' with rfl | hfirst'
      · have hfirst := h first List.mem_cons_self
        unfold Enough at *
        rw [digitsOf_append, List.length_append]
        omega
      · exact h first' (List.mem_cons_of_mem first hfirst')

theorem enough_cons (hc : isPhoneChar c = false) (h : ∀ run ∈ stretches text, Enough run) :
    ∀ run ∈ stretches (c :: text), Enough run := by
  rw [stretches_cons_of_not hc]
  intro run hrun
  rcases List.mem_cons.mp hrun with rfl | hrun
  · exact Or.inl rfl
  · exact h run hrun

theorem enough_plain_append {p : List Char} (hp : Plain p) (h : ∀ run ∈ stretches text, Enough run) :
    ∀ run ∈ stretches (p ++ text), Enough run := by
  induction p with
  | nil => exact h
  | cons c p ih =>
      have hafter := ih fun c' hc' => hp c' (List.mem_cons_of_mem c hc')
      cases hc : isPhoneChar c with
      | false => exact enough_cons hc hafter
      | true =>
          have hzero : Enough [c] := Or.inl (by simp [digitsOf, hp c List.mem_cons_self])
          have hchar : ∀ c' ∈ [c], isPhoneChar c' = true := fun c' hc' => List.mem_singleton.mp hc' ▸ hc
          show ∀ run ∈ stretches ([c] ++ (p ++ text)), Enough run
          exact enough_append hchar hzero hafter

/-- A number stands in one stretch. -/
theorem enough_textOf {segments : List Segment} (hvalid : ∀ s ∈ segments, s.Valid) :
    ∀ run ∈ stretches (textOf segments), Enough run := by
  induction segments with
  | nil =>
      intro run hrun
      rw [List.mem_singleton.mp hrun]
      exact Or.inl rfl
  | cons s segments ih =>
      have hs := hvalid s List.mem_cons_self
      have hrest := ih fun s' hs' => hvalid s' (List.mem_cons_of_mem s hs')
      unfold textOf at hrest ⊢
      rw [List.flatMap_cons]
      cases s with
      | number plus body =>
          have hbody := enough_append hs.1 (Or.inr hs.2.1) hrest
          cases plus with
          | false => exact hbody
          | true => exact enough_cons plus_not_phoneChar hbody
      | other text => exact enough_plain_append hs hrest

theorem fine_textOf {segments : List Segment} (hvalid : ∀ s ∈ segments, s.Valid) (hlong : LongCut (textOf segments)) :
    Fine (textOf segments) := by
  refine fun run hrun => ⟨fun hle => ?_, hlong run hrun⟩
  rcases enough_textOf hvalid run hrun with hzero | henough
  · exact Or.inl hzero
  · exact Or.inr ⟨henough, hle⟩

/-! ## Long stretches -/

theorem split_of_no_bracket {piece : List Char} (h : ∀ c ∈ text, isBracket c = false) :
    Scan.split separatorAt piece 0 text = [piece ++ text] := by
  induction text generalizing piece with
  | nil => rw [List.append_nil]; rfl
  | cons c text ih =>
      have hnone : separatorAt (c :: text) = none := by
        cases hsep : separatorAt (c :: text) with
        | none => rfl
        | some m =>
            obtain ⟨before, b, after, rest, rfl, htext, hb, -⟩ := separatorAt_some hsep
            have hmem : b ∈ c :: text := htext ▸ List.mem_append_left _ (List.mem_append_right _ List.mem_cons_self)
            rw [h b hmem] at hb
            cases hb
      rw [Scan.split, hnone]
      simp only
      rw [ih fun c' hc' => h c' (List.mem_cons_of_mem c hc'), List.append_assoc]
      rfl

/-- A stretch without brackets that is too long for a number stays. -/
theorem mask_of_long {run : List Char} (hrun : ∀ c ∈ run, isPhoneChar c = true ∧ isBracket c = false)
    (hlong : 15 < (digitsOf run).length) : maskPhonesInText run = run := by
  have hdigits : digitsOf run ≠ [] := List.ne_nil_of_length_pos (by omega)
  obtain ⟨pre, d, body, post, rfl, hpre, hpost, hd, hbody⟩ := exists_core hdigits
  rw [digitsOf_core hpre hpost] at hlong
  have hstay : repl (d :: body) = d :: body := by
    have hfree : ∀ c ∈ d :: body, isBracket c = false := fun c hc =>
      (hrun c (List.mem_append_right _ (by
        rw [← List.cons_append]
        exact List.mem_append_left _ hc))).2
    have hone : one (d :: body) = d :: body := if_neg (by omega)
    rw [repl, if_neg (by omega), split_of_no_bracket hfree]
    simp [hone]
  have htailChars : ∀ c ∈ body ++ post, isPhoneChar c = true := fun c hc =>
    (hrun c (List.mem_append_right _ (List.mem_cons_of_mem d hc))).1
  have hcore : Scan.sub phoneAt repl 0 ([] ++ (d :: (body ++ (post ++ [])))) =
      repl ([] ++ d :: body) ++ (post ++ Scan.sub phoneAt repl 0 []) :=
    sub_core (Or.inl rfl) hd htailChars hpost rfl hbody (by omega)
  rw [List.append_nil, List.nil_append, List.nil_append, hstay, Scan.sub_nil, List.append_nil] at hcore
  unfold maskPhonesInText
  rw [sub_plain hpre fun c hc => (hrun c (List.mem_append_left _ hc)).1, hcore]
  rfl

/-- **Masked numbers.** In a text of phone numbers and of other things without digits, whose long stretches have the
    digits of one number or none in every piece between brackets, no number can be read after masking, and masking
    again changes nothing. A stretch without brackets that is too long for a number is taken for an id and stays. -/
theorem phones_masked :
    (∀ segments : List Segment, (∀ s ∈ segments, s.Valid) → LongCut (textOf segments) →
      (∀ plus body, .number plus body ∈ segments →
        ¬ (Segment.number plus body).chars <:+: maskPhonesInText (textOf segments)) ∧
      maskPhonesInText (maskPhonesInText (textOf segments)) = maskPhonesInText (textOf segments)) ∧
    ∀ run : List Char, (∀ c ∈ run, isPhoneChar c = true ∧ isBracket c = false) → 15 < (digitsOf run).length →
      maskPhonesInText run = run := by
  refine ⟨fun segments hvalid hlong => ?_, fun run hrun hdigits => mask_of_long hrun hdigits⟩
  have hmasked := masked_of_fine (fine_textOf hvalid hlong)
  refine ⟨fun plus body hmem hwithin => ?_, mask_of_masked hmasked⟩
  obtain ⟨hchars, hten, -⟩ := hvalid _ hmem
  have hbody : body <:+: (Segment.number plus body).chars := by
    cases plus with
    | false => exact List.infix_rfl
    | true => exact (List.suffix_cons '+' body).isInfix
  have hfour := digitsOf_infix hmasked hchars (hbody.trans hwithin)
  omega

/-- A number, and the same in brackets. -/
theorem phones_masked_in_a_row :
    ¬ "+7 927 897-59-56".toList <:+: maskPhonesInText "for +7 927 897-59-56 (79278975956)".toList := by
  have h := phones_masked.1 [.other "for ".toList, .number true "7 927 897-59-56".toList, .other " (".toList,
    .number false "79278975956".toList, .other ")".toList] (by decide +kernel) (by decide +kernel)
  exact h.1 true "7 927 897-59-56".toList (by simp)

/-- Two numbers with a space between them are taken for an id. -/
theorem two_numbers_stay : ¬ ∀ segments : List Segment, (∀ s ∈ segments, s.Valid) →
    (∀ plus body, .number plus body ∈ segments →
      ¬ (Segment.number plus body).chars <:+: maskPhonesInText (textOf segments)) ∧
    maskPhonesInText (maskPhonesInText (textOf segments)) = maskPhonesInText (textOf segments) := by
  intro h
  have hread := (h [.number false "79278975956".toList, .other [' '], .number false "79278975957".toList]
    (by decide +kernel)).1 false "79278975956".toList (by simp)
  refine hread ?_
  have hstay : maskPhonesInText "79278975956 79278975957".toList = "79278975956 79278975957".toList := by
    decide +kernel
  exact hstay ▸ ⟨[], " 79278975957".toList, rfl⟩

end MyPerson.Phone
