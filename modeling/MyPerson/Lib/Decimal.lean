import Mathlib.Algebra.Group.Nat.Defs
import Mathlib.Data.List.Basic

/-!
# `Lib.Decimal` — whole numbers as text

The decimal digits and the white space of Unicode, and the texts that stand for whole numbers. `isWhole` is a minus
sign, if any, and digits; `read` is what a looser grammar makes of a text: decimal digits of any script, either sign,
single underscores between digits, white space around. Python's `int` is `parse`, which reads texts of at most 4300
digits, and its `str` is `str`, which writes numbers of at most 4300 digits.

## Contents
- `digitValue`, `isDecimal`, `isSpace`;
- `value`, `digits`, `isWhole`, `read`;
- `maxStrDigits`, `parse`, `isShort`, `str`;
- `read_of_isWhole`, `isWhole_toString`, `parse_toString`.
-/

namespace Lib.Decimal

/-! ## Characters -/

/-- The zeros of the decimal digits of Unicode 15; the nine digits after each zero follow it. -/
def zeros : List Nat :=
  [0x30, 0x660, 0x6f0, 0x7c0, 0x966, 0x9e6, 0xa66, 0xae6, 0xb66, 0xbe6, 0xc66, 0xce6, 0xd66, 0xde6, 0xe50, 0xed0,
    0xf20, 0x1040, 0x1090, 0x17e0, 0x1810, 0x1946, 0x19d0, 0x1a80, 0x1a90, 0x1b50, 0x1bb0, 0x1c40, 0x1c50, 0xa620,
    0xa8d0, 0xa900, 0xa9d0, 0xa9f0, 0xaa50, 0xabf0, 0xff10, 0x104a0, 0x10d30, 0x11066, 0x110f0, 0x11136, 0x111d0,
    0x112f0, 0x11450, 0x114d0, 0x11650, 0x116c0, 0x11730, 0x118e0, 0x11950, 0x11c50, 0x11d50, 0x11da0, 0x11f50,
    0x16a60, 0x16ac0, 0x16b50, 0x1d7ce, 0x1d7d8, 0x1d7e2, 0x1d7ec, 0x1d7f6, 0x1e140, 0x1e2f0, 0x1e4f0, 0x1e950,
    0x1fbf0]

/-- The value of a decimal digit. -/
def digitValue (c : Char) : Option Nat :=
  (zeros.find? fun z => z ≤ c.toNat && c.toNat < z + 10).map fun z => c.toNat - z

def isDecimal (c : Char) : Bool := (digitValue c).isSome

/-- The code points of white space. -/
def spaces : List Nat :=
  [9, 10, 11, 12, 13, 0x1c, 0x1d, 0x1e, 0x1f, 0x20, 0x85, 0xa0, 0x1680, 0x2000, 0x2001, 0x2002, 0x2003, 0x2004,
    0x2005, 0x2006, 0x2007, 0x2008, 0x2009, 0x200a, 0x2028, 0x2029, 0x202f, 0x205f, 0x3000]

/-- `str.isspace` of a character. -/
def isSpace (c : Char) : Bool := spaces.contains c.toNat

theorem digitValue_of_isDigit {c : Char} (h : c.isDigit) : digitValue c = some (c.toNat - 0x30) := by
  have hbounds : 0x30 ≤ c.toNat ∧ c.toNat < 0x30 + 10 := by
    simp only [Char.isDigit, Bool.and_eq_true, decide_eq_true_eq, UInt32.le_iff_toNat_le] at h
    exact ⟨h.1, Nat.lt_succ_of_le h.2⟩
  unfold digitValue zeros
  rw [List.find?_cons_of_pos (by simpa using hbounds)]
  rfl

theorem isDecimal_of_isDigit {c : Char} (h : c.isDigit) : isDecimal c := by
  rw [isDecimal, digitValue_of_isDigit h]
  rfl

theorem isDecimal_iff {c : Char} : isDecimal c ↔ ∃ d, digitValue c = some d := Option.isSome_iff_exists

theorem isSpace_of_isDecimal {c : Char} (h : isDecimal c) : isSpace c = false := by
  have hapart : ∀ z ∈ zeros, ∀ k < 10, spaces.contains (z + k) = false := by decide +kernel
  obtain ⟨d, hd⟩ := isDecimal_iff.mp h
  obtain ⟨z, hfind, -⟩ := Option.map_eq_some_iff.mp hd
  have hz : z ≤ c.toNat ∧ c.toNat < z + 10 := by simpa using List.find?_some hfind
  have hcode := hapart z (List.mem_of_find?_eq_some hfind) (c.toNat - z) (by omega)
  rwa [Nat.add_sub_of_le hz.1] at hcode

/-! ## Digits -/

/-- The number that digits add to, after those that make `n`. -/
def valueFrom (n : Nat) (cs : List Char) : Nat := cs.foldl (fun n c => 10 * n + (digitValue c).getD 0) n

/-- The number of a list of digits. -/
def value (cs : List Char) : Nat := valueFrom 0 cs

/-- Digits with single underscores between them; `afterDigit` when the last character read was a digit. -/
def digits (afterDigit : Bool) (n : Nat) : List Char → Option Nat
  | [] => if afterDigit then some n else none
  | c :: cs =>
      match digitValue c with
      | some d => digits true (10 * n + d) cs
      | none => if c = '_' && afterDigit then digits false n cs else none

theorem digits_of_decimal {n : Nat} {cs : List Char} (h : ∀ c ∈ cs, isDecimal c) :
    digits true n cs = some (valueFrom n cs) := by
  induction cs generalizing n with
  | nil => rfl
  | cons c cs ih =>
      obtain ⟨d, hd⟩ := isDecimal_iff.mp (h c List.mem_cons_self)
      unfold digits valueFrom
      rw [hd, List.foldl_cons, hd]
      exact ih fun c' hc' => h c' (List.mem_cons_of_mem c hc')

theorem digits_of_decimal_ne_nil {cs : List Char} (hne : cs ≠ []) (h : ∀ c ∈ cs, isDecimal c) :
    digits false 0 cs = some (value cs) := by
  obtain ⟨c, cs, rfl⟩ := List.exists_cons_of_ne_nil hne
  obtain ⟨d, hd⟩ := isDecimal_iff.mp (h c List.mem_cons_self)
  unfold digits value valueFrom
  rw [hd, List.foldl_cons, hd]
  exact digits_of_decimal fun c' hc' => h c' (List.mem_cons_of_mem c hc')

/-! ## Numbers -/

/-- A minus sign, if any, and digits: the regular expression `-?d+`. -/
def isWhole (digit : Char → Bool) : List Char → Bool
  | [] => false
  | c :: cs => if c = '-' then !cs.isEmpty && cs.all digit else (c :: cs).all digit

/-- The number that such a text stands for. -/
def wholeValue : List Char → Int
  | [] => 0
  | c :: cs => if c = '-' then -(value cs : Int) else value (c :: cs)

/-- White space that `int` takes around a number: the separators 0x1c to 0x1f are not among it. -/
def isMargin (c : Char) : Bool := isSpace c && !(0x1c ≤ c.toNat && c.toNat ≤ 0x1f)

def strip (cs : List Char) : List Char := ((cs.dropWhile isMargin).reverse.dropWhile isMargin).reverse

/-- The number of a text, `none` when it is no number. -/
def read (s : String) : Option Int :=
  match strip s.toList with
  | [] => none
  | c :: cs =>
      if c = '-' then (digits false 0 cs).map fun n : Nat => -(n : Int)
      else if c = '+' then (digits false 0 cs).map Int.ofNat
      else (digits false 0 (c :: cs)).map Int.ofNat

theorem strip_eq {cs : List Char} (h : ∀ c ∈ cs, isMargin c = false) : strip cs = cs := by
  have hdrop : ∀ cs : List Char, (∀ c ∈ cs, isMargin c = false) → cs.dropWhile isMargin = cs := by
    intro cs h
    cases cs with
    | nil => rfl
    | cons c cs => rw [List.dropWhile_cons, h c List.mem_cons_self, if_neg Bool.false_ne_true]
  unfold strip
  rw [hdrop cs h, hdrop cs.reverse fun c hc => h c (List.mem_reverse.mp hc), List.reverse_reverse]

theorem isMargin_of_isDecimal {c : Char} (h : isDecimal c) : isMargin c = false := by
  rw [isMargin, isSpace_of_isDecimal h, Bool.false_and]

/-- **Whole numbers.** What the expression `-?\d+` matches is read as its number. -/
theorem read_of_isWhole {s : String} (h : isWhole isDecimal s.toList) : read s = some (wholeValue s.toList) := by
  have hminus : isMargin '-' = false := by decide
  have hplus : ¬ isDecimal '+' := by decide
  unfold read
  generalize s.toList = cs at h ⊢
  cases cs with
  | nil => cases h
  | cons c cs =>
      simp only [isWhole] at h
      simp only [wholeValue]
      split at h
      · -- a minus sign, and digits
        rename_i hc
        obtain ⟨hne, hall⟩ := Bool.and_eq_true_iff.mp h
        have hdec : ∀ c' ∈ cs, isDecimal c' := List.all_eq_true.mp hall
        have hstrip : strip (c :: cs) = c :: cs := by
          refine strip_eq fun c' hc' => ?_
          rcases List.mem_cons.mp hc' with rfl | hc'
          · exact hc ▸ hminus
          · exact isMargin_of_isDecimal (hdec c' hc')
        rw [hstrip]
        simp only [hc, if_true]
        rw [digits_of_decimal_ne_nil (by simpa using hne) hdec]
        rfl
      · rename_i hc
        have hdec : ∀ c' ∈ c :: cs, isDecimal c' := List.all_eq_true.mp h
        have hc' : c ≠ '+' := by
          rintro rfl
          exact hplus (hdec _ List.mem_cons_self)
        rw [strip_eq fun c' hc' => isMargin_of_isDecimal (hdec c' hc')]
        simp only [hc, hc', if_false]
        rw [digits_of_decimal_ne_nil (List.cons_ne_nil c cs) hdec]
        rfl

theorem isWhole_mono {digit digit' : Char → Bool} (h : ∀ c, digit c = true → digit' c = true) {cs : List Char}
    (hwhole : isWhole digit cs) : isWhole digit' cs := by
  have hall : ∀ cs : List Char, cs.all digit = true → cs.all digit' = true := fun cs hcs =>
    List.all_eq_true.mpr fun c hc => h c (List.all_eq_true.mp hcs c hc)
  cases cs with
  | nil => cases hwhole
  | cons c cs =>
      simp only [isWhole] at hwhole ⊢
      split
      · rename_i hc
        rw [if_pos hc] at hwhole
        obtain ⟨hne, hcs⟩ := Bool.and_eq_true_iff.mp hwhole
        exact Bool.and_eq_true_iff.mpr ⟨hne, hall cs hcs⟩
      · rename_i hc
        rw [if_neg hc] at hwhole
        exact hall (c :: cs) hwhole

/-! ## Decimal strings -/

theorem value_toDigits (n : Nat) : value (Nat.toDigits 10 n) = n := by
  have hfold : ∀ (cs : List Char) (m : Nat), (∀ c ∈ cs, c.isDigit) →
      valueFrom m cs = Nat.ofDigitChars 10 cs m := by
    intro cs
    induction cs with
    | nil => exact fun m _ => rfl
    | cons c cs ih =>
        intro m h
        unfold valueFrom
        rw [List.foldl_cons, digitValue_of_isDigit (h c List.mem_cons_self), Nat.ofDigitChars_cons]
        exact ih _ fun c' hc' => h c' (List.mem_cons_of_mem c hc')
  have hdigit : ∀ c ∈ Nat.toDigits 10 n, c.isDigit := fun c hc =>
    Nat.isDigit_of_mem_toDigits (by decide) (by decide) hc
  exact (hfold _ 0 hdigit).trans Nat.ofDigitChars_ten_toDigits

theorem toList_toString (n : Int) :
    (toString n).toList = if n < 0 then '-' :: Nat.toDigits 10 n.natAbs else Nat.toDigits 10 n.natAbs := by
  cases n with
  | ofNat m =>
      have hnot : ¬ Int.ofNat m < 0 := Int.not_lt.mpr (Int.natCast_nonneg m)
      rw [if_neg hnot]
      exact Nat.toList_repr
  | negSucc m =>
      rw [if_pos (Int.negSucc_lt_zero m)]
      have happend : (toString (Int.negSucc m)).toList = "-".toList ++ (Nat.succ m).repr.toList :=
        String.toList_append
      rw [happend, Nat.toList_repr]
      rfl

/-- The digits of a number: at least one, and the first is no sign. -/
theorem toDigits_cons (n : Nat) :
    ∃ c cs, Nat.toDigits 10 n = c :: cs ∧ c ≠ '-' ∧ ∀ c' ∈ c :: cs, isDecimal c' := by
  obtain ⟨c, cs, heq⟩ := List.exists_cons_of_ne_nil (Nat.toDigits_ne_nil (n := n) (b := 10))
  have hdec : ∀ c' ∈ c :: cs, isDecimal c' := fun c' hc' =>
    isDecimal_of_isDigit (Nat.isDigit_of_mem_toDigits (by decide) (by decide) (heq ▸ hc'))
  refine ⟨c, cs, heq, ?_, hdec⟩
  rintro rfl
  have hminus : ¬ isDecimal '-' := by decide
  exact hminus (hdec _ List.mem_cons_self)

theorem isWhole_toString (n : Int) : isWhole isDecimal (toString n).toList := by
  obtain ⟨c, cs, heq, hc, hdec⟩ := toDigits_cons n.natAbs
  have hall : (c :: cs).all isDecimal = true := List.all_eq_true.mpr hdec
  rw [toList_toString, heq]
  split
  · simp only [isWhole, if_true]
    exact Bool.and_eq_true_iff.mpr ⟨rfl, hall⟩
  · simp only [isWhole, hc, if_false]
    exact hall

theorem wholeValue_toString (n : Int) : wholeValue (toString n).toList = n := by
  obtain ⟨c, cs, heq, hc, -⟩ := toDigits_cons n.natAbs
  have hvalue : value (c :: cs) = n.natAbs := heq ▸ value_toDigits n.natAbs
  rw [toList_toString, heq]
  split
  · simp only [wholeValue, if_true, hvalue]
    omega
  · simp only [wholeValue, hc, if_false, hvalue]
    omega

/-- **Round trip.** The decimal string of a number is read as that number. -/
theorem read_toString (n : Int) : read (toString n) = some n :=
  (read_of_isWhole (isWhole_toString n)).trans (congrArg some (wholeValue_toString n))

/-! ## The limit of Python -/

/-- `sys.int_info.default_max_str_digits`. -/
def maxStrDigits : Nat := 4300

/-- The digits of a text; signs, underscores and white space do not count. -/
def digitCount (cs : List Char) : Nat := cs.countP isDecimal

/-- Python's `int` of a text, `none` when it raises. -/
def parse (s : String) : Option Int := if digitCount s.toList ≤ maxStrDigits then read s else none

/-- A number that Python writes. -/
def isShort (n : Int) : Bool := (Nat.toDigits 10 n.natAbs).length ≤ maxStrDigits

/-- Python's `str` of a number, `none` when it raises. -/
def str (n : Int) : Option String := if isShort n then some (toString n) else none

theorem isShort_iff {n : Int} : isShort n = true ↔ n.natAbs < 10 ^ maxStrDigits := by
  have hpos : 0 < maxStrDigits := by decide
  rw [isShort, decide_eq_true_iff]
  exact Nat.length_toDigits_le_iff (by decide) hpos

theorem str_eq_some {n : Int} {s : String} : str n = some s ↔ isShort n = true ∧ toString n = s := by
  rw [str, Option.ite_none_right_eq_some, Option.some.injEq]

theorem read_of_parse {s : String} {n : Int} (h : parse s = some n) : read s = some n :=
  (Option.ite_none_right_eq_some.mp h).2

theorem digitCount_toString (n : Int) : digitCount (toString n).toList = (Nat.toDigits 10 n.natAbs).length := by
  have hminus : ¬ isDecimal '-' = true := by decide
  have hall : digitCount (Nat.toDigits 10 n.natAbs) = (Nat.toDigits 10 n.natAbs).length := by
    refine List.countP_eq_length.mpr fun c hc => ?_
    exact isDecimal_of_isDigit (Nat.isDigit_of_mem_toDigits (by decide) (by decide) hc)
  rw [toList_toString]
  split
  · rw [digitCount, List.countP_cons_of_neg hminus]
    exact hall
  · exact hall

/-- **Round trip.** What `str` writes `int` reads. -/
theorem parse_toString {n : Int} (h : isShort n = true) : parse (toString n) = some n := by
  have hcount : digitCount (toString n).toList ≤ maxStrDigits := by
    rw [digitCount_toString]
    exact of_decide_eq_true h
  rw [parse, if_pos hcount]
  exact read_toString n

end Lib.Decimal
