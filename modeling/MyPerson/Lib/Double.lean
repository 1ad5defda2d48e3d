import Mathlib.Algebra.Order.Field.Power
import Mathlib.Data.Rat.Cast.Order
import Mathlib.Tactic.Positivity
import Mathlib.Tactic.NormNum

/-!
# `Lib.Double` — doubles as readers of numbers hold them

The finite doubles are the values `m * 2 ^ e` with 53 bits of `m`. A reader that rounds to nearest holds a double that
no other is closer to; which of two equally close ones is left open. Up to `2 ^ 53` whole numbers are doubles
themselves, so a reader holds them as they are.
-/

namespace Lib

/-- The values of finite doubles. -/
def IsDouble (q : ℚ) : Prop := ∃ m e : ℤ, |m| < 2 ^ 53 ∧ -1074 ≤ e ∧ e ≤ 971 ∧ q = m * 2 ^ e

/-- A double; the two zeros are one value. -/
inductive Double
  | finite (q : ℚ) (representable : IsDouble q)
  | infinite (negative : Bool)
  | nan

namespace Double

/-- Numbers from here on are read as infinite: halfway from the largest finite double to `2 ^ 1024`. -/
def overflow : ℚ := (2 ^ 54 - 1) * 2 ^ 970

/-- What a reader that rounds to nearest may hold for a number. -/
def Reads (q : ℚ) : Double → Prop
  | .finite d _ => |q| < overflow ∧ ∀ d', IsDouble d' → |q - d| ≤ |q - d'|
  | .infinite negative => overflow ≤ |q| ∧ (negative = true ↔ q < 0)
  | .nan => False

end Double

theorem isDouble_of_le {n : ℤ} (h : |n| ≤ 2 ^ 53) : IsDouble n := by
  rcases lt_or_eq_of_le h with hlt | heq
  · exact ⟨n, 0, hlt, by norm_num, by norm_num, by simp⟩
  · -- the bound itself has one bit more, and is a power of two
    rcases abs_choice n with hn | hn
    · refine ⟨1, 53, by norm_num, by norm_num, by norm_num, ?_⟩
      rw [← hn, heq]
      norm_num
    · refine ⟨-1, 53, by norm_num, by norm_num, by norm_num, ?_⟩
      have hneg : n = -2 ^ 53 := by rw [← heq, hn, neg_neg]
      rw [hneg]
      norm_num

namespace Double

theorem int_lt_overflow {n : ℤ} (h : |n| ≤ 2 ^ 53) : |(n : ℚ)| < overflow := by
  have hcast : |(n : ℚ)| ≤ 2 ^ 53 := by exact_mod_cast h
  have hscale : (1 : ℚ) ≤ 2 ^ 970 := one_le_pow₀ (by norm_num)
  calc |(n : ℚ)| ≤ 2 ^ 53 := hcast
    _ < (2 ^ 54 - 1) * 1 := by norm_num
    _ ≤ overflow := mul_le_mul_of_nonneg_left hscale (by norm_num)

/-- A double is read as itself. -/
theorem finite_reads {q : ℚ} (hdouble : IsDouble q) (hsmall : |q| < overflow) : (finite q hdouble).Reads q := by
  refine ⟨hsmall, fun d' _ => ?_⟩
  rw [sub_self, abs_zero]
  exact abs_nonneg _

/-- **Whole numbers are read exactly.** -/
theorem reads_int {n : ℤ} {d : Double} (h : |n| ≤ 2 ^ 53) (hreads : d.Reads n) :
    ∃ representable, d = .finite n representable := by
  have hsmall : |(n : ℚ)| < overflow := int_lt_overflow h
  cases d with
  | finite d representable =>
      have hclosest := hreads.2 n (isDouble_of_le h)
      rw [sub_self, abs_zero] at hclosest
      have heq : (n : ℚ) - d = 0 := abs_eq_zero.mp (le_antisymm hclosest (abs_nonneg _))
      obtain rfl : d = n := (sub_eq_zero.mp heq).symm
      exact ⟨representable, rfl⟩
  | infinite negative => exact absurd hsmall (not_lt.mpr hreads.1)
  | nan => exact absurd hreads id

end Double

end Lib
