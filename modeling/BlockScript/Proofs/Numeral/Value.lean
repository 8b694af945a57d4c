import BlockScript.Numeral.Decimal
import Mathlib.Algebra.Order.Field.Power
import Mathlib.Algebra.Order.Field.Rat
import Mathlib.Data.Rat.Cast.Order
import Mathlib.Tactic.Linarith
import Mathlib.Tactic.Ring
/-!
# The numbers that decimals denote

A decimal denotes a rational number. Different decimals may denote the same one: a decimal can be
written over a smaller exponent with zeros behind its digits, and a zero over any exponent and with
either sign.

## Main definitions

* `Decimal.value` — the number denoted

## Main results

* `Decimal.value_eq_scaledTo` — the coefficient over a smaller exponent denotes the same number
* `Decimal.order_eq_compare` — decimals compare as the numbers do that they denote
-/

namespace BlockScript.Decimal

/-- The number denoted by a decimal. -/
def value (a : Decimal) : ℚ :=
  a.signed * 10 ^ a.exponent

theorem ten_zpow_pos (e : ℤ) : (0 : ℚ) < 10 ^ e :=
  zpow_pos (by norm_num) e

theorem ten_zpow_ne_zero (e : ℤ) : (10 : ℚ) ^ e ≠ 0 :=
  (ten_zpow_pos e).ne'

theorem powerOfTen_cast (n : ℕ) : (powerOfTen n : ℚ) = 10 ^ n :=
  Nat.cast_pow 10 n

variable (a b : Decimal)

/-- The coefficient over a smaller exponent. -/
theorem value_eq_scaledTo {e : ℤ} (h : e ≤ a.exponent) : a.value = a.scaledTo e * 10 ^ e := by
  have hexponent : ((a.exponent - e).toNat : ℤ) + e = a.exponent := by omega
  rw [scaledTo_eq, value]
  push_cast
  rw [powerOfTen_cast, mul_assoc, ← zpow_natCast, ← zpow_add₀ (by norm_num), hexponent]

@[simp]
theorem signed_ofSigned (n e : ℤ) (zeroNegative : Bool) :
    (ofSigned n e zeroNegative).signed = n := by
  unfold ofSigned signed
  by_cases hzero : n = 0
  · simp [hzero]
  · by_cases hneg : n < 0
    · simp only [hzero, if_false, hneg, decide_true, if_true]
      omega
    · simp only [hzero, if_false, hneg, decide_false, Bool.false_eq_true]
      omega

theorem value_ofSigned (n e : ℤ) (zeroNegative : Bool) :
    (ofSigned n e zeroNegative).value = n * 10 ^ e := by
  rw [value, signed_ofSigned]
  rfl

@[simp]
theorem signed_negate : a.negate.signed = -a.signed := by
  cases hneg : a.negative <;> simp [signed, negate, hneg]

theorem value_negate : a.negate.value = -a.value := by
  rw [value, value, signed_negate, Int.cast_neg, neg_mul]
  rfl

theorem signed_eq_zero_iff : a.signed = 0 ↔ a.coefficient = 0 := by
  rw [← natAbs_signed a, Int.natAbs_eq_zero]

theorem value_eq_zero_iff : a.value = 0 ↔ a.coefficient = 0 := by
  rw [value, mul_eq_zero, or_iff_left (ten_zpow_ne_zero _), Int.cast_eq_zero, signed_eq_zero_iff]

/-- Decimals compare as the numbers do that they denote, whatever their exponents are. -/
theorem order_eq_compare : a.order b = compare a.value b.value := by
  have hmono : StrictMono fun n : ℤ => (n : ℚ) * 10 ^ min a.exponent b.exponent := fun m n h =>
    mul_lt_mul_of_pos_right (Int.cast_lt.mpr h) (ten_zpow_pos _)
  rw [order_eq, value_eq_scaledTo a (min_le_left _ b.exponent),
    value_eq_scaledTo b (min_le_right a.exponent _), ← cmp_eq_compare, ← cmp_eq_compare]
  exact (hmono.cmp_map_eq _ _).symm

end BlockScript.Decimal
