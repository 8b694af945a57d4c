import BlockScript.Proofs.Numeral.Arithmetic
import Mathlib.Algebra.Group.Int.Even
import Mathlib.Tactic.FieldSimp
/-!
# Division of decimals is correctly rounded

A quotient has the exponent of the dividend, so it is a multiple of a power of ten. It is the
multiple nearest to the quotient of the numbers, or, if two of them are equally near, the one with
the even coefficient. There is exactly one such multiple, and it depends on the divisor by the
number that the divisor denotes only.

## Main definitions

* `IsNearestEven` — the integer nearest to a number, a tie going to the even one

## Main results

* `isNearestEven_roundHalfEven` — the quotient of natural numbers is rounded to the nearest
* `IsNearestEven.unique` — there is one nearest integer only
* `division_is_correctly_rounded` — the quotient of decimals
-/

namespace BlockScript

/-- The integer `n` is nearest to `x`. If another one is equally near, `n` is the even one. -/
def IsNearestEven (x : ℚ) (n : ℤ) : Prop :=
  |n - x| ≤ 1 / 2 ∧ (|n - x| = 1 / 2 → Even n)

namespace IsNearestEven

variable {x : ℚ} {m n : ℤ}

theorem neg (h : IsNearestEven x n) : IsNearestEven (-x) (-n) := by
  have habs : |((-n : ℤ) : ℚ) - -x| = |(n : ℚ) - x| := by
    push_cast
    rw [neg_sub_neg, abs_sub_comm]
  exact ⟨habs ▸ h.1, fun htie => (h.2 (habs ▸ htie)).neg⟩

/-- Two integers that are nearest to a number are at most one apart. If they are, both are at the
distance of a tie, and one of them is odd. -/
theorem unique (hm : IsNearestEven x m) (hn : IsNearestEven x n) : m = n := by
  obtain ⟨hmlow, hmhigh⟩ := abs_le.mp hm.1
  obtain ⟨hnlow, hnhigh⟩ := abs_le.mp hn.1
  have hclose : ∀ {m n : ℤ}, m < n → (m : ℚ) + 1 ≤ n := fun h => by exact_mod_cast h
  have hodd : ∀ {m n : ℤ}, Even m → Even n → (n : ℚ) = m + 1 → False := by
    intro m n hm hn hnext
    have hnext : n = m + 1 := by exact_mod_cast hnext
    exact Int.not_even_iff_odd.mpr (hnext ▸ hm.add_one) hn
  rcases lt_trichotomy m n with hlt | heq | hgt
  · have hle := hclose hlt
    have htie : |(m : ℚ) - x| = 1 / 2 := by rw [abs_of_nonpos] <;> linarith
    have htie' : |(n : ℚ) - x| = 1 / 2 := by rw [abs_of_nonneg] <;> linarith
    exact (hodd (hm.2 htie) (hn.2 htie') (by linarith)).elim
  · exact heq
  · have hle := hclose hgt
    have htie : |(m : ℚ) - x| = 1 / 2 := by rw [abs_of_nonneg] <;> linarith
    have htie' : |(n : ℚ) - x| = 1 / 2 := by rw [abs_of_nonpos] <;> linarith
    exact (hodd (hn.2 htie') (hm.2 htie) (by linarith)).elim

/-- The nearest integer, put over a power of ten, is the nearest multiple of it. -/
theorem iff_multiple (y : ℚ) (e n : ℤ) : IsNearestEven (y / 10 ^ e) n ↔
    |n * 10 ^ e - y| ≤ 10 ^ e / 2 ∧ (|n * 10 ^ e - y| = 10 ^ e / 2 → Even n) := by
  have hpos := Decimal.ten_zpow_pos e
  have hscale : |(n : ℚ) * 10 ^ e - y| = |n - y / 10 ^ e| * 10 ^ e := by
    rw [← abs_of_pos hpos, ← abs_mul, abs_of_pos hpos, sub_mul, div_mul_cancel₀ _ hpos.ne']
  rw [hscale, div_eq_inv_mul (10 ^ e : ℚ) 2, ← one_div, mul_le_mul_iff_left₀ hpos,
    mul_left_inj' hpos.ne']
  rfl

end IsNearestEven

/-- The quotient of natural numbers is rounded to the nearest one. What decides is the fraction left
over by the division. -/
theorem isNearestEven_roundHalfEven (n : ℕ) {d : ℕ} (hd : 0 < d) :
    IsNearestEven (n / d) (roundHalfEven n d) := by
  have hpos : (0 : ℚ) < d := by exact_mod_cast hd
  -- the fraction that is left over, between zero and one
  obtain ⟨f, hf⟩ : ∃ f : ℚ, f = ((n % d : ℕ) : ℚ) / d := ⟨_, rfl⟩
  have hsplit : (n : ℚ) / d = (n / d : ℕ) + f := by
    rw [hf, eq_comm, add_div' _ _ _ hpos.ne', div_left_inj' hpos.ne']
    exact_mod_cast Nat.div_add_mod' n d
  have hnonneg : 0 ≤ f := hf ▸ div_nonneg (Nat.cast_nonneg _) hpos.le
  have hone : f ≤ 1 := by
    rw [hf, div_le_one₀ hpos]
    exact_mod_cast (Nat.mod_lt n hd).le
  have hlow : 2 * (n % d) < d ↔ f < 1 / 2 := by
    rw [hf, div_lt_div_iff₀ hpos two_pos, one_mul, mul_comm]
    norm_cast
  have hhigh : d < 2 * (n % d) ↔ 1 / 2 < f := by
    rw [hf, div_lt_div_iff₀ two_pos hpos, one_mul, mul_comm]
    norm_cast
  have hdown : |((n / d : ℕ) : ℚ) - n / d| = f := by
    rw [hsplit, sub_add_cancel_left, abs_neg, abs_of_nonneg hnonneg]
  have hup : |((n / d + 1 : ℕ) : ℚ) - n / d| = 1 - f := by
    rw [hsplit, Nat.cast_succ, add_sub_add_left_eq_sub, abs_of_nonneg (sub_nonneg.mpr hone)]
  -- the four cases: below a half, above it, and ties over an even and an odd quotient
  unfold IsNearestEven roundHalfEven
  simp only [hlow, hhigh, Int.cast_natCast, Int.even_coe_nat]
  split_ifs with hless hmore heven
  · rw [hdown]
    exact ⟨hless.le, fun htie => absurd htie hless.ne⟩
  · rw [hup]
    exact ⟨by linarith, fun htie => by linarith⟩
  · rw [hdown]
    exact ⟨not_lt.mp hmore, fun _ => Nat.even_iff.mpr heven⟩
  · rw [hup]
    exact ⟨by linarith, fun _ => Nat.even_add_one.mpr fun h => heven (Nat.even_iff.mp h)⟩

/-! ### Decimals -/

namespace Decimal

variable {a b : Decimal}

/-- A decimal is known by its exponent and its signed coefficient, if a zero has no sign. -/
theorem eq_of_signed {a b : Decimal} (hexponent : a.exponent = b.exponent)
    (hsigned : a.signed = b.signed) (ha : a.coefficient = 0 → a.negative = false)
    (hb : b.coefficient = 0 → b.negative = false) : a = b := by
  have hcoefficient : a.coefficient = b.coefficient := by
    rw [← natAbs_signed a, hsigned, natAbs_signed]
  have hnegative : a.negative = b.negative := by
    by_cases hzero : a.coefficient = 0
    · rw [ha hzero, hb (hcoefficient ▸ hzero)]
    · unfold signed at hsigned
      rw [hcoefficient] at hsigned hzero
      cases ha : a.negative <;> cases hb : b.negative <;> simp [ha, hb] at hsigned ⊢ <;> omega
  cases a
  cases b
  simp only [mk.injEq]
  exact ⟨hnegative, hcoefficient, hexponent⟩

/-- The quotient of the coefficients, the powers of ten being left out if they cancel. -/
theorem isNearestEven_quotient (n : ℕ) {d : ℕ} (hd : d ≠ 0) (e : ℤ) :
    IsNearestEven (n / (d * 10 ^ e))
      (if e < 0 then roundHalfEven (n * powerOfTen (-e).toNat) d
        else roundHalfEven n (d * powerOfTen e.toNat) : ℕ) := by
  split_ifs with hneg
  · have hpower : (10 : ℚ) ^ e = (powerOfTen (-e).toNat : ℚ)⁻¹ := by
      rw [powerOfTen_cast, ← zpow_natCast, ← zpow_neg]
      congr 1
      omega
    rw [hpower, ← div_div, div_inv_eq_mul, div_mul_eq_mul_div, ← Nat.cast_mul]
    exact isNearestEven_roundHalfEven _ (Nat.pos_of_ne_zero hd)
  · have hpower : (10 : ℚ) ^ e = powerOfTen e.toNat := by
      rw [powerOfTen_cast, ← zpow_natCast]
      congr 1
      omega
    rw [hpower, ← Nat.cast_mul]
    exact isNearestEven_roundHalfEven n (Nat.mul_pos (Nat.pos_of_ne_zero hd) (powerOfTen_pos _))

/-- The signs multiply, but a quotient that is zero has none. -/
theorem negative_divide (a b : Decimal) : (a.divide b).negative =
    (a.negative != b.negative && (a.divide b).coefficient != 0) :=
  rfl

/-- The magnitude of a quotient is the quotient of the magnitudes. -/
theorem signed_divide (a b : Decimal) :
    (a.divide b).signed =
      if a.negative = b.negative then ((a.divide b).coefficient : ℤ)
      else -((a.divide b).coefficient : ℤ) := by
  by_cases hsame : a.negative = b.negative
  · simp [signed, negative_divide, hsame]
  · by_cases hzero : (a.divide b).coefficient = 0
    · simp [signed, hzero]
    · simp [signed, negative_divide, hsame, hzero]

theorem negative_divide_of_zero {a b : Decimal} (h : (a.divide b).coefficient = 0) :
    (a.divide b).negative = false := by
  simp [negative_divide, h]

theorem isNearestEven_divide (a : Decimal) (hb : b.coefficient ≠ 0) :
    IsNearestEven (a.value / b.value / 10 ^ a.exponent) (a.divide b).signed := by
  have hcoefficient : IsNearestEven (a.coefficient / (b.coefficient * 10 ^ b.exponent))
      (a.divide b).coefficient := by
    have hquotient := isNearestEven_quotient a.coefficient hb b.exponent
    unfold divide
    exact hquotient
  have hsigned : b.signed ≠ 0 := mt b.signed_eq_zero_iff.mp hb
  -- the power of ten of the dividend cancels
  have hvalue : a.value / b.value / 10 ^ a.exponent =
      a.signed / (b.signed * 10 ^ b.exponent) := by
    rw [value, value, div_div, mul_comm (b.signed * 10 ^ b.exponent : ℚ), mul_comm (a.signed : ℚ),
      mul_div_mul_left _ _ (ten_zpow_ne_zero _)]
  rw [hvalue, signed_divide]
  -- signs can be taken out of the quotient, and rounding treats both sides of zero alike
  cases ha : a.negative <;> cases hb : b.negative <;>
    simp only [signed, ha, hb, if_true, if_false, Bool.false_eq_true, reduceCtorEq,
      Int.cast_neg, Int.cast_natCast, neg_mul, div_neg, neg_div, neg_neg]
  · exact hcoefficient
  · exact hcoefficient.neg
  · exact hcoefficient.neg
  · exact hcoefficient

/-- Any number that is rounded as the quotient is stands for the quotient. -/
theorem signed_divide_eq (a : Decimal) (hb : b.coefficient ≠ 0) {n : ℤ}
    (h : IsNearestEven (a.value / b.value / 10 ^ a.exponent) n) : (a.divide b).signed = n :=
  (isNearestEven_divide a hb).unique h

end Decimal

/-- The quotient of two decimals always exists if the divisor is not zero. It has the exponent of
the dividend and is the nearest multiple of that power of ten, with an even coefficient if two are
equally near, and without a sign if it is zero. No other multiple is, so the divisor counts by its
value only. -/
theorem division_is_correctly_rounded (a b : Decimal) (hb : b.value ≠ 0) :
    let q := a.divide b
    let half := (10 : ℚ) ^ a.exponent / 2
    applySymbol "/" a.datum b.datum = .ok (.decimal q) ∧
    q.exponent = a.exponent ∧
    |q.value - a.value / b.value| ≤ half ∧
    (|q.value - a.value / b.value| = half → Even q.coefficient) ∧
    (q.coefficient = 0 → q.negative = false) ∧
    (∀ n : ℤ, |n * 10 ^ a.exponent - a.value / b.value| ≤ half →
      (|n * 10 ^ a.exponent - a.value / b.value| = half → Even n) →
        q.value = n * 10 ^ a.exponent) ∧
    ∀ b' : Decimal, b'.value = b.value → a.divide b' = q := by
  intro q half
  have hcoefficient : b.coefficient ≠ 0 := mt b.value_eq_zero_iff.mpr hb
  have hsigned : IsNearestEven (a.value / b.value / 10 ^ a.exponent) q.signed :=
    Decimal.isNearestEven_divide a hcoefficient
  obtain ⟨hnear, htie⟩ := (IsNearestEven.iff_multiple _ _ _).mp hsigned
  refine ⟨?_, rfl, hnear, fun h => ?_, ?_, fun n hn heven => ?_, fun b' hb' => ?_⟩
  · rw [show "/" = Operator.divide.text from rfl, applySymbol_text]
    exact if_neg (by simpa [Decimal.isZero] using hcoefficient)
  · rw [← Decimal.natAbs_signed]
    exact Int.natAbs_even.mpr (htie h)
  · exact Decimal.negative_divide_of_zero
  · have hsame := Decimal.signed_divide_eq a hcoefficient
      ((IsNearestEven.iff_multiple _ _ _).mpr ⟨hn, heven⟩)
    rw [← hsame]
    rfl
  · have hcoefficient' : b'.coefficient ≠ 0 := mt b'.value_eq_zero_iff.mpr (hb' ▸ hb)
    refine Decimal.eq_of_signed rfl ?_ Decimal.negative_divide_of_zero
      Decimal.negative_divide_of_zero
    exact Decimal.signed_divide_eq a hcoefficient' (hb' ▸ hsigned)

/-- `0.5 / 2` is between `0.2` and `0.3`. -/
theorem division_is_correctly_rounded_tie :
    let a : Decimal := ⟨false, 5, -1⟩
    let b : Decimal := ⟨false, 2, 0⟩
    let q : Decimal := ⟨false, 2, -1⟩
    b.value ≠ 0 ∧ applySymbol "/" a.datum b.datum = .ok (.decimal q) ∧
      ∀ b' : Decimal, b'.value = b.value → a.divide b' = q := by
  intro a b q
  have hb : b.value ≠ 0 := mt b.value_eq_zero_iff.mp (by decide)
  have hq : a.divide b = q := by decide
  obtain ⟨happly, -, -, -, -, -, hvalue⟩ := division_is_correctly_rounded a b hb
  rw [hq] at happly hvalue
  exact ⟨hb, happly, hvalue⟩

example : Decimal.divide ⟨false, 7, -1⟩ ⟨true, 20, -1⟩ = ⟨true, 4, -1⟩ := by
  decide

end BlockScript
