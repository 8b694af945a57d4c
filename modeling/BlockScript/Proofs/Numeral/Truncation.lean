import BlockScript.Evaluation.Operation
import Mathlib.Algebra.Order.Ring.Abs
import Mathlib.Algebra.Order.Ring.Int
import Mathlib.Tactic.Linarith
/-!
# Division of integers rounds toward zero

The quotient of two integers is that of their magnitudes, with a minus if the signs differ. What is
left of the dividend is smaller than the divisor and has the sign of the dividend, if it is not
zero, and a quotient is known by that.

## Main definitions

* `IsRemainder` — what is left by a division that rounds toward zero

## Main results

* `divideInteger_eq_tdiv` — the quotient is that of the division rounding toward zero
* `isRemainder_divideInteger`, `IsRemainder.unique` — quotients are known by their remainders
-/

namespace BlockScript

/-- A remainder of `a` in a division by `b` that rounds toward zero: it is smaller than `b`, and has
the sign of `a` if it is not zero. -/
def IsRemainder (a b r : ℤ) : Prop :=
  |r| < |b| ∧ (r = 0 ∨ r.sign = a.sign)

section

variable {a b : ℤ}

theorem divideInteger_eq_tdiv (a b : ℤ) : divideInteger a b = a.tdiv b := by
  unfold divideInteger
  obtain ⟨m, rfl | rfl⟩ := a.eq_nat_or_neg <;> obtain ⟨n, rfl | rfl⟩ := b.eq_nat_or_neg <;>
    simp only [Int.natAbs_neg, Int.natAbs_natCast, Int.neg_tdiv, Int.tdiv_neg, neg_neg,
      ← Int.ofNat_tdiv]
  -- the magnitudes are divided in all cases, and a quotient that is zero has no sign
  · rcases n.eq_zero_or_pos with rfl | hn
    · simp
    · simp [hn]
  · simp
  · rcases m.eq_zero_or_pos with rfl | hm <;> rcases n.eq_zero_or_pos with rfl | hn
    · simp
    · simp
    · simp
    · simp [hm.ne', hn]
  · rcases m.eq_zero_or_pos with rfl | hm
    · simp
    · simp [hm.ne']

/-- What the quotient leaves of the dividend. -/
theorem isRemainder_divideInteger (a : ℤ) (hb : b ≠ 0) :
    IsRemainder a b (a - divideInteger a b * b) := by
  have hrest : a - divideInteger a b * b = a.tmod b := by
    rw [Int.tmod_def, divideInteger_eq_tdiv, mul_comm]
  rw [hrest]
  constructor
  · rw [Int.abs_eq_natAbs, Int.abs_eq_natAbs, Int.natAbs_tmod]
    exact_mod_cast Nat.mod_lt _ (Int.natAbs_pos.mpr hb)
  · rw [Int.sign_tmod, ← Int.dvd_iff_tmod_eq_zero]
    split_ifs with hdvd
    · exact .inl hdvd
    · exact .inr rfl

theorem IsRemainder.nonneg {r : ℤ} (h : IsRemainder a b r) (ha : 0 ≤ a) : 0 ≤ r := by
  rcases h.2 with rfl | hsign
  · exact le_rfl
  · exact Int.sign_nonneg_iff.mp (hsign ▸ Int.sign_nonneg_iff.mpr ha)

theorem IsRemainder.nonpos {r : ℤ} (h : IsRemainder a b r) (ha : a ≤ 0) : r ≤ 0 := by
  rcases h.2 with rfl | hsign
  · exact le_rfl
  · exact Int.sign_nonpos_iff.mp (hsign ▸ Int.sign_nonpos_iff.mpr ha)

/-- Two remainders have the same sign, so they are less than the divisor apart. -/
theorem IsRemainder.abs_sub_lt {r r' : ℤ} (h : IsRemainder a b r) (h' : IsRemainder a b r') :
    |r - r'| < |b| := by
  have hside : (0 ≤ r ∧ 0 ≤ r') ∨ (r ≤ 0 ∧ r' ≤ 0) :=
    (le_total 0 a).imp (fun ha => ⟨h.nonneg ha, h'.nonneg ha⟩)
      fun ha => ⟨h.nonpos ha, h'.nonpos ha⟩
  have hsmall := abs_lt.mp h.1
  have hsmall' := abs_lt.mp h'.1
  rw [abs_lt]
  omega

/-- There is one quotient only that leaves a remainder. -/
theorem IsRemainder.unique {q q' r r' : ℤ} (h : IsRemainder a b r) (h' : IsRemainder a b r')
    (hq : a = q * b + r) (hq' : a = q' * b + r') : q = q' ∧ r = r' := by
  have hdvd : |b| ∣ r - r' := (abs_dvd b _).mpr ⟨q' - q, by linarith⟩
  have hsame : r - r' = 0 := Int.eq_zero_of_abs_lt_dvd hdvd (h.abs_sub_lt h')
  have hb : b ≠ 0 := fun hzero => absurd h.1 (by simp [hzero])
  have hproduct : q * b = q' * b := by linarith
  exact ⟨mul_right_cancel₀ hb hproduct, sub_eq_zero.mp hsame⟩

end

end BlockScript
