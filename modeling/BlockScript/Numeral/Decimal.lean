import BlockScript.Numeral.Power
/-!
# Decimal numbers

A decimal is a sign, a coefficient and a power of ten. The three are kept apart: `1.5`, `1.50` and
`15E-1` denote one number, but the first two are written differently, and a zero has a sign.
Addition, subtraction and multiplication are exact. Division keeps the scale of the dividend and
rounds to the nearest multiple of it, a tie going to the even neighbour.

Exponents have a range. What lies below it is rounded, and a number above it is an overflow; in
between, where all decimals of ordinary size are, nothing changes. Digits in front of the point are
not limited, so only a positive exponent can overflow.

Coefficients over very different exponents are compared without writing out the zeros between them.

## Main definitions

* `Decimal` — sign, coefficient, exponent
* `Decimal.scaledTo` — the signed coefficient over a smaller exponent
* `Decimal.add`, `Decimal.sub`, `Decimal.mul` — exact arithmetic
* `Decimal.divide` — the quotient at the dividend's scale
* `Decimal.order` — comparison of the numbers denoted
* `Decimal.InRange`, `Decimal.overflows`, `Decimal.rounded` — the range of exponents
* `roundHalfEven` — the quotient of two natural numbers to the nearest, ties to even

## Main results

* `Decimal.order_eq` — comparison is that of the coefficients over a common exponent
* `Decimal.rounded_of_inRange`, `Decimal.overflows_of_inRange` — the range is left alone
* `Decimal.inRange_rounded` — what does not overflow gets into the range
-/

namespace BlockScript

/-- The number `± coefficient · 10 ^ exponent`, together with the way it is written. -/
structure Decimal where
  /-- Whether the sign is a minus; a zero may have either sign. -/
  negative : Bool
  /-- The digits without the sign, read as a natural number. -/
  coefficient : Nat
  /-- The power of ten that the coefficient is multiplied by. -/
  exponent : Int
  deriving DecidableEq, Repr, Inhabited

/-- The quotient `n / d` rounded to the nearest natural number, a tie to the even one. -/
def roundHalfEven (n d : Nat) : Nat :=
  let q := n / d
  let r := n % d
  if 2 * r < d then q
  else if d < 2 * r then q + 1
  else if q % 2 = 0 then q
  else q + 1

namespace Decimal

/-- The coefficient with the sign put on it. -/
def signed (a : Decimal) : Int :=
  if a.negative then -(a.coefficient : Int) else a.coefficient

/-- The signed coefficient that denotes the same number over the exponent `e`, for an `e` that is
at most the exponent of `a`. A zero stays one over any exponent. -/
def scaledTo (a : Decimal) (e : Int) : Int :=
  if a.coefficient = 0 then 0 else a.signed * powerOfTen (a.exponent - e).toNat

theorem scaledTo_eq (a : Decimal) (e : Int) :
    a.scaledTo e = a.signed * powerOfTen (a.exponent - e).toNat := by
  unfold scaledTo
  split
  next h => simp [signed, h]
  next => rfl

/-- The decimal with signed coefficient `n` over `e`; a zero gets the sign `zeroNegative`. -/
def ofSigned (n e : Int) (zeroNegative : Bool) : Decimal :=
  { negative := if n = 0 then zeroNegative else decide (n < 0)
    coefficient := n.natAbs
    exponent := e }

/-- The same digits under the other sign. -/
def negate (a : Decimal) : Decimal :=
  { a with negative := !a.negative }

/-- The exact sum, over the smaller exponent. A zero sum is negative only if both terms are. -/
def add (a b : Decimal) : Decimal :=
  let e := min a.exponent b.exponent
  ofSigned (a.scaledTo e + b.scaledTo e) e (a.negative && b.negative)

/-- The exact difference: the sum with the subtrahend negated. -/
def sub (a b : Decimal) : Decimal :=
  a.add b.negate

/-- The exact product: exponents add, signs multiply, also on a zero. -/
def mul (a b : Decimal) : Decimal :=
  { negative := a.negative != b.negative
    coefficient := a.coefficient * b.coefficient
    exponent := a.exponent + b.exponent }

/-- The quotient at the dividend's exponent, rounded half to even. With both exponents made
explicit, the coefficient of `a / b` over `a.exponent` is `a.coefficient / (b.coefficient · 10 ^
b.exponent)`, so the dividend's exponent does not enter. A zero quotient is positive. -/
def divide (a b : Decimal) : Decimal :=
  let q :=
    if b.exponent < 0 then
      roundHalfEven (a.coefficient * powerOfTen (-b.exponent).toNat) b.coefficient
    else roundHalfEven a.coefficient (b.coefficient * powerOfTen b.exponent.toNat)
  { negative := a.negative != b.negative && q != 0
    coefficient := q
    exponent := a.exponent }

/-- An exponent over which `a` compares with a number of coefficient `c` and exponent `e` as it does
over `e` itself: no more zeros are put behind the digits of `a` than `c` has digits. -/
def comparingExponent (a : Decimal) (c : Nat) (e : Int) : Int :=
  max e (a.exponent - digitBound c)

/-- How the two numbers compare; scale and the sign of a zero do not matter. -/
def order (a b : Decimal) : Ordering :=
  let e := min a.exponent b.exponent
  compare (a.scaledTo (a.comparingExponent b.coefficient e))
    (b.scaledTo (b.comparingExponent a.coefficient e))

/-- Whether the number is zero, of either sign and any scale. -/
def isZero (a : Decimal) : Bool :=
  a.coefficient == 0

theorem natAbs_signed (a : Decimal) : a.signed.natAbs = a.coefficient := by
  unfold signed
  split <;> simp

/-- Beyond the magnitude of `x`, further zeros behind `y` do not change how the two compare. -/
theorem compare_mul_powerOfTen {x : Int} {k d : Nat} (hx : x.natAbs < powerOfTen k) (hd : k ≤ d)
    (y : Int) : compare x (y * powerOfTen k) = compare x (y * powerOfTen d) ∧
      compare (y * powerOfTen k) x = compare (y * powerOfTen d) x := by
  have hp : powerOfTen k ≤ powerOfTen d := Nat.pow_le_pow_right (by decide) hd
  generalize powerOfTen k = p at hx hp
  generalize powerOfTen d = q at hp
  rcases Int.lt_trichotomy y 0 with h | h | h
  · have h₁ : y * p ≤ -1 * p := Int.mul_le_mul_of_nonneg_right (by omega) (by omega)
    have h₂ : y * q ≤ -1 * q := Int.mul_le_mul_of_nonneg_right (by omega) (by omega)
    generalize y * (p : Int) = s at h₁
    generalize y * (q : Int) = t at h₂
    constructor <;> simp only [compare, compareOfLessAndEq] <;> grind
  · subst h
    simp
  · have h₁ : 1 * p ≤ y * p := Int.mul_le_mul_of_nonneg_right (by omega) (by omega)
    have h₂ : 1 * q ≤ y * q := Int.mul_le_mul_of_nonneg_right (by omega) (by omega)
    generalize y * (p : Int) = s at h₁
    generalize y * (q : Int) = t at h₂
    constructor <;> simp only [compare, compareOfLessAndEq] <;> grind

/-- Comparison is that of the coefficients over the smaller exponent. -/
theorem order_eq (a b : Decimal) :
    a.order b = compare (a.scaledTo (min a.exponent b.exponent))
      (b.scaledTo (min a.exponent b.exponent)) := by
  have apart : ∀ a b : Decimal, a.exponent ≤ b.exponent →
      a.comparingExponent b.coefficient a.exponent = a.exponent ∧
      (compare (a.scaledTo a.exponent)
          (b.scaledTo (b.comparingExponent a.coefficient a.exponent)) =
        compare (a.scaledTo a.exponent) (b.scaledTo a.exponent)) ∧
      (compare (b.scaledTo (b.comparingExponent a.coefficient a.exponent))
          (a.scaledTo a.exponent) =
        compare (b.scaledTo a.exponent) (a.scaledTo a.exponent)) := by
    intro a b h
    have ha : a.scaledTo a.exponent = a.signed := by simp [scaledTo_eq, powerOfTen]
    refine ⟨by simp only [comparingExponent]; omega, ?_⟩
    by_cases hd : b.exponent - digitBound a.coefficient ≤ a.exponent
    · have : b.comparingExponent a.coefficient a.exponent = a.exponent := by
        simp only [comparingExponent]
        omega
      rw [this]
      exact ⟨rfl, rfl⟩
    · have hk : (b.exponent - b.comparingExponent a.coefficient a.exponent).toNat =
          digitBound a.coefficient := by
        simp only [comparingExponent]
        omega
      have hx : a.signed.natAbs < powerOfTen (digitBound a.coefficient) := by
        rw [natAbs_signed]
        exact lt_powerOfTen_digitBound _
      rw [ha, scaledTo_eq b, scaledTo_eq b, hk]
      exact compare_mul_powerOfTen hx (by omega) _
  unfold order
  rcases Int.le_total a.exponent b.exponent with h | h
  · obtain ⟨he, hc, _⟩ := apart a b h
    rw [Int.min_eq_left h]
    simp only [he]
    exact hc
  · obtain ⟨he, _, hc⟩ := apart b a h
    rw [Int.min_eq_right h]
    simp only [he]
    exact hc

/-! ### The range of exponents -/

/-- The least exponent that a decimal can have. -/
def leastExponent : Int :=
  -1999999999999999997

/-- The greatest power of ten that the first digit of a decimal with a positive exponent can stand
for. -/
def greatestPower : Int :=
  999999999999999999

/-- The power of ten that the first digit stands for. -/
def power (a : Decimal) : Int :=
  a.exponent + digitCount a.coefficient - 1

/-- Whether the exponent is neither too small nor, for the number of digits, too great. -/
def InRange (a : Decimal) : Prop :=
  leastExponent ≤ a.exponent ∧ (a.exponent ≤ 0 ∨ a.power ≤ greatestPower)

instance : DecidablePred InRange := fun a => by
  unfold InRange
  infer_instance

/-- Whether the number is too great. A zero is not, whatever its exponent. -/
def overflows (a : Decimal) : Bool :=
  a.coefficient != 0 && 0 < a.exponent && greatestPower < a.power

/-- The decimal at the nearest exponent of the range. A zero keeps its sign; the coefficient of
another number with too small an exponent is rounded half to even. No more digits are cut off than
the coefficient has, and one. -/
def rounded (a : Decimal) : Decimal :=
  if a.coefficient = 0 then
    { a with exponent := max leastExponent (min a.exponent greatestPower) }
  else if a.exponent < leastExponent then
    let excess := min (leastExponent - a.exponent).toNat (digitBound a.coefficient + 1)
    { a with
      coefficient := roundHalfEven a.coefficient (powerOfTen excess)
      exponent := leastExponent }
  else a

theorem overflows_of_exponent_nonpos {a : Decimal} (h : a.exponent ≤ 0) : a.overflows = false := by
  have : ¬ 0 < a.exponent := by omega
  simp [overflows, this]

theorem overflows_of_inRange {a : Decimal} (h : a.InRange) : a.overflows = false := by
  obtain ⟨_, h | h⟩ := h
  · exact overflows_of_exponent_nonpos h
  · have : ¬ greatestPower < a.power := by omega
    simp [overflows, this]

theorem rounded_of_inRange {a : Decimal} (h : a.InRange) : a.rounded = a := by
  obtain ⟨h₁, h₂⟩ := h
  unfold rounded
  split
  next hc =>
    have hp : a.power = a.exponent := by
      simp [power, hc, digitCount, Nat.toDigits_zero]
    have hg : greatestPower = 999999999999999999 := rfl
    have : max leastExponent (min a.exponent greatestPower) = a.exponent := by omega
    rw [this]
  next => rw [if_neg (by omega)]

theorem inRange_rounded {a : Decimal} (h : a.overflows = false) : a.rounded.InRange := by
  have hg : greatestPower = 999999999999999999 := rfl
  have hl : leastExponent = -1999999999999999997 := rfl
  unfold rounded
  split
  next hc =>
    refine ⟨by simp only; omega, Or.inr ?_⟩
    simp only [power, hc, digitCount, Nat.toDigits_zero, List.length_singleton]
    omega
  next hc =>
    split
    next => exact ⟨Int.le_refl _, Or.inl (by simp only; omega)⟩
    next hl =>
      refine ⟨by omega, ?_⟩
      simp [overflows, hc] at h
      omega

end Decimal

end BlockScript
