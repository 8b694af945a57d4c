/-!
# Powers and numbers of digits

Powers of integers with natural exponents, and bounds on the number of digits of a natural number.
The powers of zero and of the two units need no multiplications, however great the exponent is.

## Main definitions

* `powerOfTen` — ten to a power
* `integerPower` — an integer to a power
* `digitCount` — the number of decimal digits
* `digitBound` — a number of digits that suffices, without counting them

## Main results

* `integerPower_eq` — the short cuts do not change the power
* `lt_powerOfTen_digitCount`, `lt_powerOfTen_digitBound` — the digits suffice
-/

namespace BlockScript

/-- Ten to a power. -/
def powerOfTen (n : Nat) : Nat :=
  Nat.pow 10 n

/-- A natural number to a power; the powers of zero and one are not computed. -/
def naturalPower (m n : Nat) : Nat :=
  if m ≤ 1 then if n = 0 then 1 else m
  else Nat.pow m n

/-- An integer to a power: the power of its magnitude, negative if the integer is negative and the
exponent is odd. -/
def integerPower (m : Int) (n : Nat) : Int :=
  if m < 0 ∧ n % 2 = 1 then -(naturalPower m.natAbs n : Int) else naturalPower m.natAbs n

/-- The number of decimal digits of a number; zero has one digit. -/
def digitCount (n : Nat) : Nat :=
  (Nat.toDigits 10 n).length

/-- A number of decimal digits that is not too small for `n`: its number of binary digits. -/
def digitBound (n : Nat) : Nat :=
  n.log2 + 1

theorem powerOfTen_pos (n : Nat) : 0 < powerOfTen n :=
  Nat.pow_pos (by decide)

theorem naturalPower_eq (m n : Nat) : naturalPower m n = Nat.pow m n := by
  unfold naturalPower
  split
  next h =>
    cases n with
    | zero => simp
    | succ n =>
      match m, h with
      | 0, _ => simp
      | 1, _ => simp
  next => rfl

theorem integerPower_eq (m : Int) (n : Nat) : integerPower m n = Int.pow m n := by
  have step : ∀ (a n : Nat), Int.pow (-(a : Int)) n =
      if n % 2 = 1 then -((Nat.pow a n : Nat) : Int) else (Nat.pow a n : Nat) := by
    intro a n
    induction n with
    | zero => exact Int.pow_zero _
    | succ n ih =>
      have hi : Int.pow (-(a : Int)) (n + 1) = Int.pow (-(a : Int)) n * -(a : Int) :=
        Int.pow_succ _ n
      have hn : Nat.pow a (n + 1) = Nat.pow a n * a := rfl
      rw [hi, ih, hn]
      by_cases h : n % 2 = 1
      · rw [if_pos h, if_neg (by omega), Int.neg_mul_neg]
        exact (Int.natCast_mul _ _).symm
      · rw [if_neg h, if_pos (by omega), Int.mul_neg]
        exact congrArg Int.neg (Int.natCast_mul _ _).symm
  unfold integerPower
  rw [naturalPower_eq]
  rcases Int.natAbs_eq m with h | h
  · have hm : ¬ m < 0 := by omega
    rw [if_neg (by simp [hm])]
    generalize m.natAbs = a at h
    subst h
    exact Int.natCast_pow a n
  · generalize m.natAbs = a at h
    subst h
    rw [step]
    by_cases ha : a = 0
    · subst ha
      by_cases hn : n % 2 = 1
      · have : n ≠ 0 := by omega
        simp [hn, Nat.zero_pow (Nat.pos_of_ne_zero this)]
      · simp [hn]
    · have : 0 < a := Nat.pos_of_ne_zero ha
      simp [this]

theorem lt_powerOfTen_digitCount (n : Nat) : n < powerOfTen (digitCount n) :=
  (Nat.length_toDigits_le_iff (by decide) Nat.length_toDigits_pos).1 (Nat.le_refl _)

theorem lt_powerOfTen_digitBound (n : Nat) : n < powerOfTen (digitBound n) :=
  Nat.lt_of_lt_of_le Nat.lt_log2_self (Nat.pow_le_pow_left (by decide) _)

end BlockScript
