import BlockScript.Evaluation.Operation
import BlockScript.Proofs.Numeral.Value
/-!
# Arithmetic on decimals is exact

Sums, differences and products of decimals denote the sums, differences and products of the numbers
that the operands denote, as long as their exponents are in range, and comparisons compare these
numbers. So none of them can tell two decimals apart that denote the same number, except by the way
in which the result is written.

## Main definitions

* `Operator.exactResult?` — the result of an arithmetic operator before its exponent is limited
* `Operator.Fits` — the exponent of the result is in range
* `numericOperators` — the operators that look at the numbers denoted only

## Main results

* `Decimal.value_add`, `Decimal.value_sub`, `Decimal.value_mul` — exact arithmetic
* `decimals_compute_exactly` — the operators on decimals
-/

namespace BlockScript

namespace Decimal

variable (a b : Decimal)

theorem value_add : (a.add b).value = a.value + b.value := by
  rw [add, value_ofSigned, value_eq_scaledTo a (min_le_left _ b.exponent),
    value_eq_scaledTo b (min_le_right a.exponent _)]
  push_cast
  ring

theorem value_sub : (a.sub b).value = a.value - b.value := by
  rw [sub, value_add, value_negate, sub_eq_add_neg]

theorem signed_mul : (a.mul b).signed = a.signed * b.signed := by
  cases ha : a.negative <;> cases hb : b.negative <;> simp [signed, mul, ha, hb]

theorem value_mul : (a.mul b).value = a.value * b.value := by
  have hexponent : (10 : ℚ) ^ (a.mul b).exponent = 10 ^ a.exponent * 10 ^ b.exponent :=
    zpow_add₀ (by norm_num) _ _
  rw [value, signed_mul, hexponent, value, value]
  push_cast
  ring

/-- Two decimals are equal if they denote the same number. -/
theorem order_beq_eq : (a.order b == .eq) = decide (a.value = b.value) := by
  rw [order_eq_compare, Bool.eq_iff_iff, beq_iff_eq, decide_eq_true_eq, compare_eq_iff_eq]

theorem order_beq_lt : (a.order b == .lt) = decide (a.value < b.value) := by
  rw [order_eq_compare, Bool.eq_iff_iff, beq_iff_eq, decide_eq_true_eq, compare_lt_iff_lt]

theorem order_beq_gt : (a.order b == .gt) = decide (b.value < a.value) := by
  rw [order_eq_compare, Bool.eq_iff_iff, beq_iff_eq, decide_eq_true_eq, compare_gt_iff_gt]

end Decimal

open Operator

/-- The result of an arithmetic operator on decimals before its exponent is limited. -/
def Operator.exactResult? (a b : Decimal) : Operator → Option Decimal
  | plus => some (a.add b)
  | minus => some (a.sub b)
  | times => some (a.mul b)
  | _ => none

/-- The exponent of the result of an arithmetic operator is in range. -/
def Operator.Fits (op : Operator) (a b : Decimal) : Prop :=
  ∀ r ∈ op.exactResult? a b, r.InRange

/-- A decimal as an operand. -/
abbrev Decimal.datum (a : Decimal) : Datum :=
  .scalar (.decimal a)

theorem applySymbol_text (op : Operator) (a b : Datum) :
    applySymbol op.text a b = op.apply a b := by
  rw [applySymbol, ofText?_text]

section

variable {a b : Decimal}

theorem decimalResult_of_inRange {r : Decimal} (h : r.InRange) :
    decimalResult r = .ok (.decimal r) := by
  rw [decimalResult, Decimal.overflows_of_inRange h, Decimal.rounded_of_inRange h]
  rfl

/-- A result that fits is returned as it is. -/
theorem apply_of_exactResult? {op : Operator} {r : Decimal} (hfits : op.Fits a b)
    (hexact : op.exactResult? a b = some r) : op.apply a.datum b.datum = .ok (.decimal r) := by
  have hresult : op.apply a.datum b.datum = decimalResult r := by
    cases op with
    | plus | minus | times => cases hexact; rfl
    | _ => cases hexact
  rw [hresult, decimalResult_of_inRange (hfits r hexact)]

theorem apply_equal :
    equal.apply a.datum b.datum = .ok (.boolean (decide (a.value = b.value))) := by
  rw [← a.order_beq_eq b]
  rfl

theorem apply_unequal :
    unequal.apply a.datum b.datum = .ok (.boolean (decide (a.value ≠ b.value))) := by
  rw [decide_not, ← a.order_beq_eq b]
  rfl

theorem apply_less :
    less.apply a.datum b.datum = .ok (.boolean (decide (a.value < b.value))) := by
  rw [← a.order_beq_lt b]
  rfl

theorem apply_greater :
    greater.apply a.datum b.datum = .ok (.boolean (decide (b.value < a.value))) := by
  rw [← a.order_beq_gt b]
  rfl

/-- Decimals are the same data if they denote the same number. -/
theorem same_datum_iff : a.datum.same b.datum = true ↔ a.value = b.value := by
  have hsame : a.datum.same b.datum = (a.order b == .eq) := rfl
  rw [hsame, a.order_beq_eq b, decide_eq_true_eq]

/-- The operators that tell decimals apart by the numbers that they denote only. -/
def numericOperators : List Operator :=
  [plus, minus, times, equal, unequal, less, greater]

/-- Equal operands, whatever their scales, have equal results. -/
theorem same_apply {a' b' : Decimal} (ha : a.value = a'.value) (hb : b.value = b'.value)
    {op : Operator} (hop : op ∈ numericOperators) (hfits : op.Fits a b) (hfits' : op.Fits a' b') :
    ∃ r r' : Scalar, op.apply a.datum b.datum = .ok r ∧ op.apply a'.datum b'.datum = .ok r' ∧
      r.same r' = true := by
  have harithmetic : ∀ r r' : Decimal, op.exactResult? a b = some r →
      op.exactResult? a' b' = some r' → r.value = r'.value →
      ∃ r r' : Scalar, op.apply a.datum b.datum = .ok r ∧ op.apply a'.datum b'.datum = .ok r' ∧
        r.same r' = true := by
    intro r r' hr hr' hvalue
    exact ⟨_, _, apply_of_exactResult? hfits hr, apply_of_exactResult? hfits' hr',
      same_datum_iff.mpr hvalue⟩
  -- comparisons are of the numbers, so their results are not only equal but the same
  have hboolean : ∀ p : Bool, (Scalar.boolean p).same (.boolean p) = true := beq_self_eq_true
  cases op with
  | plus => exact harithmetic _ _ rfl rfl (by rw [a.value_add, a'.value_add, ha, hb])
  | minus => exact harithmetic _ _ rfl rfl (by rw [a.value_sub, a'.value_sub, ha, hb])
  | times => exact harithmetic _ _ rfl rfl (by rw [a.value_mul, a'.value_mul, ha, hb])
  | equal => exact ⟨_, _, apply_equal, apply_equal, by rw [ha, hb]; exact hboolean _⟩
  | unequal => exact ⟨_, _, apply_unequal, apply_unequal, by rw [ha, hb]; exact hboolean _⟩
  | less => exact ⟨_, _, apply_less, apply_less, by rw [ha, hb]; exact hboolean _⟩
  | greater => exact ⟨_, _, apply_greater, apply_greater, by rw [ha, hb]; exact hboolean _⟩
  | divide | power | and | or => simp [numericOperators] at hop

end

/-- The operators on decimals compute with the numbers denoted. Sums, differences and products whose
exponents are in range are exact, over the smaller exponent or over the sum of the exponents, and
comparisons are those of the numbers. So operands that are equal, whatever their scales, can be
replaced by each other, and the results are equal again. -/
theorem decimals_compute_exactly (a b : Decimal) :
    (plus.Fits a b → ∃ r : Decimal, applySymbol "+" a.datum b.datum = .ok (.decimal r) ∧
      r.value = a.value + b.value ∧ r.exponent = min a.exponent b.exponent) ∧
    (minus.Fits a b → ∃ r : Decimal, applySymbol "-" a.datum b.datum = .ok (.decimal r) ∧
      r.value = a.value - b.value ∧ r.exponent = min a.exponent b.exponent) ∧
    (times.Fits a b → ∃ r : Decimal, applySymbol "*" a.datum b.datum = .ok (.decimal r) ∧
      r.value = a.value * b.value ∧ r.exponent = a.exponent + b.exponent) ∧
    applySymbol "==" a.datum b.datum = .ok (.boolean (decide (a.value = b.value))) ∧
    applySymbol "!=" a.datum b.datum = .ok (.boolean (decide (a.value ≠ b.value))) ∧
    applySymbol "<" a.datum b.datum = .ok (.boolean (decide (a.value < b.value))) ∧
    applySymbol ">" a.datum b.datum = .ok (.boolean (decide (b.value < a.value))) ∧
    ∀ (a' b' : Decimal), a.datum.same a'.datum = true → b.datum.same b'.datum = true →
      ∀ op ∈ numericOperators, op.Fits a b → op.Fits a' b' → ∃ r r' : Scalar,
        applySymbol op.text a.datum b.datum = .ok r ∧
          applySymbol op.text a'.datum b'.datum = .ok r' ∧ r.same r' = true := by
  have hsymbol := fun op => applySymbol_text op a.datum b.datum
  refine ⟨fun h => ?_, fun h => ?_, fun h => ?_, ?_, ?_, ?_, ?_, ?_⟩
  · exact ⟨_, (hsymbol plus).trans (apply_of_exactResult? h rfl), a.value_add b, rfl⟩
  · exact ⟨_, (hsymbol minus).trans (apply_of_exactResult? h rfl), a.value_sub b, rfl⟩
  · exact ⟨_, (hsymbol times).trans (apply_of_exactResult? h rfl), a.value_mul b, rfl⟩
  · exact (hsymbol equal).trans apply_equal
  · exact (hsymbol unequal).trans apply_unequal
  · exact (hsymbol less).trans apply_less
  · exact (hsymbol greater).trans apply_greater
  · intro a' b' ha hb op hop hfits hfits'
    simp only [applySymbol_text]
    exact same_apply (same_datum_iff.mp ha) (same_datum_iff.mp hb) hop hfits hfits'

/-- `1.50` and `-0.25`, and `1.5` in place of `1.50`. -/
theorem decimals_compute_exactly_scaled :
    let a : Decimal := ⟨false, 150, -2⟩
    let a' : Decimal := ⟨false, 15, -1⟩
    let b : Decimal := ⟨true, 25, -2⟩
    (∃ r : Decimal, applySymbol "+" a.datum b.datum = .ok (.decimal r) ∧
      r.value = a.value + b.value ∧ r.exponent = -2) ∧
    (∃ r : Decimal, applySymbol "-" a.datum b.datum = .ok (.decimal r) ∧
      r.value = a.value - b.value ∧ r.exponent = -2) ∧
    (∃ r : Decimal, applySymbol "*" a.datum b.datum = .ok (.decimal r) ∧
      r.value = a.value * b.value ∧ r.exponent = -4) ∧
    ∃ r r' : Scalar, applySymbol "+" a.datum b.datum = .ok r ∧
      applySymbol "+" a'.datum b.datum = .ok r' ∧ r.same r' = true := by
  intro a a' b
  have hfits : ∀ {op : Operator} {a b r : Decimal}, op.exactResult? a b = some r → r.InRange →
      op.Fits a b := by
    rintro op a b r hexact hrange other hother
    cases hexact.symm.trans hother
    exact hrange
  have hvalue : a.datum.same a'.datum = true :=
    same_datum_iff.mpr (by norm_num [a, a', Decimal.value, Decimal.signed])
  obtain ⟨hplus, hminus, htimes, -, -, -, -, hsame⟩ := decimals_compute_exactly a b
  exact ⟨hplus (hfits rfl (by decide)), hminus (hfits rfl (by decide)),
    htimes (hfits rfl (by decide)),
    hsame a' b hvalue (same_datum_iff.mpr rfl) plus (by decide) (hfits rfl (by decide))
      (hfits rfl (by decide))⟩

end BlockScript
