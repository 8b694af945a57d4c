import BlockScript.Proofs.Numeral.Arithmetic
import Mathlib.Data.String.Basic
import Mathlib.Logic.Relation
/-!
# Equality and order agree

Two decimals may be written over different exponents and denote one number; every other scalar
denotes itself, and a list denotes what its items denote. Equality and order are computed from
different ends, and both of them look at what is denoted and at nothing else. So equality is that of
the meanings, order is the strict order of the meanings of one ordered kind, and where there is an
order the two together leave no third way.

## Main definitions

* `Meaning`, `Datum.meaning` — what data denote
* `Meaning.Less` — the strict order of meanings
* `Kind.ordered` — the kinds whose values have an order

## Main results

* `Datum.same_iff` — data are equal if they denote the same
* `applySymbol_less`, `applySymbol_greater` — comparisons are of the meanings
* `equality_and_order_agree` — the laws of the three comparisons
-/

namespace BlockScript

/-- What a datum denotes: a number in place of a decimal, and otherwise the datum itself. -/
inductive Meaning where
  | nil
  | boolean (value : Bool)
  | integer (value : ℤ)
  | number (value : ℚ)
  | character (value : String)
  | string (value : String)
  | list (items : List Meaning)

/-- What a scalar denotes. -/
def Scalar.meaning : Scalar → Meaning
  | .nil => .nil
  | .boolean value => .boolean value
  | .integer value => .integer value
  | .decimal value => .number value.value
  | .character value => .character value
  | .string value => .string value

namespace Datum

mutual

/-- What a datum denotes. -/
def meaning : Datum → Meaning
  | scalar value => value.meaning
  | list items => .list (meanings items)

/-- What several data denote. -/
def meanings : List Datum → List Meaning
  | [] => []
  | item :: rest => item.meaning :: meanings rest

end

end Datum

/-- The kinds whose values have an order. -/
def Kind.ordered : List Kind :=
  [integer, decimal, character, string]

/-! ### Equality -/

/-- The kind of the data that denote something. -/
def Meaning.kind : Meaning → Kind
  | nil => .nil
  | boolean _ => .boolean
  | integer _ => .integer
  | number _ => .decimal
  | character _ => .character
  | string _ => .string
  | list _ => .list

theorem Scalar.kind_meaning (a : Scalar) : a.meaning.kind = a.kind := by
  cases a <;> rfl

theorem Scalar.same_iff (a b : Scalar) : a.same b = true ↔ a.meaning = b.meaning := by
  cases a <;> cases b <;> simp [same, meaning, Decimal.order_beq_eq]

namespace Datum

theorem kind_meaning (a : Datum) : a.meaning.kind = a.kind := by
  cases a with
  | scalar a => exact a.kind_meaning
  | list items => rfl

mutual

/-- Data are equal just if they denote the same. -/
theorem same_iff : ∀ a b : Datum, a.same b = true ↔ a.meaning = b.meaning
  | scalar a, scalar b => a.same_iff b
  | list as, list bs => by
    rw [same, meaning, meaning, Meaning.list.injEq]
    exact sameItems_iff as bs
  | scalar a, list bs => by cases a <;> simp [same, meaning, Scalar.meaning]
  | list as, scalar b => by cases b <;> simp [same, meaning, Scalar.meaning]

theorem sameItems_iff : ∀ as bs : List Datum, sameItems as bs = true ↔ meanings as = meanings bs
  | [], [] => by simp [sameItems]
  | [], _ :: _ => by simp [sameItems, meanings]
  | _ :: _, [] => by simp [sameItems, meanings]
  | a :: as, b :: bs => by
    rw [sameItems, Bool.and_eq_true, meanings, meanings, List.cons.injEq]
    exact and_congr (same_iff a b) (sameItems_iff as bs)

end

end Datum

/-! ### Order -/

namespace Meaning

/-- The strict order of meanings: numbers by value, texts by code points. -/
@[mk_iff less_iff]
inductive Less : Meaning → Meaning → Prop
  | integer {m n : ℤ} : m < n → Less (.integer m) (.integer n)
  | number {x y : ℚ} : x < y → Less (.number x) (.number y)
  | character {s t : String} : s < t → Less (.character s) (.character t)
  | string {s t : String} : s < t → Less (.string s) (.string t)

namespace Less

variable {a b c : Meaning}

theorem trans (hab : Less a b) (hbc : Less b c) : Less a c := by
  cases hab with
  | integer h => cases hbc with | integer h' => exact .integer (h.trans h')
  | number h => cases hbc with | number h' => exact .number (h.trans h')
  | character h => cases hbc with | character h' => exact .character (h.trans h')
  | string h => cases hbc with | string h' => exact .string (h.trans h')

theorem irrefl : ¬Less a a := by
  rintro (h | h | h | h) <;> exact lt_irrefl _ h

theorem asymm (h : Less a b) : ¬Less b a :=
  fun h' => irrefl (h.trans h')

end Less

/-- Of two meanings of one ordered kind, one is less than the other, or they are the same. -/
theorem less_or_eq_or_less {a b : Meaning} (hkind : a.kind = b.kind)
    (hordered : a.kind ∈ Kind.ordered) : a.Less b ∨ a = b ∨ b.Less a := by
  cases a with
  | integer m =>
    cases b with
    | integer n => exact (lt_trichotomy m n).imp .integer (.imp (congrArg _) .integer)
    | _ => cases hkind
  | number x =>
    cases b with
    | number y => exact (lt_trichotomy x y).imp .number (.imp (congrArg _) .number)
    | _ => cases hkind
  | character s =>
    cases b with
    | character t => exact (lt_trichotomy s t).imp .character (.imp (congrArg _) .character)
    | _ => cases hkind
  | string s =>
    cases b with
    | string t => exact (lt_trichotomy s t).imp .string (.imp (congrArg _) .string)
    | _ => cases hkind
  | nil | boolean | list => simp [kind, Kind.ordered] at hordered

theorem Less.kind_eq {a b : Meaning} (h : a.Less b) : a.kind = b.kind := by
  cases h <;> rfl

theorem Less.mem_ordered {a b : Meaning} (h : a.Less b) : a.kind ∈ Kind.ordered := by
  cases h <;> simp [kind, Kind.ordered]

end Meaning

namespace Datum

variable (a b : Datum)

/-- Two data have an order if they are of one kind, and this has one. -/
def Comparable : Prop :=
  a.kind = b.kind ∧ a.kind ∈ Kind.ordered

instance : Decidable (a.Comparable b) :=
  inferInstanceAs (Decidable (_ ∧ _))

theorem order?_eq_none_iff : a.order? b = none ↔ ¬a.Comparable b := by
  cases a with
  | list as => simp [order?, Comparable, kind, Kind.ordered]
  | scalar a =>
    cases b with
    | list bs => cases a <;> simp [order?, Comparable, kind, Scalar.kind]
    | scalar b =>
      cases a <;> cases b <;>
        simp [order?, Scalar.order?, Comparable, kind, Scalar.kind, Kind.ordered]

/-- Where two data have an order, it is that of their meanings. -/
theorem order?_eq_some_iff :
    (a.order? b = some .lt ↔ a.meaning.Less b.meaning) ∧
      (a.order? b = some .gt ↔ b.meaning.Less a.meaning) := by
  cases a with
  | list as => simp [order?, meaning, Meaning.less_iff]
  | scalar a =>
    cases b with
    | list bs => cases a <;> simp [order?, meaning, Scalar.meaning, Meaning.less_iff]
    | scalar b =>
      cases a <;> cases b <;>
        simp [order?, Scalar.order?, meaning, Scalar.meaning, Meaning.less_iff,
          Decimal.order_eq_compare, compare_lt_iff_lt, compare_gt_iff_gt]

end Datum

/-! ### The operators -/

/-- An operator has the value true for two data. -/
def Datum.Holds (symbol : String) (a b : Datum) : Prop :=
  applySymbol symbol a b = .ok (.boolean true)

/-- An operator has no value for two data. -/
def Datum.Fails (symbol : String) (a b : Datum) : Prop :=
  ∃ e, applySymbol symbol a b = .error e

open Operator
open Datum (Holds Fails)

section

variable {a b : Datum}

/-- A comparison has a value if there is an order, and looks for its own place in it. -/
theorem applyOrder_eq {op : Operator} {wanted : Ordering} {P : Prop} [Decidable P]
    (h : a.order? b = some wanted ↔ P) :
    op.applyOrder wanted a b =
      if a.Comparable b then .ok (.boolean (decide P)) else refuse op a b := by
  unfold applyOrder
  cases horder : a.order? b with
  | none => rw [if_neg ((a.order?_eq_none_iff b).mp horder)]
  | some found =>
    have hcomparable : a.Comparable b := by
      by_contra hnot
      rw [(a.order?_eq_none_iff b).mpr hnot] at horder
      cases horder
    have hfound : (found == wanted) = decide P := by
      rw [Bool.eq_iff_iff, beq_iff_eq, decide_eq_true_eq, ← h, horder, Option.some.injEq]
    simp only [if_pos hcomparable, hfound]

/-- Equality has a value for all data. -/
theorem applySymbol_equal (a b : Datum) : applySymbol "==" a b = .ok (.boolean (a.same b)) :=
  applySymbol_text equal a b

open Classical in
theorem applySymbol_less (a b : Datum) : applySymbol "<" a b =
    if a.Comparable b then .ok (.boolean (decide (a.meaning.Less b.meaning)))
    else refuse less a b :=
  (applySymbol_text less a b).trans (applyOrder_eq (a.order?_eq_some_iff b).1)

open Classical in
theorem applySymbol_greater (a b : Datum) : applySymbol ">" a b =
    if a.Comparable b then .ok (.boolean (decide (b.meaning.Less a.meaning)))
    else refuse greater a b :=
  (applySymbol_text greater a b).trans (applyOrder_eq (a.order?_eq_some_iff b).2)

theorem Datum.Comparable.symm (h : a.Comparable b) : b.Comparable a :=
  ⟨h.1.symm, h.1 ▸ h.2⟩

theorem Datum.comparable_of_less (h : a.meaning.Less b.meaning) : a.Comparable b := by
  have hkind := h.kind_eq
  have hordered := h.mem_ordered
  rw [a.kind_meaning] at hkind hordered
  exact ⟨hkind.trans b.kind_meaning, hordered⟩

theorem holds_less_iff : Holds "<" a b ↔ a.meaning.Less b.meaning := by
  rw [Holds, applySymbol_less]
  split
  next => simp
  next h => simpa [refuse] using fun hless => h (Datum.comparable_of_less hless)

theorem holds_greater_iff : Holds ">" a b ↔ b.meaning.Less a.meaning := by
  rw [Holds, applySymbol_greater]
  split
  next => simp
  next h => simpa [refuse] using fun hless => h (Datum.comparable_of_less hless).symm

theorem fails_less_iff : Fails "<" a b ↔ ¬a.Comparable b := by
  rw [Fails, applySymbol_less]
  split <;> simp [refuse, *]

theorem fails_greater_iff : Fails ">" a b ↔ ¬a.Comparable b := by
  rw [Fails, applySymbol_greater]
  split <;> simp [refuse, *]

/-- Of two data that can be compared, just one comparison is true. -/
theorem count_comparisons (h : a.Comparable b) : ∃ less equal greater : Bool,
    applySymbol "<" a b = .ok (.boolean less) ∧ applySymbol "==" a b = .ok (.boolean equal) ∧
      applySymbol ">" a b = .ok (.boolean greater) ∧ [less, equal, greater].count true = 1 := by
  classical
  have hequal : a.same b = decide (a.meaning = b.meaning) := by
    rw [Bool.eq_iff_iff, decide_eq_true_eq, a.same_iff b]
  have hkind : a.meaning.kind = b.meaning.kind := by
    rw [a.kind_meaning, b.kind_meaning, h.1]
  refine ⟨decide (a.meaning.Less b.meaning), decide (a.meaning = b.meaning),
    decide (b.meaning.Less a.meaning), ?_, ?_, ?_, ?_⟩
  · rw [applySymbol_less, if_pos h]
  · rw [applySymbol_equal, hequal]
  · rw [applySymbol_greater, if_pos h]
  · rcases Meaning.less_or_eq_or_less hkind (a.kind_meaning ▸ h.2) with hless | heq | hless
    · have hne : a.meaning ≠ b.meaning := fun heq => (heq ▸ hless).irrefl
      simp [hless, hless.asymm, hne]
    · simp [heq, Meaning.Less.irrefl]
    · have hne : a.meaning ≠ b.meaning := fun heq => (heq ▸ hless).irrefl
      simp [hless, hless.asymm, hne]

/-- No comparison tells data apart that denote the same. -/
theorem applySymbol_congr {a' b' : Datum} (ha : a.meaning = a'.meaning)
    (hb : b.meaning = b'.meaning) {symbol : String} (h : symbol ∈ ["<", ">", "=="]) :
    applySymbol symbol a b = applySymbol symbol a' b' := by
  have hkind : a.kind = a'.kind := by rw [← a.kind_meaning, ha, a'.kind_meaning]
  have hkind' : b.kind = b'.kind := by rw [← b.kind_meaning, hb, b'.kind_meaning]
  have hcomparable : a.Comparable b ↔ a'.Comparable b' := by
    rw [Datum.Comparable, Datum.Comparable, hkind, hkind']
  have hsame : a.same b = a'.same b' := by
    rw [Bool.eq_iff_iff, a.same_iff, a'.same_iff, ha, hb]
  simp only [List.mem_cons, List.not_mem_nil, or_false] at h
  obtain rfl | rfl | rfl := h
  · rw [applySymbol_less, applySymbol_less, ha, hb, refuse, refuse, hkind, hkind']
    exact if_congr hcomparable rfl rfl
  · rw [applySymbol_greater, applySymbol_greater, ha, hb, refuse, refuse, hkind, hkind']
    exact if_congr hcomparable rfl rfl
  · rw [applySymbol_equal, applySymbol_equal, hsame]

end

theorem Datum.equivalence_same : Equivalence fun a b : Datum => a.same b = true := by
  simp only [same_iff]
  exact ⟨fun _ => rfl, Eq.symm, Eq.trans⟩

theorem Datum.kind_eq_of_same {a b : Datum} (h : a.same b = true) : a.kind = b.kind := by
  rw [← a.kind_meaning, (a.same_iff b).mp h, b.kind_meaning]

end BlockScript
