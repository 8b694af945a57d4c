import BlockScript.Analysis.Operation
import BlockScript.Evaluation.World
import BlockScript.Proofs.Analysis.Yields
/-!
# Values that fit types

Nil fits every type, a list fits none, and any other value fits the types that accept its own. What
an operator computes fits its type if the operands fit theirs. An operator refuses operands only for
one of few reasons: a division by zero, a negative exponent, nil, or an order of values whose type
says only that they can be compared.

## Main definitions

* `Value.Fits` — values of a type
* `Excuse` — why an expression or a statement may refuse a value

## Main results

* `Operator.allowed_apply` — what an operator computes, and when it refuses
-/

namespace BlockScript

theorem Ty.accepts_trans {a b c : Ty} (h : Ty.accepts (some a) (some b) = true)
    (h' : Ty.accepts (some b) (some c) = true) : Ty.accepts (some a) (some c) = true := by
  by_cases hab : a = b
  · rwa [hab]
  by_cases hany : a = .any
  · rw [hany]
    exact accepts_any _
  -- what is left is an ordered type below the comparable ones, which accepts itself only
  have hordered : a = .comparable ∧ b.isOrdered = true := by
    simpa [accepts, hab, hany] using h
  have hbc : b = c := by
    cases b <;> simp_all [accepts, isOrdered]
  rwa [← hbc]

/-- The value is nil, or it is no list and the type accepts its own. -/
def Value.Fits (value : Value) (ty : Ty) : Prop :=
  value = .nil ∨
    ∃ own, Ty.ofName? value.kind.name = some own ∧ Ty.accepts (some ty) (some own) = true

namespace Value.Fits

variable {value : Value} {ty : Ty}

theorem nil : Value.nil.Fits ty :=
  .inl rfl

theorem mono {target : Ty} (h : value.Fits ty)
    (haccepts : Ty.accepts (some target) (some ty) = true) : value.Fits target := by
  rcases h with rfl | ⟨own, hown, htype⟩
  · exact nil
  · exact .inr ⟨own, hown, Ty.accepts_trans haccepts htype⟩

/-- A value that is no list is nil, or the type accepts that of a literal for the value. -/
theorem scalar_iff {scalar : Scalar} : (Value.scalar scalar).Fits ty ↔
    scalar = .nil ∨ Ty.accepts (some ty) (some scalar.ty) = true := by
  have hname : (Value.scalar scalar).kind.name = scalar.ty.name := by
    cases scalar <;> rfl
  simp [Fits, hname, Ty.ofName?_name, Value.nil]

theorem exists_scalar (h : value.Fits ty) : ∃ scalar, value = .scalar scalar := by
  cases value with
  | scalar scalar => exact ⟨scalar, rfl⟩
  | list handle =>
    rcases h with h | ⟨own, hown, -⟩
    · cases h
    -- no type has the name of lists
    · have hnone : Ty.ofName? Kind.list.name = none := by decide
      rw [Value.kind, hnone] at hown
      cases hown

/-- The values that fit a type other than the two great ones are nil and those of that type. -/
theorem ty_eq {scalar : Scalar} (h : (Value.scalar scalar).Fits ty) (hany : ty ≠ .any)
    (hcomparable : ty ≠ .comparable) : scalar = .nil ∨ scalar.ty = ty := by
  rcases scalar_iff.mp h with hnil | haccepts
  · exact .inl hnil
  · by_cases hty : ty = scalar.ty
    · exact .inr hty.symm
    · simp [Ty.accepts, hany, hcomparable, hty] at haccepts

variable {scalar : Scalar}

theorem boolean (h : (Value.scalar scalar).Fits .boolean) :
    scalar = .nil ∨ ∃ b, scalar = .boolean b := by
  rcases h.ty_eq (by decide) (by decide) with hnil | hty
  · exact .inl hnil
  · cases scalar <;> simp_all [Scalar.ty]

theorem integer (h : (Value.scalar scalar).Fits .integer) :
    scalar = .nil ∨ ∃ n, scalar = .integer n := by
  rcases h.ty_eq (by decide) (by decide) with hnil | hty
  · exact .inl hnil
  · cases scalar <;> simp_all [Scalar.ty]

theorem decimal (h : (Value.scalar scalar).Fits .decimal) :
    scalar = .nil ∨ ∃ d, scalar = .decimal d := by
  rcases h.ty_eq (by decide) (by decide) with hnil | hty
  · exact .inl hnil
  · cases scalar <;> simp_all [Scalar.ty]

theorem string (h : (Value.scalar scalar).Fits .string) :
    scalar = .nil ∨ ∃ s, scalar = .string s := by
  rcases h.ty_eq (by decide) (by decide) with hnil | hty
  · exact .inl hnil
  · cases scalar <;> simp_all [Scalar.ty]

theorem of_ty (h : scalar.ty = ty) : (Value.scalar scalar).Fits ty :=
  scalar_iff.mpr (.inr (by rw [h, Ty.accepts_self]))

end Value.Fits

/-- Why an expression or a statement of an accepted program may refuse a value. -/
inductive Excuse : Node → EvaluationError → Prop
  | divisionByZero {node} : Excuse node .divisionByZero
  | negativeExponent {node exponent} : Excuse node (.negativeExponent exponent)
  | offsetOutOfRange {node offset} : Excuse node (.offsetOutOfRange offset)
  | notBoolean {node} : Excuse node (.notBoolean .nil)
  | offsetNotInteger {node} : Excuse node (.offsetNotInteger .nil)
  | left {node op right} : Excuse node (.unsupportedOperands op .nil right)
  | right {node op left} : Excuse node (.unsupportedOperands op left .nil)
  /-- Two values that can be compared, but not necessarily with each other. -/
  | order {op left right type a b} : op = .less ∨ op = .greater →
      left.type? = some .comparable →
      Excuse (.binary op.text left right type) (.unsupportedOperands op a b)

/-! ### Operators -/

namespace Operator

variable {op : Operator} {a b ty : Ty} {left right result : Scalar} {e : EvaluationError}

theorem requireCommon_eq_ok_iff {target : Ty} {left right : Option Ty} :
    requireCommon target left right = .ok () ↔ Ty.accepts (some target) left = true ∧
      Ty.accepts (some target) right = true ∧ Ty.accepts left right = true := by
  unfold requireCommon requireAccepted
  cases Ty.accepts (some target) left <;> cases Ty.accepts (some target) right <;>
    cases Ty.accepts left right <;> simp [bind, Except.bind]

theorem requireCommon_bind_eq_ok_iff {target result : Ty} {left right : Option Ty} :
    (do requireCommon target left right; return result) = Except.ok ty ↔
      requireCommon target left right = .ok () ∧ result = ty := by
  cases requireCommon target left right <;> simp [bind, Except.bind, pure, Except.pure]

/-- An operator computes a value of a type, or has an excuse for a node, or its result is too
great. -/
def Allowed (node : Node) (ty : Ty) : Except OperationFault Scalar → Prop
  | .ok result => (Value.scalar result).Fits ty
  | .error (.refused e) => Excuse node e
  | .error .overflow => True

variable {node : Node}

theorem allowed_decimalResult {value : Decimal} : Allowed node .decimal (decimalResult value) := by
  unfold decimalResult
  split
  · trivial
  · exact Value.Fits.of_ty rfl

theorem allowed_integers
    (hop : op = .plus ∨ op = .minus ∨ op = .times ∨ op = .divide ∨ op = .power)
    (hleft : (Value.scalar left).Fits .integer) (hright : (Value.scalar right).Fits .integer) :
    Allowed node .integer (op.apply (.scalar left) (.scalar right)) := by
  -- nil is refused by each of the operators
  rcases hleft.integer with rfl | ⟨m, rfl⟩
  · rcases hright.integer with rfl | ⟨n, rfl⟩ <;>
      rcases hop with rfl | rfl | rfl | rfl | rfl <;> exact Excuse.left
  rcases hright.integer with rfl | ⟨n, rfl⟩
  · rcases hop with rfl | rfl | rfl | rfl | rfl <;> exact Excuse.right
  rcases hop with rfl | rfl | rfl | rfl | rfl
  · exact Value.Fits.of_ty rfl
  · exact Value.Fits.of_ty rfl
  · exact Value.Fits.of_ty rfl
  · simp only [apply, applyDivide]
    split
    · exact Excuse.divisionByZero
    · exact Value.Fits.of_ty rfl
  -- a power of integers has no negative exponent
  · simp only [apply, applyPower]
    split
    · exact Excuse.negativeExponent
    · exact Value.Fits.of_ty rfl

theorem allowed_decimals (hop : op = .plus ∨ op = .minus ∨ op = .times ∨ op = .divide)
    (hleft : (Value.scalar left).Fits .decimal) (hright : (Value.scalar right).Fits .decimal) :
    Allowed node .decimal (op.apply (.scalar left) (.scalar right)) := by
  -- nil is refused here as well
  rcases hleft.decimal with rfl | ⟨m, rfl⟩
  · rcases hright.decimal with rfl | ⟨n, rfl⟩ <;>
      rcases hop with rfl | rfl | rfl | rfl <;> exact Excuse.left
  rcases hright.decimal with rfl | ⟨n, rfl⟩
  · rcases hop with rfl | rfl | rfl | rfl <;> exact Excuse.right
  rcases hop with rfl | rfl | rfl | rfl
  · exact allowed_decimalResult
  · exact allowed_decimalResult
  · exact allowed_decimalResult
  · simp only [apply, applyDivide]
    split
    · exact Excuse.divisionByZero
    · exact Value.Fits.of_ty rfl

/-- The types of operands that arithmetic takes. -/
theorem arithmeticTy_eq_ok_iff :
    arithmeticTy op (some a) (some b) = .ok ty ↔
      a = ty ∧ b = ty ∧ (ty = .integer ∨ ty = .decimal) := by
  unfold arithmeticTy
  cases a <;> cases b <;> cases ty <;> simp

theorem allowed_arithmetic (hop : op = .plus ∨ op = .minus ∨ op = .times ∨ op = .divide)
    (hty : arithmeticTy op (some a) (some b) = .ok ty) (hleft : (Value.scalar left).Fits a)
    (hright : (Value.scalar right).Fits b) :
    Allowed node ty (op.apply (.scalar left) (.scalar right)) := by
  obtain ⟨rfl, rfl, rfl | rfl⟩ := arithmeticTy_eq_ok_iff.mp hty
  · refine allowed_integers ?_ hleft hright
    rcases hop with h | h | h | h <;> simp [h]
  · exact allowed_decimals hop hleft hright

/-- Texts are joined as soon as one operand is a string. -/
theorem applyPlus_of_string (h : left.kind = .string ∨ right.kind = .string) :
    applyPlus (.scalar left) (.scalar right) = .ok (.string (left.text ++ right.text)) := by
  unfold applyPlus
  split
  · simp_all [Scalar.kind]
  · simp_all [Scalar.kind]
  · simp_all [Datum.kind, Datum.text]

theorem applyPlus_nil_left (h : right.kind ≠ .string) :
    applyPlus (.scalar .nil) (.scalar right) =
      .error (.refused (.unsupportedOperands .plus .nil right.kind)) := by
  cases right <;> simp_all [applyPlus, refuse, Datum.kind, Scalar.kind]

theorem applyPlus_nil_right (h : left.kind ≠ .string) :
    applyPlus (.scalar left) (.scalar .nil) =
      .error (.refused (.unsupportedOperands .plus left.kind .nil)) := by
  cases left <;> simp_all [applyPlus, refuse, Datum.kind, Scalar.kind]

theorem allowed_plus (hty : resultTy .plus (some a) (some b) = .ok ty)
    (hleft : (Value.scalar left).Fits a) (hright : (Value.scalar right).Fits b) :
    Allowed node ty (apply .plus (.scalar left) (.scalar right)) := by
  by_cases hstring : some a = some Ty.string ∨ some b = some Ty.string
  case neg =>
    rw [resultTy, if_neg hstring] at hty
    exact allowed_arithmetic (.inl rfl) hty hleft hright
  rw [resultTy, if_pos hstring] at hty
  cases hty
  by_cases hkind : left.kind = .string ∨ right.kind = .string
  · rw [apply, applyPlus_of_string hkind]
    exact Value.Fits.of_ty rfl
  -- the operand that should be a string is nil
  obtain ⟨hnotLeft, hnotRight⟩ := not_or.mp hkind
  rcases hstring with ha | hb
  · obtain rfl := Option.some.inj ha
    rcases hleft.string with rfl | ⟨s, rfl⟩
    · rw [apply, applyPlus_nil_left hnotRight]
      exact Excuse.left
    · exact absurd rfl hnotLeft
  · obtain rfl := Option.some.inj hb
    rcases hright.string with rfl | ⟨s, rfl⟩
    · rw [apply, applyPlus_nil_right hnotLeft]
      exact Excuse.right
    · exact absurd rfl hnotRight

/-- Two values of one ordered type have an order. -/
theorem order?_isSome (hordered : left.ty.isOrdered = true) (hty : right.ty = left.ty) :
    ∃ found, (Datum.scalar left).order? (.scalar right) = some found := by
  cases left <;> cases right <;> simp_all [Scalar.ty, Ty.isOrdered, Datum.order?, Scalar.order?]

theorem allowed_order {wanted : Ordering} {leftNode rightNode : Node} {type : Option Ty}
    (hop : op = .less ∨ op = .greater) (htype : leftNode.type? = some a)
    (hcommon : requireCommon .comparable (some a) (some b) = .ok ())
    (hleft : (Value.scalar left).Fits a) (hright : (Value.scalar right).Fits b) :
    Allowed (.binary op.text leftNode rightNode type) .boolean
      (applyOrder op wanted (.scalar left) (.scalar right)) := by
  unfold applyOrder
  obtain ⟨haccepts, -, hab⟩ := requireCommon_eq_ok_iff.mp hcommon
  -- values that can be compared may be of different kinds
  by_cases hcomparable : a = .comparable
  · subst hcomparable
    split
    · exact Value.Fits.of_ty rfl
    · exact Excuse.order hop htype
  -- both operands are of one ordered type, or nil
  have hordered : a.isOrdered = true := by
    cases a <;> simp_all [Ty.accepts, Ty.isOrdered]
  have hany : a ≠ .any := by
    rintro rfl
    cases hordered
  rcases hleft.ty_eq hany hcomparable with rfl | hleftTy
  · exact Excuse.left
  rcases (hright.mono hab).ty_eq hany hcomparable with rfl | hrightTy
  · have hnone : (Datum.scalar left).order? (.scalar .nil) = none := by
      cases left <;> rfl
    rw [hnone]
    exact Excuse.right
  obtain ⟨found, hfound⟩ := order?_isSome (by rwa [hleftTy]) (hrightTy.trans hleftTy.symm)
  rw [hfound]
  exact Value.Fits.of_ty rfl

/-- The value of an operator fits its type, and operands are refused only with an excuse. -/
theorem allowed_apply {leftNode rightNode : Node} {type : Option Ty} (hand : op ≠ .and)
    (hor : op ≠ .or) (hty : op.resultTy (some a) (some b) = .ok ty)
    (htype : leftNode.type? = some a) (hleft : (Value.scalar left).Fits a)
    (hright : (Value.scalar right).Fits b) :
    Allowed (.binary op.text leftNode rightNode type) ty
      (op.apply (.scalar left) (.scalar right)) := by
  cases op with
  | and => exact absurd rfl hand
  | or => exact absurd rfl hor
  | plus => exact allowed_plus hty hleft hright
  | minus | times | divide => exact allowed_arithmetic (by simp) hty hleft hright
  | power =>
    -- only powers of integers pass the analysis
    by_cases hintegers : some a = some Ty.integer ∧ some b = some Ty.integer
    · rw [resultTy, if_pos hintegers] at hty
      cases hty
      obtain ⟨rfl, rfl⟩ := And.imp Option.some.inj Option.some.inj hintegers
      exact allowed_integers (by simp) hleft hright
    · rw [resultTy, if_neg hintegers] at hty
      cases hty
  | less | greater =>
    obtain ⟨hrequired, rfl⟩ := requireCommon_bind_eq_ok_iff.mp hty
    exact allowed_order (by simp) htype hrequired hleft hright
  | equal | unequal =>
    obtain ⟨-, rfl⟩ := requireCommon_bind_eq_ok_iff.mp hty
    exact Value.Fits.of_ty rfl

/-- The operands of the logical operators are truth values. -/
theorem eq_boolean_of_logical (hop : op = .and ∨ op = .or)
    (hty : op.resultTy (some a) (some b) = .ok ty) :
    a = .boolean ∧ b = .boolean ∧ ty = .boolean := by
  have hrequired : requireCommon .boolean (some a) (some b) = .ok () ∧ Ty.boolean = ty := by
    rcases hop with rfl | rfl <;> exact requireCommon_bind_eq_ok_iff.mp hty
  obtain ⟨hcommon, rfl⟩ := hrequired
  obtain ⟨ha, hb, -⟩ := requireCommon_eq_ok_iff.mp hcommon
  exact ⟨eq_boolean_of_accepts ha, eq_boolean_of_accepts hb, rfl⟩

end Operator

end BlockScript
