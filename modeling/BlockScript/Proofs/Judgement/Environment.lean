import BlockScript.Analysis.Operation
import BlockScript.Builtin
import Mathlib.Data.Set.Insert
import Mathlib.Logic.Function.Basic
/-!
# Lexical environments

What the names at some place of a program mean, and which types go together there. An environment
never changes: a declaration makes a new one for what follows it, and a block gets one of its own.

The order of types and the types of operations are given by rules, one for each way in which types
can go together, and agree with the functions that decide them.

## Main definitions

* `Judgement.Environment` — the meaning of names, with `declare`, `enter` and `withFunctions`
* `Judgement.Assignable`, `Judgement.OperationTy` — which types go together

## Main results

* `Judgement.assignable_iff`, `Judgement.operationTy_iff` — what the functions decide
-/

namespace BlockScript

namespace Judgement

/-! ### Types -/

/-- Values of the second type may be stored where the first one is expected. -/
inductive Assignable : Ty → Ty → Prop
  | refl {ty} : Assignable ty ty
  | any {ty} : Assignable .any ty
  | comparable {ty} : ty ∈ [Ty.character, .decimal, .integer, .string] → Assignable .comparable ty

/-- The type of an operation on operands of two types. -/
inductive OperationTy : Operator → Ty → Ty → Ty → Prop
  | logical {op} : op ∈ [Operator.and, .or] → OperationTy op .boolean .boolean .boolean
  | comparison {op left right} : op ∈ [Operator.less, .greater, .equal, .unequal] →
      Assignable .comparable left → Assignable .comparable right → Assignable left right →
      OperationTy op left right .boolean
  | concatenation {left right} : left = .string ∨ right = .string →
      OperationTy .plus left right .string
  | integers {op} : op ∈ [Operator.plus, .minus, .times, .divide, .power] →
      OperationTy op .integer .integer .integer
  | decimals {op} : op ∈ [Operator.plus, .minus, .times, .divide] →
      OperationTy op .decimal .decimal .decimal

theorem assignable_iff {target source : Ty} :
    Assignable target source ↔ Ty.accepts (some target) (some source) = true := by
  constructor
  · rintro (_ | _ | hmem)
    · exact Ty.accepts_self _
    · exact Ty.accepts_any _
    · revert source
      decide
  · intro h
    by_cases heq : target = source
    · exact heq ▸ .refl
    -- between two different types, the upper one is one of two
    cases target with
    | any => exact .any
    | comparable =>
      refine .comparable ?_
      cases source <;> first | exact absurd rfl heq | simp_all [Ty.accepts, Ty.isOrdered]
    | _ => simp_all [Ty.accepts]

theorem assignable_boolean_iff {ty : Ty} : Assignable .boolean ty ↔ ty = .boolean := by
  constructor
  · rintro (_ | _ | _)
    rfl
  · rintro rfl
    exact .refl

theorem requireAccepted_eq_ok_iff_assignable {target source : Ty} :
    requireAccepted (some target) (some source) = .ok () ↔ Assignable target source := by
  rw [assignable_iff, requireAccepted]
  split <;> simp_all

theorem requireCommon_eq_ok_iff {target left right : Ty} :
    Operator.requireCommon target (some left) (some right) = .ok () ↔
      Assignable target left ∧ Assignable target right ∧ Assignable left right := by
  simp only [← requireAccepted_eq_ok_iff_assignable, Operator.requireCommon]
  cases requireAccepted (some target) (some left) <;>
    cases requireAccepted (some target) (some right) <;> simp [bind, Except.bind]

/-- Arithmetic takes two integers or two decimals. -/
theorem arithmeticTy_eq_ok_iff {op : Operator} {left right ty : Ty} :
    op.arithmeticTy (some left) (some right) = .ok ty ↔
      (left = .integer ∧ right = .integer ∧ ty = .integer) ∨
        left = .decimal ∧ right = .decimal ∧ ty = .decimal := by
  unfold Operator.arithmeticTy
  split_ifs <;> simp_all [eq_comm]

theorem resultTy_of_operationTy {op : Operator} {left right ty : Ty}
    (h : OperationTy op left right ty) : op.resultTy (some left) (some right) = .ok ty := by
  cases h with
  | logical hop =>
    simp only [List.mem_cons, List.not_mem_nil, or_false] at hop
    rcases hop with rfl | rfl <;> rfl
  | comparison hop hleft hright hboth =>
    have hcommon := requireCommon_eq_ok_iff.mpr ⟨hleft, hright, hboth⟩
    simp only [List.mem_cons, List.not_mem_nil, or_false] at hop
    rcases hop with rfl | rfl | rfl | rfl <;> rw [Operator.resultTy, hcommon] <;> rfl
  | concatenation hstring =>
    rw [Operator.resultTy, if_pos (by simpa using hstring)]
  | integers hop =>
    simp only [List.mem_cons, List.not_mem_nil, or_false] at hop
    rcases hop with rfl | rfl | rfl | rfl | rfl <;> rfl
  | decimals hop =>
    simp only [List.mem_cons, List.not_mem_nil, or_false] at hop
    rcases hop with rfl | rfl | rfl | rfl <;> rfl

theorem operationTy_of_resultTy {op : Operator} {left right ty : Ty}
    (h : op.resultTy (some left) (some right) = .ok ty) : OperationTy op left right ty := by
  -- operators of one tier ask for the same
  have hlogical : ∀ {op : Operator}, op ∈ [Operator.and, .or] →
      (do Operator.requireCommon .boolean (some left) (some right); return Ty.boolean) =
        Except.ok ty → OperationTy op left right ty := by
    intro op hop h
    cases hcommon : Operator.requireCommon .boolean (some left) (some right) with
    | error e =>
      rw [hcommon] at h
      cases h
    | ok =>
      rw [hcommon] at h
      cases h
      obtain ⟨hleft, hright, -⟩ := requireCommon_eq_ok_iff.mp hcommon
      rw [assignable_boolean_iff.mp hleft, assignable_boolean_iff.mp hright]
      exact .logical hop
  have hcomparison : ∀ {op : Operator}, op ∈ [Operator.less, .greater, .equal, .unequal] →
      (do Operator.requireCommon .comparable (some left) (some right); return Ty.boolean) =
        Except.ok ty → OperationTy op left right ty := by
    intro op hop h
    cases hcommon : Operator.requireCommon .comparable (some left) (some right) with
    | error e =>
      rw [hcommon] at h
      cases h
    | ok =>
      rw [hcommon] at h
      cases h
      obtain ⟨hleft, hright, hboth⟩ := requireCommon_eq_ok_iff.mp hcommon
      exact .comparison hop hleft hright hboth
  have harithmetic : ∀ {op : Operator}, op ∈ [Operator.plus, .minus, .times, .divide] →
      op.arithmeticTy (some left) (some right) = .ok ty → OperationTy op left right ty := by
    intro op hop h
    rcases arithmeticTy_eq_ok_iff.mp h with ⟨rfl, rfl, rfl⟩ | ⟨rfl, rfl, rfl⟩
    · exact .integers (List.mem_append_left [Operator.power] hop)
    · exact .decimals hop
  cases op with
  | and | or => exact hlogical (by decide) h
  | less | greater | equal | unequal => exact hcomparison (by decide) h
  | minus | times | divide => exact harithmetic (by decide) h
  | plus =>
    rw [Operator.resultTy] at h
    split_ifs at h with hstring
    · cases h
      exact .concatenation (by simpa using hstring)
    · exact harithmetic (by decide) h
  | power =>
    rw [Operator.resultTy] at h
    split_ifs at h with hinteger
    cases h
    obtain ⟨rfl, rfl⟩ : left = .integer ∧ right = .integer := by simpa using hinteger
    exact .integers (by decide)

theorem operationTy_iff {op : Operator} {left right ty : Ty} :
    OperationTy op left right ty ↔ op.resultTy (some left) (some right) = .ok ty :=
  ⟨resultTy_of_operationTy, operationTy_of_resultTy⟩

/-- Operands determine the type of an operation. -/
theorem OperationTy.unique {op : Operator} {left right ty ty' : Ty}
    (h : OperationTy op left right ty) (h' : OperationTy op left right ty') : ty = ty' := by
  rw [operationTy_iff] at h h'
  rw [h] at h'
  exact Except.ok.inj h'

/-! ### Environments -/

/-- What the name of a variable stands for. -/
structure Variable where
  /-- The type of its values. -/
  type : Ty
  /-- Whether assignments are allowed. -/
  mutable : Bool
  /-- Whether it holds a list of such values. -/
  isList : Bool

/-- What a function takes and what it gives. -/
structure FunctionTy where
  /-- The types of the parameters. -/
  parameters : List Ty
  /-- The type of the result. -/
  result : Ty

/-- What the names at some place of a program mean. -/
structure Environment where
  /-- The variable of a name. -/
  var? : String → Option Variable
  /-- The function of a name and a number of arguments. -/
  function? : String → Nat → Option FunctionTy
  /-- The type of the result of the function around the place. -/
  result? : Option Ty
  /-- The names that the innermost block has declared. -/
  taken : Set String

namespace Environment

/-- The environment of a program: nothing but `print`. -/
def initial : Environment where
  var? _ := none
  function? name arity := if name = "print" ∧ arity = 1 then some ⟨[.any], .nil⟩ else none
  result? := none
  taken := ∅

/-- The environment behind a declaration. -/
def declare (Γ : Environment) (name : String) (v : Variable) : Environment :=
  { Γ with var? := Function.update Γ.var? name (some v), taken := insert name Γ.taken }

/-- The environment at the beginning of a block. -/
def enter (Γ : Environment) : Environment :=
  { Γ with taken := ∅ }

/-- The environment with functions, each under its name and its number of parameters. -/
def withFunctions (Γ : Environment) (headers : List ((String × Nat) × FunctionTy)) : Environment :=
  { Γ with
    function? := fun name arity => (headers.lookup (name, arity)).or (Γ.function? name arity) }

/-- The environment with parameters of given types. -/
def withParameters (Γ : Environment) (parameters : List (String × Ty)) : Environment :=
  parameters.foldl (fun Γ parameter => Γ.declare parameter.1 ⟨parameter.2, true, false⟩) Γ

/-- The environment at the beginning of the body of a function. -/
def body (Γ : Environment) (names : List String) (f : FunctionTy) : Environment :=
  { Γ.enter with result? := some f.result }.withParameters (names.zip f.parameters)

end Environment

end Judgement

end BlockScript
