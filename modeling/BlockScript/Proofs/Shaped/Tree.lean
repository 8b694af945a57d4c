import BlockScript.Proofs.Literal
import BlockScript.Proofs.Parser.Derivation
/-!
# Shapes of trees

A tree that was read may hold any node in any place. Here is which nodes a run has a rule for, place
by place: expressions where values are needed, statements in bodies, cases in switches. Annotations
do not matter, and neither do names or types.

The literals of a tree are limited too, to scalars that are allowed. What is allowed is up to the
user of the shapes: everything, or all but decimals with powers of ten behind their digits, which
source texts cannot spell.

## Main definitions

* `Scalar.IsUnscaled` — scalars that are no decimals with positive exponents
* `Node.IsExpression`, `Node.IsStatement`, `Node.IsCase` — the parts of bodies
* `Node.IsGlobal`, `Node.IsFunction`, `Node.IsProgram` — the parts of programs, and programs

## Main results

* `isProgram_of_parseProgram` — source texts have trees of this shape
-/

namespace BlockScript

/-- A scalar is no decimal with a power of ten behind its digits. -/
def Scalar.IsUnscaled : Scalar → Prop
  | .decimal value => value.exponent ≤ 0
  | _ => True

instance : DecidablePred Scalar.IsUnscaled := fun value => by
  unfold Scalar.IsUnscaled
  split <;> infer_instance

namespace Node

variable (allowed : Scalar → Prop)

/-- A node that has a value, with literals that are allowed. -/
inductive IsExpression : Node → Prop
  | literal {value type} : allowed value → IsExpression (.literal value type)
  | group {inner type} : IsExpression inner → IsExpression (.group inner type)
  | binary {symbol left right type} : IsExpression left → IsExpression right →
      IsExpression (.binary symbol left right type)
  | variable {name type binding} : IsExpression (.access name .null type binding)
  | element {name offset type binding} : IsExpression offset →
      IsExpression (.access name offset type binding)
  | call {name arguments type callee} : (∀ argument ∈ arguments, IsExpression argument) →
      IsExpression (.call name arguments type callee)
  | listLiteral {values type} : (∀ value ∈ values, IsExpression value) →
      IsExpression (.listLiteral values type)

/-- An initial value, which may be absent. -/
inductive IsInitial : Node → Prop
  | absent : IsInitial .null
  | present {value} : IsExpression allowed value → IsInitial value

mutual

/-- A node that can be executed. -/
inductive IsStatement : Node → Prop
  | discard {expression} : IsExpression allowed expression → IsStatement (.discard expression)
  | declaration {name typeName value binding} : IsInitial allowed value →
      IsStatement (.declaration name typeName value binding)
  | assignment {receiver value} : IsExpression allowed receiver → IsExpression allowed value →
      IsStatement (.assignment receiver value)
  | branch {condition thenBody elseBody} : IsExpression allowed condition →
      (∀ statement ∈ thenBody, IsStatement statement) →
      (∀ statement ∈ elseBody, IsStatement statement) →
      IsStatement (.branch condition thenBody elseBody)
  | switch {condition cases} : IsExpression allowed condition →
      (∀ node ∈ cases, IsCase node) → IsStatement (.switch condition cases)
  | loop {condition body} : IsExpression allowed condition →
      (∀ statement ∈ body, IsStatement statement) → IsStatement (.loop condition body)
  | ret {value} : IsExpression allowed value → IsStatement (.ret value)

/-- A case of a switch. The default case has no value. -/
inductive IsCase : Node → Prop
  | mk {value body} : IsInitial allowed value → (∀ statement ∈ body, IsStatement statement) →
      IsCase (.case value body)

end

/-- A global variable. -/
inductive IsGlobal : Node → Prop
  | mk {name mutable typeName value isList binding} : IsInitial allowed value →
      IsGlobal (.global name mutable typeName value isList binding)

/-- A function. -/
inductive IsFunction : Node → Prop
  | mk {name parameters types resultType body signature} :
      (∀ statement ∈ body, IsStatement allowed statement) →
      IsFunction (.function name parameters types resultType body signature)

/-- A whole program. -/
inductive IsProgram : Node → Prop
  | mk {globals functions} : (∀ node ∈ globals, IsGlobal allowed node) →
      (∀ node ∈ functions, IsFunction allowed node) → IsProgram (.program globals functions)

variable {allowed} {node : Node}

theorem IsExpression.isNull_eq (h : IsExpression allowed node) : node.isNull = false := by
  cases h <;> rfl

/-- An initial value that is there is an expression. -/
theorem IsInitial.isExpression (h : IsInitial allowed node) (hnull : node.isNull = false) :
    IsExpression allowed node := by
  cases h with
  | absent => cases hnull
  | present h => exact h

/-- The item of a list that is accessed has an expression as its offset. -/
theorem IsExpression.offset {name : String} {offset : Node} {type : Option Ty}
    {binding : Option Binding} (h : IsExpression allowed (.access name offset type binding)) :
    IsInitial allowed offset := by
  cases h with
  | «variable» => exact .absent
  | element h => exact .present h

end Node

open Grammar Node
open BlockScript.Parser (AllLexed Tier)

/-! ### Trees of the grammar -/

/-- Rounding does not raise an exponent over a bound that is in range. -/
theorem Decimal.exponent_rounded_le {a : Decimal} {e : Int} (hleast : leastExponent ≤ e)
    (h : a.exponent ≤ e) : a.rounded.exponent ≤ e := by
  unfold rounded
  split
  · exact Int.max_le.mpr ⟨hleast, Int.le_trans (Int.min_le_left _ _) h⟩
  · split
    · exact hleast
    · exact h

theorem Decimal.exponent_rounded_nonpos {a : Decimal} (h : a.exponent ≤ 0) :
    a.rounded.exponent ≤ 0 :=
  exponent_rounded_le (by decide) h

/-- The digits of a decimal that the lexer has found have no power of ten behind them. -/
theorem Grammar.Literal.isUnscaled {token : Token} {value : Scalar} (h : Literal token value)
    (htoken : token.Lexed) : value.IsUnscaled := by
  cases h with
  | decimal hkind hvalue =>
    obtain ⟨d, hd, hexponent⟩ := htoken.exists_decimal hkind
    obtain rfl := Option.some.inj (hvalue.symm.trans hd)
    exact Decimal.exponent_rounded_nonpos (Int.le_of_lt hexponent)
  | _ => trivial

mutual

theorem isExpression_of_expression : ∀ {tier : Tier} {used : List Token} {node : Node},
    Expression tier used node → AllLexed used → IsExpression Scalar.IsUnscaled node
  | _, _, _, .operand h, hused => isExpression_of_operand h hused
  | _, _, _, .binary hleft _ _ hright, hused =>
    .binary (isExpression_of_expression hleft hused.left)
      (isExpression_of_operand hright hused.right.tail)

theorem isExpression_of_operand : ∀ {tier : Tier} {used : List Token} {node : Node},
    Operand tier used node → AllLexed used → IsExpression Scalar.IsUnscaled node
  | _, _, _, .tighter _ h, hused => isExpression_of_expression h hused
  | _, _, _, .primary _ h, hused => isExpression_of_primary h hused

theorem isExpression_of_primary : ∀ {used : List Token} {node : Node},
    Primary used node → AllLexed used → IsExpression Scalar.IsUnscaled node
  | _, _, .literal h, hused => .literal (h.isUnscaled hused.head)
  | _, _, .group _ h _, hused => .group (isExpression_of_expression h hused.tail.left)
  | _, _, .variable _, _ => .variable
  | _, _, .element _ _ h _, hused => .element (isExpression_of_expression h hused.tail.tail.left)
  | _, _, .call _ _ h _, hused => .call (isExpression_of_arguments h hused.tail.tail.left)

theorem isExpression_of_arguments : ∀ {used : List Token} {nodes : List Node},
    Arguments used nodes → AllLexed used → ∀ node ∈ nodes, IsExpression Scalar.IsUnscaled node
  | _, _, .none, _ => List.forall_mem_nil _
  | _, _, .some h, hused => isExpression_of_expressions h hused

theorem isExpression_of_expressions : ∀ {used : List Token} {nodes : List Node},
    Expressions used nodes → AllLexed used → ∀ node ∈ nodes, IsExpression Scalar.IsUnscaled node
  | _, _, .one h, hused => List.forall_mem_singleton.mpr (isExpression_of_expression h hused)
  | _, _, .cons h _ hrest, hused =>
    List.forall_mem_cons.mpr ⟨isExpression_of_expression h hused.left,
      isExpression_of_expressions hrest hused.right.tail⟩

end

theorem isInitial_of_initial {used : List Token} {value : Node} (h : Initial used value)
    (hused : AllLexed used) : IsInitial Scalar.IsUnscaled value := by
  cases h with
  | absent => exact .absent
  | present _ h => exact .present (isExpression_of_expression h hused.tail)

mutual

theorem isStatement_of_statement : ∀ {used : List Token} {node : Node},
    Statement used node → AllLexed used → IsStatement Scalar.IsUnscaled node
  | _, _, .declaration _ _ _ h _, hused =>
    .declaration (isInitial_of_initial h hused.tail.tail.right.left)
  | _, _, .switch _ h hcases _ _ hbody _, hused => by
    have hrest := hused.tail.right
    refine .switch (isExpression_of_expression h hused.tail.left)
      (List.forall_mem_append.mpr ⟨isCase_of_cases hcases hrest.left, ?_⟩)
    have hdefault := isStatement_of_block hbody hrest.right.tail.right.left
    exact List.forall_mem_singleton.mpr (.mk .absent hdefault)
  | _, _, .branch _ h _ hthen _, hused =>
    .branch (isExpression_of_expression h hused.tail.left)
      (isStatement_of_block hthen hused.tail.right.tail.left)
      (List.forall_mem_nil _)
  | _, _, .branchElse _ h _ hthen _ helse _, hused =>
    .branch (isExpression_of_expression h hused.tail.left)
      (isStatement_of_block hthen hused.tail.right.tail.left)
      (isStatement_of_block helse hused.tail.right.tail.right.tail.left)
  | _, _, .loop _ h _ hbody _, hused =>
    .loop (isExpression_of_expression h hused.tail.left)
      (isStatement_of_block hbody hused.tail.right.tail.left)
  | _, _, .ret _ h _, hused => .ret (isExpression_of_expression h hused.tail.left)
  | _, _, .assignment hreceiver _ hvalue _, hused =>
    .assignment (isExpression_of_expression hreceiver hused.left)
      (isExpression_of_expression hvalue hused.right.tail.left)
  | _, _, .discard h _, hused => .discard (isExpression_of_expression h hused.left)

theorem isStatement_of_block : ∀ {used : List Token} {nodes : List Node},
    Block used nodes → AllLexed used → ∀ node ∈ nodes, IsStatement Scalar.IsUnscaled node
  | _, _, .nil, _ => List.forall_mem_nil _
  | _, _, .cons h hrest, hused =>
    List.forall_mem_cons.mpr
      ⟨isStatement_of_statement h hused.left, isStatement_of_block hrest hused.right⟩

theorem isCase_of_cases : ∀ {used : List Token} {nodes : List Node},
    Cases used nodes → AllLexed used → ∀ node ∈ nodes, IsCase Scalar.IsUnscaled node
  | _, _, .nil, _ => List.forall_mem_nil _
  | _, _, .cons _ h _ hbody hrest, hused => by
    have hbehind := hused.tail.right.tail
    refine List.forall_mem_cons.mpr ⟨?_, isCase_of_cases hrest hbehind.right⟩
    exact .mk (.present (isExpression_of_expression h hused.tail.left))
      (isStatement_of_block hbody hbehind.left)

end

theorem isGlobal_of_global {used : List Token} {node : Node} (h : Global used node)
    (hused : AllLexed used) : IsGlobal Scalar.IsUnscaled node := by
  cases h with
  | list _ _ _ _ _ h _ _ =>
    have hvalues := isExpression_of_expressions h hused.tail.tail.right.tail.tail.left
    exact .mk (.present (.listLiteral hvalues))
  | mutable _ _ _ h _ => exact .mk (isInitial_of_initial h hused.tail.tail.right.left)
  | constant _ _ _ _ h _ =>
    exact .mk (.present (isExpression_of_expression h hused.tail.tail.right.tail.left))

theorem isFunction_of_grammar {used : List Token} {node : Node} (h : Grammar.Function used node)
    (hused : AllLexed used) : IsFunction Scalar.IsUnscaled node := by
  cases h with
  | mk _ _ _ _ _ _ _ hbody _ =>
    exact .mk (isStatement_of_block hbody hused.tail.tail.tail.right.tail.right.tail.left)

theorem forall_mem_of_many_lexed {phrase : List Token → Node → Prop} {p : Node → Prop}
    (hphrase : ∀ used node, phrase used node → AllLexed used → p node) {used : List Token}
    {nodes : List Node} (h : Many phrase used nodes) (hused : AllLexed used) :
    ∀ node ∈ nodes, p node := by
  induction h with
  | nil => exact List.forall_mem_nil _
  | cons h _ ih => exact List.forall_mem_cons.mpr ⟨hphrase _ _ h hused.left, ih hused.right⟩

theorem isProgram_of_parseProgram {source : String} {program : Node}
    (h : parseProgram source = .ok program) : IsProgram Scalar.IsUnscaled program := by
  obtain ⟨tokens, htokens, hprogram⟩ := Parser.exists_program_of_parseProgram h
  cases hprogram with
  | mk hglobals hfunctions =>
    refine .mk (forall_mem_of_many_lexed ?_ hglobals htokens.left)
      (forall_mem_of_many_lexed ?_ hfunctions htokens.right)
    · exact fun _ _ => isGlobal_of_global
    · exact fun _ _ => isFunction_of_grammar

end BlockScript
