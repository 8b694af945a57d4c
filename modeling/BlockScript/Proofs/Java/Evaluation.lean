import BlockScript.Proofs.Java.Reading
/-!
# Calls in Java's order

Java evaluates operands from left to right, the arguments of a call before the call is made, and the
index of an element before the value that is assigned to it. What is evaluated is the tree that Java
reads from an expression.

A power is a call of the library, and not a call in this sense.

## Main definitions

* `Java.Term.calls` — the calls in an expression as it is read
* `Java.Statement.expressions` — the expressions of a statement
* `Java.Expression.StandsFor` — forms that a tree is read from

## Main results

* `Java.exists_standsFor` — what is read from the form of an expression
-/

namespace BlockScript.Java

mutual

/-- The calls in an expression, in the order in which they are made. -/
def Term.calls : Term → List Term
  | .word _ | .numeral _ | .quoted _ | .negative _ => []
  | .element _ index => index.calls
  | .call function arguments => callsInAll arguments ++ [.call function arguments]
  | .cast _ arguments => callsInAll arguments
  | .binary _ left right => left.calls ++ right.calls
  | .parentheses inner => inner.calls

/-- The calls in several expressions. -/
def callsInAll : List Term → List Term
  | [] => []
  | a :: others => a.calls ++ callsInAll others

end

theorem Term.calls_ofNumeral (text : String) : (Term.ofNumeral text).calls = [] := by
  unfold Term.ofNumeral
  split <;> rfl

/-- There are no calls in a literal. -/
theorem Term.calls_ofScalar (value : Scalar) : (Term.ofScalar value).calls = [] := by
  cases value with
  | integer value => exact calls_ofNumeral _
  | decimal value => exact calls_ofNumeral _
  | _ => rfl

/-- The expressions of a statement without blocks, in the order in which they are evaluated. -/
def Statement.expressions : Statement → List Expression
  | expression value => [value]
  | localVariable _ _ value => value.toList
  | assignment target value => [target, value]
  | exit value => value.toList
  | _ => []

mutual

/-- The statements without blocks in a statement, in the order of the text. -/
def Statement.simple : Statement → List Statement
  | .ifElse _ thenBody elseBody => simpleInAll thenBody ++ simpleInAll elseBody
  | .switch _ groups => simpleInGroups groups
  | .whileLoop _ body => simpleInAll body
  | .breakOut => []
  | other => [other]

/-- The statements without blocks in several statements. -/
def simpleInAll : List Statement → List Statement
  | [] => []
  | statement :: rest => statement.simple ++ simpleInAll rest

/-- The statements without blocks in the groups of a switch. -/
def simpleInGroups : List (Option Expression × List Statement) → List Statement
  | [] => []
  | (_, body) :: rest => simpleInAll body ++ simpleInGroups rest

end

theorem simpleInAll_append (statements others : List Statement) :
    simpleInAll (statements ++ others) = simpleInAll statements ++ simpleInAll others := by
  induction statements with
  | nil => rfl
  | cons statement rest ih =>
    rw [List.cons_append, simpleInAll, simpleInAll, ih, List.append_assoc]

theorem simpleInAll_singleton (statement : Statement) :
    simpleInAll [statement] = statement.simple :=
  List.append_nil statement.simple

theorem simpleInAll_breakOut : simpleInAll [.breakOut] = [] :=
  rfl

/-- Java reads a tree from the lexemes of a form, which are those of the printed form. -/
structure Expression.StandsFor (form : Expression) (tree : Term) : Prop where
  isReadAs : IsReadAs form.lexemes tree
  lexemesOfText? : lexemesOfText? form.text = some form.lexemes

/-- The Java form of an expression stands for the tree of the expression, if names are names in
Java. -/
theorem exists_standsFor {node : Node} {tree : Term} (h : Denotes node tree)
    (hlexical : tree.IsLexical) :
    ∃ form, emitExpression node = .ok form ∧ form.StandsFor tree := by
  obtain ⟨form, a, hemit, hwrites, hgrouped, rfl, -⟩ := exists_emitExpression h
  refine ⟨form, hemit, ?_, ?_⟩
  · rw [hwrites.lexemes_eq]
    exact isReadAs_bare hgrouped
  · exact Expression.lexemesOfText?_text (hwrites.isLexical (a.isLexical_bare.mp hlexical))

end BlockScript.Java
