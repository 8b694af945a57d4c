import BlockScript.Proofs.Analysis.Yields
/-!
# Typing

What it means for an annotated tree to be well typed in given tables. The rules say what the
annotations promise: the type of each expression, the binding of each use of a variable and the
signature of each call are those that the tables give, and every value that is stored or passed on
is accepted where it goes. Statements lead from the tables before them to the tables behind them.

The analysis is left out of the rules: what it rejects, in which order it looks at things, and what
it notes.

## Main definitions

* `Typed`, `TypedArguments` — expressions, and arguments against types of parameters
* `TypedStatement`, `TypedBlock`, `TypedCases` — statements
* `TypedGlobals`, `DeclaredFunctions`, `TypedFunctions` — the parts of a program
-/

namespace BlockScript

mutual

/-- An expression of some type. -/
inductive Typed (chain : StaticChain) : Node → Ty → Prop
  | literal {value} : Typed chain (.literal value (some value.ty)) value.ty
  | group {inner ty} : Typed chain inner ty → Typed chain (.group inner (some ty)) ty
  | binary {symbol op left right a b ty} : Operator.ofText? symbol = some op →
      Typed chain left a → Typed chain right b → op.resultTy (some a) (some b) = .ok ty →
      Typed chain (.binary symbol left right (some ty)) ty
  | variable {name binding ty} : name ≠ returnName → chain.findVariable? name = some binding →
      binding.isList = false → binding.type = some ty →
      Typed chain (.access name .null (some ty) (some binding)) ty
  | element {name offset binding ty} : name ≠ returnName → Typed chain offset .integer →
      chain.findVariable? name = some binding → binding.isList = true →
      binding.type = some ty → Typed chain (.access name offset (some ty) (some binding)) ty
  | call {name arguments f} : chain.findFunction? name arguments.length = some f →
      TypedArguments chain arguments f.parameters →
      Typed chain (.call name arguments (some f.result) (some f)) f.result

/-- Arguments that parameters of the given types accept, one for each. -/
inductive TypedArguments (chain : StaticChain) : List Node → List Ty → Prop
  | nil : TypedArguments chain [] []
  | cons {argument rest own parameter parameters} : Typed chain argument own →
      Ty.accepts (some parameter) (some own) = true → TypedArguments chain rest parameters →
      TypedArguments chain (argument :: rest) (parameter :: parameters)

end

/-- An initial value that a variable of the given type accepts. There may be none. -/
inductive TypedInitial (chain : StaticChain) (ty : Ty) : Node → Prop
  | absent : TypedInitial chain ty .null
  | present {value own} : Typed chain value own → Ty.accepts (some ty) (some own) = true →
      TypedInitial chain ty value

mutual

/-- A statement, with the tables before and behind it. -/
inductive TypedStatement : Tables → Node → Tables → Prop
  | discard {tables expression ty} : Typed tables.chain expression ty →
      TypedStatement tables (.discard expression) tables
  | declaration {tables after name typeName value ty binding} : name ≠ returnName →
      TypedInitial tables.chain ty value →
      tables.declare name (some ty) true false = .ok (binding, after) →
      TypedStatement tables (.declaration name typeName value (some binding)) after
  | assignment {tables name offset binding ty value own} : Typed tables.chain value own →
      Typed tables.chain (.access name offset (some ty) (some binding)) ty →
      binding.mutable = true → Ty.accepts (some ty) (some own) = true →
      TypedStatement tables (.assignment (.access name offset (some ty) (some binding)) value)
        tables
  | branch {tables condition thenBody elseBody inThen inElse} :
      Typed tables.chain condition .boolean → TypedBlock tables.enter thenBody inThen →
      TypedBlock (tables.resume inThen).enter elseBody inElse →
      TypedStatement tables (.branch condition thenBody elseBody) (tables.resume inElse)
  | switch {tables after condition cases ty} : Typed tables.chain condition ty →
      TypedCases tables cases after → TypedStatement tables (.switch condition cases) after
  | loop {tables condition body inside} : Typed tables.chain condition .boolean →
      TypedBlock tables.enter body inside →
      TypedStatement tables (.loop condition body) (tables.resume inside)
  | ret {tables value own result resultTy} : Typed tables.chain value own →
      tables.chain.findVariable? returnName = some result → result.type = some resultTy →
      Ty.accepts (some resultTy) (some own) = true → TypedStatement tables (.ret value) tables

/-- Statements in a row. -/
inductive TypedBlock : Tables → List Node → Tables → Prop
  | nil {tables} : TypedBlock tables [] tables
  | cons {tables between after statement rest} : TypedStatement tables statement between →
      TypedBlock between rest after → TypedBlock tables (statement :: rest) after

/-- The cases of a switch. The default case has no value. -/
inductive TypedCases : Tables → List Node → Tables → Prop
  | nil {tables} : TypedCases tables [] tables
  | default {tables inside after body rest} : TypedBlock tables.enter body inside →
      TypedCases (tables.resume inside) rest after →
      TypedCases tables (.case .null body :: rest) after
  | valued {tables inside after value body rest own} : Typed tables.chain value own →
      TypedBlock tables.enter body inside → TypedCases (tables.resume inside) rest after →
      TypedCases tables (.case value body :: rest) after

end

/-- The values of a list whose elements have the given type. -/
def TypedValues (chain : StaticChain) (ty : Ty) (values : List Node) : Prop :=
  ∀ value ∈ values, ∃ own, Typed chain value own ∧ Ty.accepts (some ty) (some own) = true

/-- A global variable, with the tables before and behind it. -/
inductive TypedGlobal : Tables → Node → Tables → Prop
  | list {tables after name typeName values ty binding} : name ≠ returnName →
      TypedValues tables.chain ty values →
      tables.declare name (some ty) true true = .ok (binding, after) →
      TypedGlobal tables
        (.global name true typeName (.listLiteral values (some ty)) true (some binding)) after
  | value {tables after name mutable typeName value ty binding} : name ≠ returnName →
      TypedInitial tables.chain ty value →
      tables.declare name (some ty) mutable false = .ok (binding, after) →
      TypedGlobal tables (.global name mutable typeName value false (some binding)) after

/-- Global variables in a row. -/
inductive TypedGlobals : Tables → List Node → Tables → Prop
  | nil {tables} : TypedGlobals tables [] tables
  | cons {tables between after node rest} : TypedGlobal tables node between →
      TypedGlobals between rest after → TypedGlobals tables (node :: rest) after

/-- Functions that have got their signatures, with the tables before and behind them. -/
inductive DeclaredFunctions : Tables → List Node → Tables → Prop
  | nil {tables} : DeclaredFunctions tables [] tables
  | cons {tables between after name parameters types resultType body f rest} : f.name = name →
      f.javaName = name → f.parameters.length = parameters.length →
      tables.declareFunction f = .ok between → DeclaredFunctions between rest after →
      DeclaredFunctions tables
        (.function name parameters types resultType body (some f) :: rest) after

/-- Parameters of the given types, with their bindings and the tables before and behind them. -/
inductive TypedParameters : Tables → List String → List Ty → List Binding → Tables → Prop
  | nil {tables} : TypedParameters tables [] [] [] tables
  | cons {tables between after name names ty types binding bindings} : name ≠ returnName →
      tables.declare name (some ty) true false = .ok (binding, between) →
      TypedParameters between names types bindings after →
      TypedParameters tables (name :: names) (ty :: types) (binding :: bindings) after

/-- The body of a function, with the bindings of the parameters and the tables behind the body. -/
inductive TypedBody (tables : Tables) (f : Signature) (parameters : List String)
    (bindings : List Binding) (body : List Node) : Tables → Prop
  | mk {start inside behind result} :
      tables.enter.declare returnName (some f.result) false false = .ok (result, start) →
      TypedParameters start parameters f.parameters bindings inside →
      TypedBlock inside body behind → TypedBody tables f parameters bindings body behind

/-- Functions with the bindings of their parameters, in tables that have all their signatures. -/
inductive TypedFunctions : Tables → List Node → List (List Binding) → Tables → Prop
  | nil {tables} : TypedFunctions tables [] [] tables
  | cons {tables behind after name parameters types resultType body f bindings rest others} :
      f.name = name → TypedBody tables f parameters bindings body behind →
      TypedFunctions (tables.resume behind) rest others after →
      TypedFunctions tables (.function name parameters types resultType body (some f) :: rest)
        (bindings :: others) after

/-! ### What the rules say about annotations -/

section

variable {chain : StaticChain} {node : Node} {ty : Ty}

theorem Typed.type?_eq (h : Typed chain node ty) : node.type? = some ty := by
  cases h <;> rfl

theorem Typed.isNull_eq (h : Typed chain node ty) : node.isNull = false := by
  cases h <;> rfl

theorem TypedArguments.length_eq {nodes : List Node} {types : List Ty}
    (h : TypedArguments chain nodes types) : nodes.length = types.length := by
  induction nodes generalizing types with
  | nil =>
    cases h
    rfl
  | cons node rest ih =>
    cases h with
    | cons _ _ hrest => rw [List.length_cons, List.length_cons, ih hrest]

theorem TypedParameters.length_eq {tables after : Tables} {names : List String} {types : List Ty}
    {bindings : List Binding} (h : TypedParameters tables names types bindings after) :
    types.length = names.length := by
  induction h with
  | nil => rfl
  | cons _ _ _ ih => rw [List.length_cons, List.length_cons, ih]

end

end BlockScript
