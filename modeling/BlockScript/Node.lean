import BlockScript.Builtin
import BlockScript.Datum
/-!
# Program trees

A program tree is built by the parser or read from its JSON form, and annotated by the analysis.
Trees that are read may have any node, or none, in any place, so one type holds them all, with
`null` for a child that is absent; what stands where it has no meaning is found out by whoever
walks the tree.

Annotations are part of the tree: every expression has room for its type, and every node that
introduces or uses a name has room for what the name is bound to. A fresh tree has none.

## Main definitions

* `Binding` — what the analysis knows about a variable
* `Node` — the seventeen kinds of nodes and `null`
* `NodeKind`, `Node.kind?` — the kinds, with their names in messages
* `Node.type?` — the type that an expression is annotated with
* `Node.name?`, `Node.value?`, `Node.withValue` — the name and the value that several kinds have
* `Node.erase` — the tree without annotations
-/

namespace BlockScript

/-- What the analysis knows about a variable. Bindings are told apart by their numbers. -/
structure Binding where
  /-- The number of the binding, unique within one analysis. -/
  number : Nat
  /-- The name, which is also the name in Java. -/
  name : String
  /-- The declared or inferred type. -/
  type : Option Ty
  /-- Whether assignments are allowed. -/
  mutable : Bool
  /-- Whether the variable holds a list of values of the type. -/
  isList : Bool
  deriving DecidableEq, Repr, Inhabited

/-- A node of a program tree, or the absence of one. -/
inductive Node where
  | null
  /-- A literal. -/
  | literal (value : Scalar) (type : Option Ty)
  /-- An expression in parentheses. -/
  | group (inner : Node) (type : Option Ty)
  /-- A binary operation; the operator is kept as text. -/
  | binary (symbol : String) (left right : Node) (type : Option Ty)
  /-- A variable, or an element of a list if there is an offset. -/
  | access (name : String) (offset : Node) (type : Option Ty) (binding : Option Binding)
  /-- A call. -/
  | call (name : String) (arguments : List Node) (type : Option Ty) (callee : Option Signature)
  /-- The values of a list, with the type of its elements. -/
  | listLiteral (values : List Node) (type : Option Ty)
  /-- An expression evaluated for its effect. -/
  | discard (expression : Node)
  /-- A local variable. -/
  | declaration (name : String) (typeName : Option String) (value : Node)
      (binding : Option Binding)
  /-- An assignment. -/
  | assignment (receiver value : Node)
  /-- A choice by a condition. -/
  | branch (condition : Node) (thenBody elseBody : List Node)
  /-- One case of a switch; the default case has no value. -/
  | case (value : Node) (body : List Node)
  /-- A choice by a value. -/
  | switch (condition : Node) (cases : List Node)
  /-- A loop. -/
  | loop (condition : Node) (body : List Node)
  /-- The end of a function, with its result. -/
  | ret (value : Node)
  /-- A global variable. -/
  | global (name : String) (mutable : Bool) (typeName : Option String) (value : Node)
      (isList : Bool) (binding : Option Binding)
  /-- A function; parameters and their types are lists of their own. -/
  | function (name : String) (parameters : List String) (parameterTypes : List (Option String))
      (resultType : Option String) (body : List Node) (signature : Option Signature)
  /-- A whole program. -/
  | program (globals functions : List Node)
  deriving Repr, Inhabited

/-- The kinds of nodes. -/
inductive NodeKind where
  | literal
  | group
  | binary
  | access
  | call
  | listLiteral
  | discard
  | declaration
  | assignment
  | branch
  | case
  | switch
  | loop
  | ret
  | global
  | function
  | program
  deriving DecidableEq, Repr, Inhabited

namespace NodeKind

/-- Every kind of node. -/
def all : List NodeKind :=
  [program, global, function, discard, declaration, assignment, branch, switch, case, loop, ret,
    literal, group, binary, access, call, listLiteral]

/-- The name of a kind in the JSON form of trees and in messages. -/
def name : NodeKind → String
  | literal => "Literal"
  | group => "Group"
  | binary => "Binary"
  | access => "Access"
  | call => "Call"
  | listLiteral => "ListLiteral"
  | discard => "ExpressionStmt"
  | declaration => "Declaration"
  | assignment => "Assignment"
  | branch => "If"
  | case => "Case"
  | switch => "Switch"
  | loop => "While"
  | ret => "Return"
  | global => "Global"
  | function => "Function"
  | program => "Program"

/-- The kind with a given name. -/
def ofName? (text : String) : Option NodeKind :=
  all.find? fun kind => kind.name == text

theorem ofName?_name (kind : NodeKind) : ofName? kind.name = some kind := by
  cases kind <;> decide

end NodeKind

namespace Node

/-- The kind of a node; `null` has none. -/
def kind? : Node → Option NodeKind
  | null => none
  | literal .. => some .literal
  | group .. => some .group
  | binary .. => some .binary
  | access .. => some .access
  | call .. => some .call
  | listLiteral .. => some .listLiteral
  | discard .. => some .discard
  | declaration .. => some .declaration
  | assignment .. => some .assignment
  | branch .. => some .branch
  | case .. => some .case
  | switch .. => some .switch
  | loop .. => some .loop
  | ret .. => some .ret
  | global .. => some .global
  | function .. => some .function
  | program .. => some .program

/-- Whether a child is absent. -/
def isNull : Node → Bool
  | null => true
  | _ => false

/-- The name of a node of a kind that has one. -/
def name? : Node → Option String
  | access name .. => some name
  | call name .. => some name
  | declaration name .. => some name
  | global name .. => some name
  | function name .. => some name
  | _ => none

/-- The type that an expression is annotated with. -/
def type? : Node → Option Ty
  | literal _ t => t
  | group _ t => t
  | binary _ _ _ t => t
  | access _ _ t _ => t
  | call _ _ t _ => t
  | listLiteral _ t => t
  | _ => none

/-- The value of a node of a kind that has one; the value may be absent. -/
def value? : Node → Option Node
  | declaration _ _ value _ => some value
  | assignment _ value => some value
  | case value _ => some value
  | ret value => some value
  | global _ _ _ value _ _ => some value
  | _ => none

/-- A node with another value, if its kind has one. -/
def withValue (node value : Node) : Node :=
  match node with
  | declaration name typeName _ binding => declaration name typeName value binding
  | assignment receiver _ => assignment receiver value
  | case _ body => case value body
  | ret _ => ret value
  | global name mutable typeName _ isList binding =>
    global name mutable typeName value isList binding
  | other => other

mutual

/-- The tree without annotations. -/
def erase : Node → Node
  | null => null
  | literal value _ => literal value none
  | group inner _ => group inner.erase none
  | binary symbol left right _ => binary symbol left.erase right.erase none
  | access name offset _ _ => access name offset.erase none none
  | call name arguments _ _ => call name (eraseAll arguments) none none
  | listLiteral values _ => listLiteral (eraseAll values) none
  | discard expression => discard expression.erase
  | declaration name typeName value _ => declaration name typeName value.erase none
  | assignment receiver value => assignment receiver.erase value.erase
  | branch condition thenBody elseBody =>
    branch condition.erase (eraseAll thenBody) (eraseAll elseBody)
  | case value body => case value.erase (eraseAll body)
  | switch condition cases => switch condition.erase (eraseAll cases)
  | loop condition body => loop condition.erase (eraseAll body)
  | ret value => ret value.erase
  | global name mutable typeName value isList _ =>
    global name mutable typeName value.erase isList none
  | function name parameters parameterTypes resultType body _ =>
    function name parameters parameterTypes resultType (eraseAll body) none
  | program globals functions => program (eraseAll globals) (eraseAll functions)

/-- Several trees without annotations. -/
def eraseAll : List Node → List Node
  | [] => []
  | node :: rest => node.erase :: eraseAll rest

end

theorem eraseAll_eq_map (nodes : List Node) : eraseAll nodes = nodes.map erase := by
  induction nodes with
  | nil => rfl
  | cons node rest ih => rw [eraseAll, ih, List.map_cons]

theorem kind?_erase (node : Node) : node.erase.kind? = node.kind? := by
  cases node <;> rfl

theorem isNull_erase (node : Node) : node.erase.isNull = node.isNull := by
  cases node <;> rfl

end Node

end BlockScript
