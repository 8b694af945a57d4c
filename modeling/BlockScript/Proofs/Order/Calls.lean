import BlockScript.Node
/-!
# Calls in the order of evaluation

Operands are evaluated from left to right, and the arguments of a call before the call is made. A
statement that assigns to an element of a list evaluates the offset of the element behind the value;
Java does it the other way around.

## Main definitions

* `Node.calls` — the calls in an expression or a statement, if nothing is left out
* `Node.callsInJava` — the same calls in Java's order
* `Node.simple` — the statements without blocks in a tree
-/

namespace BlockScript

namespace Node

mutual

/-- The calls in an expression or a statement, in the order in which they are made. -/
def calls : Node → List Node
  | group inner _ => inner.calls
  | binary _ left right _ => left.calls ++ right.calls
  | access _ offset _ _ => offset.calls
  | call name arguments type callee => callsInAll arguments ++ [call name arguments type callee]
  | listLiteral values _ => callsInAll values
  | discard expression => expression.calls
  | declaration _ _ value _ => value.calls
  | assignment receiver value => value.calls ++ receiver.calls
  | ret value => value.calls
  | _ => []

/-- The calls in several expressions. -/
def callsInAll : List Node → List Node
  | [] => []
  | node :: rest => node.calls ++ callsInAll rest

end

/-- There is no offset if the value of a variable is changed. -/
theorem calls_assignment_variable {name : String} {type : Option Ty} {binding : Option Binding}
    {value : Node} : (assignment (access name null type binding) value).calls = value.calls :=
  List.append_nil value.calls

/-- The same calls in the order that Java makes them in: the index of an element comes before the
value that is assigned to it. -/
def callsInJava : Node → List Node
  | assignment receiver value => receiver.calls ++ value.calls
  | other => other.calls

/-- Whether calls of a statement are not emitted: in a function without a result, a value that is
returned is, if it is not itself a call. -/
def LosesCalls (result : Ty) : Node → Prop
  | ret value => result = .nil ∧ value.kind? ≠ some .call ∧ value.calls ≠ []
  | _ => False

/-- Whether a node is a statement without any blocks. -/
def isSimple : Node → Bool
  | discard _ | declaration .. | assignment .. | ret _ => true
  | _ => false

mutual

/-- The statements without blocks in a tree, in the order of the source. -/
def simple : Node → List Node
  | branch _ thenBody elseBody => simpleInAll thenBody ++ simpleInAll elseBody
  | case _ body => simpleInAll body
  | switch _ cases => simpleInAll cases
  | loop _ body => simpleInAll body
  | function _ _ _ _ body _ => simpleInAll body
  | program _ functions => simpleInAll functions
  | other => if other.isSimple then [other] else []

/-- The statements without blocks in several trees. -/
def simpleInAll : List Node → List Node
  | [] => []
  | node :: rest => node.simple ++ simpleInAll rest

end

mutual

theorem isSimple_of_mem_simple : ∀ node : Node, ∀ statement ∈ node.simple,
    statement.isSimple = true
  | branch _ thenBody elseBody => List.forall_mem_append.mpr
    ⟨isSimple_of_mem_simpleInAll thenBody, isSimple_of_mem_simpleInAll elseBody⟩
  | case _ body | loop _ body | function _ _ _ _ body _ => isSimple_of_mem_simpleInAll body
  | switch _ cases => isSimple_of_mem_simpleInAll cases
  | program _ functions => isSimple_of_mem_simpleInAll functions
  | discard _ | declaration .. | assignment .. | ret _ => List.forall_mem_singleton.mpr rfl
  | null | literal .. | group .. | binary .. | access .. | call .. | listLiteral .. | global .. =>
    fun _ hmem => absurd hmem List.not_mem_nil

theorem isSimple_of_mem_simpleInAll : ∀ nodes : List Node, ∀ statement ∈ simpleInAll nodes,
    statement.isSimple = true
  | [] => fun _ hmem => absurd hmem List.not_mem_nil
  | node :: rest => List.forall_mem_append.mpr
    ⟨isSimple_of_mem_simple node, isSimple_of_mem_simpleInAll rest⟩

end

end Node

end BlockScript
