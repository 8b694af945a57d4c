import BlockScript.Node
/-!
# Trees of the wrong shape

Trees that were read from their JSON form may hold a node where it has no meaning. Whoever walks
the tree stops there.

## Main definitions

* `Activity` — what was being done to a node
* `ShapeError` — what was wrong with the node
-/

namespace BlockScript

/-- What can be done to a node. -/
inductive Activity where
  | checkStatement
  | checkExpression
  | execute
  | evaluate
  | emitStatement
  | emitExpression
  deriving DecidableEq, Repr, Inhabited

namespace Activity

/-- The activity in words. -/
def text : Activity → String
  | checkStatement => "checking a statement"
  | checkExpression => "checking an expression"
  | execute => "executing a statement"
  | evaluate => "evaluating an expression"
  | emitStatement => "emitting a statement"
  | emitExpression => "emitting an expression"

end Activity

/-- Why a tree cannot be walked. -/
inductive ShapeError where
  /-- A node of this kind, or no node, stands where the activity has no rule for it. -/
  | unexpected (activity : Activity) (kind : Option NodeKind)
  /-- A node lacks a part or an annotation that is needed where it stands. -/
  | incomplete
  deriving DecidableEq, Repr

namespace ShapeError

/-- The error in words. -/
def message : ShapeError → String
  | unexpected activity kind =>
    activity.text ++ ": unexpected " ++ (kind.map NodeKind.name).getD "absence of a node"
  | incomplete => "incomplete node"

end ShapeError

end BlockScript
