import BlockScript.Proofs.Order.Calls
import BlockScript.Proofs.Watched.World
/-!
# What statements do step by step

While a statement is executed, its expressions get their values and its calls are made. Operands
come before the expression that they belong to, and the arguments before the call. A logical
operator leaves out its right operand just if the value of the left one decides.

If nothing is left out, all calls of the statement are made.

## Main definitions

* `Watched.Decides` — values of left operands that are the value of the whole operation
* `Watched.Evaluates`, `Watched.Executes` — the steps of expressions and statements
* `Watched.callsOf` — the calls among steps

## Main results

* `Watched.Executes.eq_calls` — if no operand is left out, all calls are made
-/

namespace BlockScript

namespace Watched

/-- The call that is made in a step. -/
def Event.call? : Event → Option Node
  | .invoked node _ => some node
  | _ => none

/-- The calls that are made in several steps. -/
def callsOf (steps : List Event) : List Node :=
  steps.filterMap Event.call?

/-- Whether the value of the left operand is the value of a logical operation. -/
def Decides (symbol : String) (first : Value) : Prop :=
  symbol = "&&" ∧ first = .scalar (.boolean false) ∨
    symbol = "||" ∧ first = .scalar (.boolean true)

@[simp]
theorem decides_and {first : Value} : Decides "&&" first ↔ first = .scalar (.boolean false) := by
  simp [Decides]

@[simp]
theorem decides_or {first : Value} : Decides "||" first ↔ first = .scalar (.boolean true) := by
  simp [Decides]

mutual

/-- The steps of an expression that gets a value, with the number of operands that are left out. -/
inductive Evaluates : Nat → Node → Value → List Event → Prop
  | evaluated {m node value steps} : Computes m node value steps →
      Evaluates m node value (steps ++ [.evaluated node value])

/-- The steps up to the one in which the expression gets its value. -/
inductive Computes : Nat → Node → Value → List Event → Prop
  | literal {value type} : Computes 0 (.literal value type) (.scalar value) []
  | group {m inner type value steps} : Evaluates m inner value steps →
      Computes m (.group inner type) value steps
  -- whether the right operand is left out depends on the value that the left one has got
  | binary {m n symbol left right type first second value steps others} :
      Evaluates m left first steps → ¬Decides symbol first → Evaluates n right second others →
      Computes (m + n) (.binary symbol left right type) value (steps ++ others)
  | shortened {m symbol left right type value steps} : Evaluates m left value steps →
      Decides symbol value → Computes (m + 1) (.binary symbol left right type) value steps
  | variable {name type binding value} : Computes 0 (.access name .null type binding) value []
  | element {m name offset type binding position value steps} :
      Evaluates m offset position steps →
      Computes m (.access name offset type binding) value steps
  | call {m name arguments type callee routine value steps} :
      EvaluatesAll m arguments steps →
      Computes m (.call name arguments type callee) value
        (steps ++ [.invoked (.call name arguments type callee) routine])
  | listLiteral {m nodes type value steps} : EvaluatesAll m nodes steps →
      Computes m (.listLiteral nodes type) value steps

/-- The steps of several expressions. -/
inductive EvaluatesAll : Nat → List Node → List Event → Prop
  | nil : EvaluatesAll 0 [] []
  | cons {m n node rest value steps others} : Evaluates m node value steps →
      EvaluatesAll n rest others → EvaluatesAll (m + n) (node :: rest) (steps ++ others)

end

/-- The steps of a statement without blocks, with the number of operands that are left out. -/
inductive Executes : Nat → Node → List Event → Prop
  | discard {m expression value steps} : Evaluates m expression value steps →
      Executes m (.discard expression) steps
  | undefined {name typeName binding} : Executes 0 (.declaration name typeName .null binding) []
  | declaration {m name typeName node binding value steps} : Evaluates m node value steps →
      Executes m (.declaration name typeName node binding) steps
  | assignment {m name type binding node value steps} : Evaluates m node value steps →
      Executes m (.assignment (.access name .null type binding) node) steps
  | element {m n name offset type binding node value position steps others} :
      Evaluates m node value steps → Evaluates n offset position others →
      Executes (m + n) (.assignment (.access name offset type binding) node) (steps ++ others)
  | ret {m node value steps} : Evaluates m node value steps → Executes m (.ret node) steps

/-! ### Calls in steps -/

section

variable {m : Nat} {node : Node} {value : Value} {steps others : List Event}

theorem callsOf_append : callsOf (steps ++ others) = callsOf steps ++ callsOf others :=
  List.filterMap_append

/-- When an expression gets its value, no call is made. -/
theorem callsOf_evaluated : callsOf (steps ++ [.evaluated node value]) = callsOf steps := by
  rw [callsOf_append]
  exact List.append_nil _

theorem callsOf_invoked {routine : Routine} :
    callsOf (steps ++ [.invoked node routine]) = callsOf steps ++ [node] :=
  callsOf_append

end

mutual

theorem Evaluates.eq_calls : ∀ {m : Nat} {node : Node} {value : Value} {steps : List Event},
    Evaluates m node value steps → m = 0 → callsOf steps = node.calls
  | _, _, _, _, .evaluated h, hm => callsOf_evaluated.trans (h.eq_calls hm)

theorem Computes.eq_calls : ∀ {m : Nat} {node : Node} {value : Value} {steps : List Event},
    Computes m node value steps → m = 0 → callsOf steps = node.calls
  | _, _, _, _, .literal, _ | _, _, _, _, .variable, _ => rfl
  | _, _, _, _, .group h, hm | _, _, _, _, .element h, hm => h.eq_calls hm
  | _, _, _, _, .binary hleft _ hright, hm => by
    rw [callsOf_append, hleft.eq_calls (by omega), hright.eq_calls (by omega)]
    rfl
  | _, _, _, _, .shortened _ _, hm => absurd hm (Nat.succ_ne_zero _)
  | _, _, _, _, .call h, hm => by rw [callsOf_invoked, h.eq_calls hm, Node.calls]
  | _, _, _, _, .listLiteral h, hm => h.eq_calls hm

theorem EvaluatesAll.eq_calls : ∀ {m : Nat} {nodes : List Node} {steps : List Event},
    EvaluatesAll m nodes steps → m = 0 → callsOf steps = Node.callsInAll nodes
  | _, _, _, .nil, _ => rfl
  | _, _, _, .cons h hrest, hm => by
    rw [callsOf_append, h.eq_calls (by omega), hrest.eq_calls (by omega), Node.callsInAll]

end

section

variable {m : Nat} {statement : Node} {steps : List Event}

/-- If no operand is left out, all calls are made. -/
theorem Executes.eq_calls (h : Executes m statement steps) (hm : m = 0) :
    callsOf steps = statement.calls := by
  cases h with
  | discard h | declaration h | ret h => exact h.eq_calls hm
  | undefined => rfl
  | assignment h =>
    rw [Node.calls_assignment_variable]
    exact h.eq_calls hm
  | element h hoffset =>
    rw [callsOf_append, h.eq_calls (by omega), hoffset.eq_calls (by omega)]
    rfl

end

end Watched

end BlockScript
