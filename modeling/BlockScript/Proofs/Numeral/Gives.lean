import BlockScript.Evaluation.Interpreter
import BlockScript.Proofs.Scoped.World
/-!
# Runs up to their transcript

What a computation gives does not depend on what stands in the transcript, and most expressions
change nothing else. So what computations do can be put together without a thought of the notes that
they take in between.

## Main definitions

* `Run.Leads` — a computation gives a value and gets from one state to another
* `Run.Gives` — a computation gives a value and only takes notes

## Main results

* `gives_binary`, `gives_access`, `gives_call` — expressions
* `gives_invoke`, `gives_return` — functions that return at once
* `leads_runProgram` — programs without global variables
-/

namespace BlockScript

open Scoped (bind_apply)

namespace Run

variable {α β : Type} {world middle after : World} {a : α} {b : β}

/-- From every state that is `world` up to its transcript, a computation gives a value and gets to a
state that is `after` up to its transcript. -/
def Leads (world : World) (x : Run α) (value : α) (after : World) : Prop :=
  ∀ transcript, ∃ behind,
    x { world with transcript } = .ok value { after with transcript := behind }

/-- A computation gives a value and only takes notes. -/
abbrev Gives (world : World) (x : Run α) (value : α) : Prop :=
  Leads world x value world

theorem Leads.bind {x : Run α} {next : α → Run β} (hx : Leads world x a middle)
    (hnext : Leads middle (next a) b after) : Leads world (x >>= next) b after := by
  intro transcript
  obtain ⟨between, hbetween⟩ := hx transcript
  obtain ⟨behind, hbehind⟩ := hnext between
  exact ⟨behind, by rw [bind_apply, hbetween, ← hbehind]⟩

/-- What is given in a state itself. -/
theorem Leads.exists_eq {x : Run α} (h : Leads world x a after) :
    ∃ transcript, x world = .ok a { after with transcript } :=
  h world.transcript

theorem gives_pure (world : World) (a : α) : Gives world (pure a) a :=
  fun transcript => ⟨transcript, rfl⟩

theorem gives_note (world : World) (level : Int) (text : World → String) :
    Gives world (note level text) () :=
  fun _ => ⟨_, rfl⟩

theorem gives_findVariable {locals : DynamicChain} {name : String} {slot : Slot}
    (h : (locals ++ world.outerChain).lookupVariable name = .ok slot) :
    Gives world (findVariable locals name) slot := by
  refine fun transcript => ⟨transcript, ?_⟩
  change ofScope ((locals ++ world.outerChain).lookupVariable name) _ = _
  rw [h]
  rfl

theorem gives_findFunction {locals : DynamicChain} {name : String} {arity : Nat}
    {routine : Routine} (h : (locals ++ world.outerChain).lookupFunction name arity = .ok routine) :
    Gives world (findFunction locals name arity) routine := by
  refine fun transcript => ⟨transcript, ?_⟩
  change ofScope ((locals ++ world.outerChain).lookupFunction name arity) _ = _
  rw [h]
  rfl

end Run

section

variable {fuel : Nat} {locals inner : DynamicChain} {world : World} {left right value : Node}
  {arguments rest body : List Node} {symbol name : String} {type : Option Ty}

open Run

theorem gives_access {binding : Option Binding} {slot : Slot}
    (h : (locals ++ world.outerChain).lookupVariable name = .ok slot) :
    Gives world (evaluate (fuel + 1) locals (.access name .null type binding)) slot.value := by
  rw [evaluate]
  exact (gives_findVariable h).bind (gives_pure world _)

theorem gives_applyToValues {x y result : Scalar}
    (h : applySymbol symbol (.scalar x) (.scalar y) = .ok result) :
    Gives world (applyToValues symbol (.scalar x) (.scalar y)) (.scalar result) := by
  refine fun transcript => ⟨transcript, ?_⟩
  rw [applyToValues, Scoped.get_bind_apply, World.datum_scalar, World.datum_scalar, h]
  rfl

/-- An operator that is not logical has the value that it has on the values of its operands. -/
theorem gives_binary {x y result : Scalar} (hand : symbol ≠ "&&") (hor : symbol ≠ "||")
    (hleft : Gives world (evaluate fuel locals left) (.scalar x))
    (hright : Gives world (evaluate fuel locals right) (.scalar y))
    (h : applySymbol symbol (.scalar x) (.scalar y) = .ok result) :
    Gives world (evaluate (fuel + 1) locals (.binary symbol left right type))
      (.scalar result) := by
  rw [evaluate]
  refine hleft.bind ?_
  rw [if_neg hand, if_neg hor]
  exact hright.bind (gives_applyToValues h)

/-- A call has the value that its function gives for the values of the arguments. -/
theorem gives_call {values : List Value} {routine : Routine} {result : Value}
    {callee : Option Signature} (hvalues : Gives world (evaluateAll fuel locals arguments) values)
    (hfind : (locals ++ world.outerChain).lookupFunction name values.length = .ok routine)
    (hinvoke : Gives world (invoke fuel routine values) result) :
    Gives world (evaluate (fuel + 1) locals (.call name arguments type callee)) result := by
  rw [evaluate]
  exact hvalues.bind ((gives_findFunction hfind).bind ((gives_note world _ _).bind hinvoke))

/-- A statement that ends its function with a value. -/
theorem gives_return {result : Value} (h : Gives world (evaluate fuel locals value) result) :
    Gives world (executeBlock (fuel + 2) locals (.ret value :: rest)) (some result, locals) := by
  have hstatement : Gives world (execute (fuel + 1) locals (.ret value)) (some result, locals) := by
    rw [execute]
    exact h.bind (gives_pure world (some result, locals))
  rw [executeBlock]
  exact hstatement.bind (gives_pure world (some result, locals))

/-- A function gives what ends its body. -/
theorem gives_invoke {parameters : List String} {values : List Value} {result : Value}
    {after : DynamicChain} (hlength : values.length = parameters.length)
    (hbind : Gives world (bindParameters parameters values [{}]) inner)
    (hbody : Gives world (executeBlock fuel inner body) (some result, after)) :
    Gives world (invoke (fuel + 1) (.defined name parameters body) values) result := by
  rw [invoke, if_pos hlength]
  exact hbind.bind (hbody.bind ((gives_note world _ _).bind (gives_pure world _)))

/-- The definition of a function whose name and arity are new. -/
theorem leads_defineFunction {parameters : List String} {parameterTypes : List (Option String)}
    {resultType : Option String} {signature : Option Signature} {top : DynamicFrame}
    (h : world.top.defineFunction name parameters.length (.defined name parameters body) =
      .ok top) :
    Leads world
      (defineFunction (.function name parameters parameterTypes resultType body signature)) ()
      { world with top } := by
  intro transcript
  let noted := transcript.note 2 fun _ =>
    "define function " ++ name ++ "/" ++ toString parameters.length
  refine ⟨noted, ?_⟩
  rw [defineFunction, Scoped.get_bind_apply]
  simp only [h]
  rfl

/-- A program without global variables gives what its function `main` gives, once all functions are
defined. -/
theorem leads_runProgram {functions : List Node} {after : World} {result : Value}
    (hdefine : Leads world (functions.forM defineFunction) () after)
    (hmain : Gives after (callByName fuel "main" 0 []) result) :
    Leads world (runProgram fuel (.program [] functions)) result after := by
  rw [runProgram]
  refine (gives_note world _ _).bind ((gives_pure world ()).bind (hdefine.bind (hmain.bind ?_)))
  exact (gives_note after _ _).bind (gives_pure after result)

end

end BlockScript
