import BlockScript.Proofs.Accepted
import BlockScript.Proofs.Order.Emitted
import BlockScript.Proofs.Order.Run
/-!
# Calls are made in the same order in Java

An accepted program has a Java form in which every statement without blocks has its calls in the
order of the rules of evaluation, but for one difference: Java evaluates the index of an element
before the value that is assigned to it, and the rules evaluate the offset behind the value. The
rules themselves are followed by every run, in which only right operands of logical operators can
be left out.

## Main definitions

* `Watched.CallsInOrder` — statements whose runs make their calls in order
* `EmitsMethod` — methods that have the calls of their functions

## Main results

* `calls_are_made_in_order` — emitted statements and their runs
* `element_is_assigned_out_of_order` — a program that calls two functions in different orders
-/

namespace BlockScript

open Node (AllSpelled)
open Tables (Spells)
open Watched (callsOf eraseOutcome eraseResult pointsBehind stepsAt Executes)

/-! ### Runs -/

/-- However a statement is executed, it makes some of its calls in their order and no others, and
all of them if it succeeds and no operand was left out because another one decided. -/
def Watched.CallsInOrder (statement : Node) : Prop :=
  ∀ fuel place world,
    let watched := Watched.execute fuel place statement world
    eraseResult eraseOutcome watched =
        BlockScript.execute fuel (Chain.erase place.locals) statement world.erase ∧
      ∃ points, pointsBehind watched = points ++ world.points ∧
        (callsOf (stepsAt place.depth points)).Sublist statement.calls ∧
        ∀ outcome after, watched = .ok outcome after →
          ∃ skipped, Executes skipped statement (stepsAt place.depth points) ∧
            (skipped = 0 → callsOf (stepsAt place.depth points) = statement.calls)

theorem Watched.callsInOrder_of_isSimple {statement : Node} (h : statement.isSimple = true) :
    CallsInOrder statement := by
  intro fuel place world
  obtain ⟨points, hpoints, hcalls, hsteps⟩ := stepsAt_execute h fuel place world
  refine ⟨erases_execute fuel place statement world, points, hpoints, hcalls, ?_⟩
  intro outcome after hrun
  obtain ⟨skipped, hexecutes⟩ := hsteps outcome after hrun
  exact ⟨skipped, hexecutes, hexecutes.eq_calls⟩

/-! ### Methods -/

/-- A method has the calls of the function that it is emitted from, statement by statement. -/
def EmitsMethod (function : Node) (method : Java.Method) : Prop :=
  ∃ f, function.signature? = some f ∧
    EmitsEach f.result function.simple (Java.simpleInAll method.body)

theorem TypedBody.emitsMethod {tables behind : Tables} {f : Signature} {name : String}
    {parameters : List String} {types : List (Option String)} {resultType : Option String}
    {bindings : List Binding} {body : List Node} {method : Java.Method}
    (h : TypedBody tables f parameters bindings body behind) (hspells : Spells tables.chain)
    (hnames : AllSpelled body)
    (hemit : emitFunction (.function name parameters types resultType body (some f)) = .ok method) :
    EmitsMethod (.function name parameters types resultType body (some f)) method := by
  cases h with
  | mk hreturn hparameters hbody =>
    obtain ⟨found, hfound, hemit⟩ := bind_eq_ok_iff.mp hemit
    cases hfound
    obtain ⟨forms, hforms, hemit⟩ := bind_eq_ok_iff.mp hemit
    cases hemit
    -- the tables of a body have the result and the parameters in addition
    have hinside := hparameters.grows.spells (hspells.enter.declare hreturn)
    exact ⟨f, rfl, hbody.emitsEach hinside hnames hforms⟩

theorem TypedFunctions.emitMethods {tables after : Tables} {functions : List Node}
    {bindings : List (List Binding)} {methods : List Java.Method}
    (h : TypedFunctions tables functions bindings after) (hspells : Spells tables.chain)
    (hnames : AllSpelled functions)
    (hemit : List.Forall₂ (fun node method => emitFunction node = .ok method) functions methods) :
    List.Forall₂ EmitsMethod functions methods := by
  induction h generalizing methods with
  | nil =>
    cases hemit
    exact .nil
  | cons _ hbody _ ih =>
    obtain ⟨hnamesFunction, hnamesRest⟩ := List.forall_mem_append.mp hnames
    have hnamesBody := Node.allSpelled_body hnamesFunction
    cases hemit with
    | cons hmethod hmethods =>
      exact .cons (hbody.emitsMethod hspells hnamesBody hmethod) (ih hspells hnamesRest hmethods)

/-! ### Programs -/

section

variable {source : String} {program annotated : Node} {tables : Tables}

/-- The calls in the emitted statements of an accepted program are those of its statements, in
the order in which every run makes them, but for the offset of an element that is assigned to, which
is evaluated behind the value and not before it. Nothing is said of the calls in a value that is
returned by a function without a result and is not itself a call. -/
theorem calls_are_made_in_order (hparse : parseProgram source = .ok program)
    (hcheck : (checkProgram .initial program).Yields (annotated, tables)) :
    ∃ globals functions java, annotated = .program globals functions ∧
      emitProgram annotated = .ok java ∧
      List.Forall₂ EmitsMethod functions java.methods ∧
      ∀ statement ∈ annotated.simple, Watched.CallsInOrder statement := by
  obtain ⟨globals, functions, rfl, htyped⟩ := typed_of_accepted hparse hcheck
  obtain ⟨java, -, hjava, -⟩ := emitProgram_of_perm htyped (.refl _)
  have hparts := hjava
  obtain ⟨fields, -, hparts⟩ := bind_eq_ok_iff.mp hparts
  obtain ⟨entry, -, hparts⟩ := bind_eq_ok_iff.mp hparts
  obtain ⟨methods, hmethods, hparts⟩ := bind_eq_ok_iff.mp hparts
  cases hparts
  obtain ⟨behind, declared, after, hglobals, hdeclared, hfunctions⟩ := htyped.exists_tables
  obtain ⟨-, hnames⟩ := List.forall_mem_append.mp (isSpelled_of_accepted hparse hcheck)
  have hspells := (hglobals.grows.spells .initial).declareFunctions hdeclared hnames
  refine ⟨globals, functions, _, rfl, hjava,
    hfunctions.emitMethods hspells hnames (mapM_eq_ok_iff.mp hmethods), ?_⟩
  exact fun statement hmem =>
    Watched.callsInOrder_of_isSimple (Node.isSimple_of_mem_simple _ statement hmem)

/-- In the sample program a value is assigned that a call returns. -/
theorem calls_are_made_in_order_sampleTree :
    parseProgram sampleSource = .ok sampleTree ∧
      (checkProgram .initial sampleTree).Yields (checkProgram .initial sampleTree).result ∧
      ∃ globals functions java,
        (checkProgram .initial sampleTree).result.1 = .program globals functions ∧
        emitProgram (.program globals functions) = .ok java ∧
        List.Forall₂ EmitsMethod functions java.methods := by
  refine ⟨parseProgram_sampleSource, yields_sampleTree, ?_⟩
  obtain ⟨globals, functions, java, hannotated, hjava, hcalls, -⟩ :=
    calls_are_made_in_order parseProgram_sampleSource yields_sampleTree.parts
  exact ⟨globals, functions, java, hannotated, hannotated ▸ hjava, hcalls⟩

end

/-! ### An element of a list -/

/-- A program that assigns to an element of a list. -/
def elementSource : String :=
  "LIST l = [1, 2]; FUN f(): Integer DO RETURN 0; END FUN g(): Integer DO RETURN 1; END " ++
    "FUN main() DO l[f()] = g(); END"

/-- The tree of the program. -/
def elementTree : Node :=
  .program [.global "l" true none
      (.listLiteral [.literal (.integer 1) none, .literal (.integer 2) none] none) true none]
    [.function "f" [] [] (some "Integer") [.ret (.literal (.integer 0) none)] none,
    .function "g" [] [] (some "Integer") [.ret (.literal (.integer 1) none)] none,
    .function "main" [] [] none
      [.assignment (.access "l" (.call "f" [] none none) none none) (.call "g" [] none none)] none]

/-- The assignment in Java. -/
def elementForm : Java.Statement :=
  .assignment (.element "l" (.call "f" [])) (.call "g" [])

/-- Java reads the call of the index before the other one. -/
theorem exists_trees_elementForm : ∃ trees,
    List.Forall₂ Java.Expression.StandsFor elementForm.expressions trees ∧
      trees.flatMap Java.Term.calls = [.call "f" [], .call "g" []] := by
  have hcall : ∀ name, Java.Denotes (.call name [] none (some
      { name, javaName := name, parameters := [], result := .integer })) (.call name []) :=
    fun _ => .call _ _ _ .nil
  have htarget : Java.Denotes _ (.element "l" (.call "f" [])) :=
    .element "l" none { number := 0, name := "l", type := none, mutable := true, isList := true }
      (hcall "f")
  obtain ⟨target, htargetForm, htarget⟩ :=
    Java.exists_standsFor htarget ⟨by decide, by decide, trivial⟩
  obtain ⟨value, hvalueForm, hvalue⟩ :=
    Java.exists_standsFor (hcall "g") ⟨by decide, trivial⟩
  cases htargetForm
  cases hvalueForm
  exact ⟨_, .cons htarget (.cons hvalue .nil), rfl⟩

/-- The program calls `g` first, and its Java form `f`. -/
theorem element_is_assigned_out_of_order :
    parseProgram elementSource = .ok elementTree ∧
      (checkProgram .initial elementTree).fault = none ∧
      (emitProgram (checkProgram .initial elementTree).result.1).toOption.map
          (fun java => java.methods.map Java.Method.body) =
        some [[.exit (some (.literal (.integer 0)))], [.exit (some (.literal (.integer 1)))],
          [elementForm]] ∧
      (∃ trees, List.Forall₂ Java.Expression.StandsFor elementForm.expressions trees ∧
        trees.flatMap Java.Term.calls = [.call "f" [], .call "g" []]) ∧
      (callsOf (stepsAt 1 (pointsBehind (Watched.runProgram 20 (parameterBindings elementTree)
        (checkProgram .initial elementTree).result.1 (.initial { verbosity := 0 }))))).map
          Node.name? = [some "g", some "f"] :=
  ⟨by cbv, by cbv, by cbv, exists_trees_elementForm, by cbv⟩

end BlockScript
