import BlockScript.Proofs.Repetition.Global
/-!
# Checking programs twice

A check of a program looks at its functions twice, first for their signatures and then for their
bodies. So the functions that are declared the second time are those that the check of the bodies
has left behind.

## Main definitions

* `IsSettledProgram` — a program whose list literals are settled, those of global lists apart

## Main results

* `again_program` — a check of a program that a check has left behind
-/

namespace BlockScript

open Checked (Again bind_of_some bind_eq_after)

/-- The list literals of a program are settled. Those that are values of global variables are asked
for their values only. -/
def IsSettledProgram : Node → Prop
  | .program globals functions =>
    (∀ node ∈ globals, node.forgetElementTy.IsSettled) ∧ ∀ node ∈ functions, node.IsSettled
  | _ => True

theorem again_globals (tables : Tables) (globals : List Node) :
    let checked := checkEach checkGlobal tables globals
    Again (∀ node ∈ checked.result.1, node.forgetElementTy.IsSettled) checked
      (checkEach checkGlobal tables checked.result.1) :=
  @again_each checkGlobal (fun node => node.forgetElementTy.IsSettled) again_global globals tables

/-- Functions are declared again as they were, even if some could not be declared. -/
theorem again_signatures (tables : Tables) (functions : List Node) :
    checkEach declareFunction tables (checkEach declareFunction tables functions).result.1 =
      checkEach declareFunction tables functions := by
  have h := @again_each declareFunction (fun _ => True)
    (fun tables node => .inl (again_signature tables node)) functions tables
  exact h.resolve_right fun h => h.1 fun _ _ => trivial

/-- Functions whose bodies have been checked are declared as they were before. -/
theorem declareFunctions_checked {tables : Tables} {functions : List Node} (behind : Tables)
    (h : (checkEach declareFunction tables functions).fault = none) :
    let declared := checkEach declareFunction tables functions
    let checked := (checkEach checkFunction behind declared.result.1).result.1
    checkEach declareFunction tables checked =
      declared.map fun outcome => (checked, outcome.2) := by
  have hrefl : ∀ node : Node, ∃ body, node = node.withBody body := by
    intro node
    cases node with
    | function _ _ _ _ body _ => exact ⟨body, rfl⟩
    | _ => exact ⟨[], rfl⟩
  have hbodies := leaves_each (R := fun node result => ∃ body, result = node.withBody body)
    (I := fun _ => True) hrefl (fun tables _ node => ⟨leaves_withBody tables node, trivial⟩)
    (checkEach declareFunction tables functions).result.1 behind trivial
  exact declareFunctions_withBody h hbodies.1

/-- Declares functions and checks their bodies. -/
def checkFunctions (tables : Tables) (functions : List Node) : Checked (List Node × Tables) :=
  (checkEach declareFunction tables functions).bind id fun (functions, tables) =>
  checkEach checkFunction tables functions

theorem annotates_functions (tables : Tables) (functions : List Node) :
    (checkFunctions tables functions).Leaves fun outcome =>
      Node.eraseAll outcome.1 = Node.eraseAll functions := by
  refine (annotates_each annotates_signature tables functions).bind (fun _ h => h) ?_
  rintro ⟨signed, declared⟩ hsigned
  exact (annotates_each annotates_function declared signed).trans hsigned

theorem again_functions (tables : Tables) (functions : List Node) :
    let checked := checkFunctions tables functions
    Again (∀ node ∈ checked.result.1, node.IsSettled) checked
      (checkFunctions tables checked.result.1) := by
  dsimp only
  rw [checkFunctions]
  cases hdeclared : (checkEach declareFunction tables functions).fault with
  | some fault =>
    rw [bind_of_some hdeclared]
    change Again _ _ (checkFunctions tables (checkEach declareFunction tables functions).result.1)
    rw [checkFunctions, again_signatures]
    exact .stop (.refl _) id hdeclared rfl
  -- the second time, what is declared are the functions with the bodies that were checked
  | none =>
    rw [bind_eq_after hdeclared]
    have hbodies := @again_each checkFunction Node.IsSettled again_function
      (checkEach declareFunction tables functions).result.1
      (checkEach declareFunction tables functions).result.2
    have hsame := declareFunctions_checked
      (checkEach declareFunction tables functions).result.2 hdeclared
    change Again _ _ (checkFunctions tables (checkEach checkFunction _ _).result.1)
    rw [checkFunctions, bind_eq_after (by rw [hsame]; exact hdeclared), hsame]
    exact hbodies.after _

theorem checkProgram_program (tables : Tables) (globals functions : List Node) :
    checkProgram tables (.program globals functions) =
      Checked.bind
        (.noted 1 ("analyze: " ++ toString globals.length ++ " globals, " ++
          toString functions.length ++ " functions") ())
        (fun _ => (.program globals functions, tables)) fun _ =>
      (checkEach checkGlobal tables globals).bind
        (fun (globals, tables) => (.program globals functions, tables)) fun (globals, tables) =>
      (checkFunctions tables functions).map fun (functions, tables) =>
        (.program globals functions, tables) := by
  have hfunctions : ∀ (globals : List Node) (tables : Tables),
      ((checkFunctions tables functions).map fun (functions, tables) =>
        (Node.program globals functions, tables)) =
      (checkEach declareFunction tables functions).bind
        (fun (functions, tables) => (.program globals functions, tables))
        fun (functions, tables) => (checkEach checkFunction tables functions).map
          fun (functions, tables) => (.program globals functions, tables) := by
    intro globals tables
    unfold checkFunctions Checked.bind
    cases (checkEach declareFunction tables functions).fault <;> rfl
  simp only [hfunctions]
  rfl

/-- A check of the program that an earlier check has left behind finds what the earlier one has
found, unless it disowns a value. -/
theorem again_program (tables : Tables) (node : Node) :
    let checked := checkProgram tables node
    Again (IsSettledProgram checked.result.1) checked (checkProgram tables checked.result.1) := by
  cases node with
  | program globals functions =>
    have hglobals := again_globals tables globals
    -- the note in front says how many parts there are
    have hglobalsLength : (checkEach checkGlobal tables globals).result.1.length = globals.length :=
      Node.length_eq_of_eraseAll_eq (annotates_each annotates_global tables globals)
    dsimp only
    rw [checkProgram_program, bind_eq_after rfl]
    cases hfault : (checkEach checkGlobal tables globals).fault with
    | some fault =>
      rw [bind_of_some hfault]
      change Again _ _ (checkProgram tables
        (.program (checkEach checkGlobal tables globals).result.1 functions))
      rw [checkProgram_program, hglobalsLength]
      exact .go (.refl _) id rfl (hglobals.stop And.left hfault rfl)
    | none =>
      rw [bind_eq_after hfault]
      have hfunctions := again_functions (checkEach checkGlobal tables globals).result.2 functions
      have hfunctionsLength :
          (checkFunctions (checkEach checkGlobal tables globals).result.2 functions).result.1.length
            = functions.length :=
        Node.length_eq_of_eraseAll_eq (annotates_functions _ functions)
      change Again _ _ (checkProgram tables (.program
        (checkEach checkGlobal tables globals).result.1 (checkFunctions _ functions).result.1))
      rw [checkProgram_program, hglobalsLength, hfunctionsLength]
      refine .go (.refl _) id rfl (hglobals.go And.left hfault ?_)
      exact hfunctions.map And.right rfl
  | _ => exact .refl _

end BlockScript
