import BlockScript.Proofs.Analysis.Distinct
import BlockScript.Proofs.Parser.Derivation
import BlockScript.Proofs.Watched.Erasure
import BlockScript.Proofs.Watched.Program
import Mathlib
/-!
# Runs of accepted programs

A program is accepted if it is the tree of a source text and the analysis finds no fault in it. Its
runs keep what the analysis has found: values have the types of their expressions and variables, and
names mean what they are annotated with. Both are said of what happens in runs with any amount of
fuel, so they hold at every moment of a run that never ends as well.

## Main definitions

* `EvaluationError.kinds` — the kinds of values that an error is about
* `EvaluationError.isAboutNames` — errors that the analysis rules out

## Main results

* `values_fit_types` — values fit their types, and nil is to blame for errors about kinds
* `names_mean_annotations` — names mean what they are annotated with
-/

namespace BlockScript

open Watched (eraseResult pointsBehind)

namespace EvaluationError

/-- The kinds of the values that an operator, a condition or an offset refused. -/
def kinds : EvaluationError → List Kind
  | notBoolean received => [received]
  | offsetNotInteger received => [received]
  | unsupportedOperands _ left right => [left, right]
  | _ => []

/-- Whether an error is about a name, or about the form of a program. -/
def isAboutNames : EvaluationError → Bool
  | scope _ | wrongArgumentCount .. | notList _ | immutable _ | notAssignable
  | unsupportedOperator _ => true
  | _ => false

end EvaluationError

section

variable {source : String} {program annotated : Node} {tables : Tables}

/-- What the analysis makes of the tree of a source text is well typed if it finds no fault. -/
theorem typed_of_accepted (hparse : parseProgram source = .ok program)
    (hcheck : (checkProgram .initial program).Yields (annotated, tables)) :
    ∃ globals functions, annotated = .program globals functions ∧
      TypedProgram globals functions (parameterBindings program) := by
  obtain ⟨tokens, htokens, hprogram⟩ := Parser.exists_program_of_parseProgram hparse
  exact typed_of_checkProgram hprogram htokens hcheck

/-- A run that fails does so with the same failure when it is watched. -/
theorem exists_world_of_eraseResult {result : EStateM.Result Failure Watched.World Value}
    {failure : Failure} {after : World} (h : eraseResult id result = .error failure after) :
    ∃ world, result = .error failure world := by
  cases result with
  | ok value world => cases h
  | error own world =>
    cases h
    exact ⟨world, rfl⟩

/-- In every run of an accepted program, however much of it there is, an expression that is no list
literal has a value that fits its type, a variable holds a value or a list of values that fit its
type, and an error about kinds of values names nil, unless it comes from an order of values of which
the left one's type says only that it can be compared. -/
theorem values_fit_types (hparse : parseProgram source = .ok program)
    (hcheck : (checkProgram .initial program).Yields (annotated, tables)) (fuel : Nat)
    (transcript : Transcript) :
    let watched :=
      Watched.runProgram fuel (parameterBindings program) annotated (.initial transcript)
    let plain := runProgram fuel annotated { top := {}, heap := #[], transcript }
    eraseResult id watched = plain ∧
      (∀ point ∈ pointsBehind watched, point.Typed) ∧
      ∀ e after, plain = .error (.error e) after → e.kinds ≠ [] → Kind.nil ∈ e.kinds ∨
        ∃ symbol left right type,
          (pointsBehind watched).head?.map Watched.Point.event =
            some (.refused (.binary symbol left right type) (.error e)) ∧
          (symbol = "<" ∨ symbol = ">") ∧ left.type? = some .comparable := by
  intro watched plain
  obtain ⟨globals, functions, rfl, htyped⟩ := typed_of_accepted hparse hcheck
  have herase : eraseResult id watched = plain :=
    Watched.erases_runProgram fuel _ _ (.initial transcript)
  obtain ⟨hpoints, -, hfails⟩ := Watched.sound_runProgram htyped fuel transcript rfl
  refine ⟨herase, hpoints, ?_⟩
  intro e after hplain hkinds
  obtain ⟨world, hworld⟩ := exists_world_of_eraseResult (herase.trans hplain)
  rcases (hfails _ world hworld).excuse with ⟨node, hlast, hexcuse⟩ | ⟨rfl, -⟩
  · cases hexcuse with
    | divisionByZero | negativeExponent | offsetOutOfRange => exact absurd rfl hkinds
    | notBoolean | offsetNotInteger => exact .inl List.mem_cons_self
    | left => exact .inl List.mem_cons_self
    | right => exact .inl (List.mem_cons_of_mem _ List.mem_cons_self)
    | @order op left right type _ _ hop htype =>
      refine .inr ⟨op.text, left, right, type, ?_, ?_, htype⟩
      · rw [show watched = _ from hworld]
        exact hlast
      · rcases hop with rfl | rfl
        · exact .inl rfl
        · exact .inr rfl
  · exact absurd rfl hkinds

/-- A program that calls a function with a global variable and assigns to the variable. -/
def sampleSource : String :=
  "VAR n = 1; FUN twice(x: Integer): Integer DO RETURN x + x; END FUN main() DO n = twice(n); END"

/-- The tree of the program. -/
def sampleTree : Node :=
  .program [.global "n" true none (.literal (.integer 1) none) false none]
    [.function "twice" ["x"] [some "Integer"] (some "Integer")
      [.ret (.binary "+" (.access "x" .null none none) (.access "x" .null none none) none)] none,
    .function "main" [] [] none
      [.assignment (.access "n" .null none none)
        (.call "twice" [.access "n" .null none none] none none)] none]

theorem parseProgram_sampleSource : parseProgram sampleSource = .ok sampleTree := by
  cbv

theorem yields_sampleTree :
    (checkProgram .initial sampleTree).Yields (checkProgram .initial sampleTree).result := by
  have hfault : (checkProgram .initial sampleTree).fault = none := by
    cbv
  exact ⟨hfault, rfl⟩

theorem values_fit_types_sampleTree :
    parseProgram sampleSource = .ok sampleTree ∧
      (checkProgram .initial sampleTree).Yields (checkProgram .initial sampleTree).result ∧
      ∀ point ∈ pointsBehind (Watched.runProgram 20 (parameterBindings sampleTree)
        (checkProgram .initial sampleTree).result.1 (.initial { verbosity := 0 })),
        point.Typed := by
  refine ⟨parseProgram_sampleSource, yields_sampleTree, ?_⟩
  exact (values_fit_types parseProgram_sampleSource yields_sampleTree.parts 20 _).2.1

/-- In every run of an accepted program, however much of it there is, a use of a variable finds the
one that was made by the node of its binding, in an entry that is still open, and a call finds the
function that it is annotated with. So no run fails because of a name or the form of the program,
unless there is no `main`. -/
theorem names_mean_annotations (hparse : parseProgram source = .ok program)
    (hcheck : (checkProgram .initial program).Yields (annotated, tables)) (fuel : Nat)
    (transcript : Transcript) :
    ∃ globals functions, annotated = .program globals functions ∧
      ((annotated.introduced ++ (parameterBindings program).flatten).map Binding.number).Nodup ∧
      (some Signature.print :: functions.map Node.signature?).Nodup ∧
      let watched :=
        Watched.runProgram fuel (parameterBindings program) annotated (.initial transcript)
      let plain := runProgram fuel annotated { top := {}, heap := #[], transcript }
      eraseResult id watched = plain ∧
        (∀ point ∈ pointsBehind watched, point.Bound functions) ∧
        ∀ failure after, plain = .error failure after → failure = .outOfFuel ∨
          failure = .overflow ∨ ∃ e, failure = .error e ∧ (e.isAboutNames = true →
            e = .scope (.undefinedFunction "main" 0) ∧ ∀ types resultType body signature,
              .function "main" [] types resultType body signature ∉ functions) := by
  obtain ⟨globals, functions, rfl, htyped⟩ := typed_of_accepted hparse hcheck
  refine ⟨globals, functions, rfl, htyped.numbers_nodup, htyped.signatures_nodup, ?_⟩
  intro watched plain
  have herase : eraseResult id watched = plain :=
    Watched.erases_runProgram fuel _ _ (.initial transcript)
  obtain ⟨-, hpoints, hfails⟩ := Watched.sound_runProgram htyped fuel transcript rfl
  refine ⟨herase, hpoints, ?_⟩
  intro failure after hplain
  obtain ⟨world, hworld⟩ := exists_world_of_eraseResult (herase.trans hplain)
  have hfail := hfails _ world hworld
  have herror : ∀ e, failure = .error e → e.isAboutNames = true →
      e = .scope (.undefinedFunction "main" 0) ∧ ∀ types resultType body signature,
        .function "main" [] types resultType body signature ∉ functions := by
    rintro e rfl hnames
    rcases hfail.excuse with ⟨node, -, hexcuse⟩ | hmissing
    · cases hexcuse <;> cases hnames
    · exact hmissing
  rcases hfail.cause with (hfuel | hgreat | ⟨e, -, he, -⟩) | ⟨hmissing, -⟩
  · exact .inl hfuel
  · exact .inr (.inl hgreat)
  · exact .inr (.inr ⟨e, he, herror e he⟩)
  · exact .inr (.inr ⟨_, hmissing, herror _ hmissing⟩)

theorem names_mean_annotations_sampleTree :
    parseProgram sampleSource = .ok sampleTree ∧
      (checkProgram .initial sampleTree).Yields (checkProgram .initial sampleTree).result ∧
      ∃ globals functions,
        (checkProgram .initial sampleTree).result.1 = .program globals functions ∧
        ∀ point ∈ pointsBehind (Watched.runProgram 20 (parameterBindings sampleTree)
          (checkProgram .initial sampleTree).result.1 (.initial { verbosity := 0 })),
          point.Bound functions := by
  refine ⟨parseProgram_sampleSource, yields_sampleTree, ?_⟩
  obtain ⟨globals, functions, hannotated, -, -, -, hpoints, -⟩ :=
    names_mean_annotations parseProgram_sampleSource yields_sampleTree.parts 20 { verbosity := 0 }
  exact ⟨globals, functions, hannotated, hpoints⟩

end

end BlockScript
