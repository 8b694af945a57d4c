import BlockScript.CommandLine
import BlockScript.Proofs.Accepted
import BlockScript.Proofs.Compilation
import BlockScript.Proofs.Parser.Fresh
import BlockScript.Proofs.Renaming.Analysis
import BlockScript.Proofs.Renaming.Evaluation
import BlockScript.Proofs.Renaming.Extension
/-!
# Names are not observable

An accepted program may have other names. The renamed program is accepted too and has the same
types, and whoever does not look at the names cannot tell its runs from those of the program: step
for step the same is printed, and the result is the same, or the same error.

## Main definitions

* `Observation` — what is seen of a run

## Main results

* `names_are_not_observable` — renamed programs are accepted alike and run alike
-/

namespace BlockScript

open Grammar (IsName)

section

variable {source : String} {program annotated : Node} {tables : Tables} {τ : Renaming}

/-! ### Errors without names -/

theorem EvaluationError.renamed_eq_self {e : EvaluationError} (h : e.isAboutNames = false) :
    e.renamed τ = e := by
  cases e <;> first | rfl | cases h

/-- If a run of an accepted program fails with an error about a name, it is the name of `main`. -/
theorem eq_undefined_main_of_accepted (hparse : parseProgram source = .ok program)
    (hcheck : (checkProgram .initial program).Yields (annotated, tables)) {fuel : Nat}
    {transcript : Transcript} {e : EvaluationError} {after : World}
    (hrun : runProgram fuel annotated { top := {}, heap := #[], transcript } =
      .error (.error e) after) (hnames : e.isAboutNames = true) :
    e = .scope (.undefinedFunction "main" 0) := by
  obtain ⟨globals, functions, rfl, htyped⟩ := typed_of_accepted hparse hcheck
  have herase := Watched.erases_runProgram fuel (parameterBindings program)
    (.program globals functions) (.initial transcript)
  obtain ⟨world, hworld⟩ := exists_world_of_eraseResult (herase.trans hrun)
  obtain ⟨-, -, hfails⟩ := Watched.sound_runProgram htyped fuel transcript hworld
  obtain ⟨node, -, hexcuse⟩ | ⟨hmain, -⟩ := (hfails _ world rfl).excuse
  · cases hexcuse <;> cases hnames
  · exact hmain

/-- A failure of an accepted program tells no name that could be another one. -/
theorem renamed_failure_of_accepted (hτ : τ.Regular) (hparse : parseProgram source = .ok program)
    (hcheck : (checkProgram .initial program).Yields (annotated, tables)) {fuel : Nat}
    {transcript : Transcript} {failure : Failure} {after : World}
    (hrun : runProgram fuel annotated { top := {}, heap := #[], transcript } =
      .error failure after) : failure.renamed τ = failure := by
  cases failure with
  | error e =>
    rw [Failure.renamed]
    cases hnames : e.isAboutNames with
    | false => rw [EvaluationError.renamed_eq_self hnames]
    | true =>
      obtain rfl := eq_undefined_main_of_accepted hparse hcheck hrun hnames
      rw [EvaluationError.renamed, ScopeError.renamed, hτ.funName_main]
  | _ => rfl

/-! ### Observations -/

/-- What is seen of a run: its result or its failure, and what was printed and noted. -/
abbrev Observation : Type := Except Failure Datum × List Event

/-- What is seen of a run that has ended or used up its fuel. -/
def observe : EStateM.Result Failure World Value → Observation
  | .ok value after => (.ok (after.datum value), after.transcript.events)
  | .error failure after => (.error failure, after.transcript.events)

/-- What is seen of a run of an accepted program that keeps no notes does not depend on names. -/
theorem observe_renamed (hτ : τ.Regular) (hparse : parseProgram source = .ok program)
    (hcheck : (checkProgram .initial program).Yields (annotated, tables)) (fuel : Nat) :
    observe (runProgram fuel (annotated.renamed τ) (.initial 0)) =
      observe (runProgram fuel annotated (.initial 0)) := by
  have hsame := Run.renames_runProgram hτ fuel annotated (.initial 0) (Int.le_refl 0)
  have hinitial : (World.initial 0).renamed τ = .initial 0 := rfl
  rw [hinitial] at hsame
  cases hrun : runProgram fuel annotated (.initial 0) with
  | ok value after =>
    rw [hrun] at hsame
    generalize runProgram fuel (annotated.renamed τ) (.initial 0) = result at hsame ⊢
    cases hsame with
    | ok _ =>
      rw [observe, observe, World.datum_renamed]
      rfl
  | error failure after =>
    have hfailure := renamed_failure_of_accepted hτ hparse hcheck hrun
    rw [hrun] at hsame
    generalize runProgram fuel (annotated.renamed τ) (.initial 0) = result at hsame ⊢
    cases hsame with
    | error _ =>
      rw [hfailure]
      rfl

/-! ### Calls of the program -/

theorem Transcript.notes_eq_self {t : Transcript} (h : t.verbosity ≤ 0)
    (taken : List (Int × String)) : t.notes taken = t := by
  induction taken with
  | nil => rfl
  | cons note rest ih =>
    have hnote := Transcript.note_eq_self h note.1 fun _ => note.2
    rw [Transcript.notes, List.foldl_cons, hnote]
    exact ih

/-- The session behind the analysis of an accepted program, if no notes are kept. -/
theorem analyze_of_accepted (hcheck : (checkProgram .initial program).Yields (annotated, tables)) :
    Session.analyze ((Session.initial 0).load program) =
      .ok () { tables, world := .initial 0, program := annotated } := by
  obtain ⟨hfault, hresult⟩ := hcheck
  have hnotes : (World.initial 0).transcript.notes (checkProgram .initial program).notes =
      (World.initial 0).transcript := Transcript.notes_eq_self (Int.le_refl 0) _
  have hanalyze := Session.analyze_apply ((Session.initial 0).load program)
  simp only [Session.load, Session.initial] at hanalyze ⊢
  rw [hanalyze, hfault, hnotes, hresult]

/-- What a call does that runs a program, if this is seen of the run. -/
def CommandLine.reportOf : Observation → Report
  | (.ok datum, events) =>
    { out := Event.lines (events.filter Event.isPrinted) ++ ""
      ending := .exit (statusOf datum) none
      written := [] }
  | (.error failure, events) =>
    { out := Event.lines (events.filter Event.isPrinted)
      ending := endingOf (.ofFailure failure)
      written := [] }

/-- A call that runs an accepted program shows what is seen of the run, and nothing else. -/
theorem CommandLine.reportRun_of_accepted
    (hcheck : (checkProgram .initial program).Yields (annotated, tables)) :
    reportRun 0 program =
      reportOf (observe (runProgram ampleFuel annotated (.initial 0))) := by
  have hrun := Session.run_apply ampleFuel { tables, world := .initial 0, program := annotated }
  rw [reportRun, reportStep, Nat.cast_zero, Scoped.bind_apply, analyze_of_accepted hcheck]
  simp only [hrun]
  cases runProgram ampleFuel annotated (.initial 0) <;> rfl

/-! ### Renamed programs -/

/-- The renamed program has the names that another renaming gives it, if the two renamings agree on
the names of the program. -/
theorem renamed_eq_of_agreeOn {ρ : Renaming} (hparse : parseProgram source = .ok program)
    (hagree : ρ.AgreeOn τ program.variableNames program.functionNames) :
    program.renamed ρ = program.renamed τ := by
  have herase : program.erase = program := (isFresh_of_parseProgram hparse).2
  rw [← herase]
  exact Node.erase_renamed_congr program hagree

/-- The analyzer accepts a renamed program, and annotates it as it annotates the program. -/
theorem yields_renamed (hτ : τ.Regular)
    (hcheck : (checkProgram .initial program).Yields (annotated, tables)) :
    (checkProgram .initial (program.renamed τ)).Yields
      (annotated.renamed τ, tables.renamed τ) := by
  have hcarries := carries_program hτ .initial program
  rw [renamed_initial hτ] at hcarries
  exact hcarries _ hcheck

/-- Names are not observable. Whatever other identifiers an accepted program has for its variables
and functions, as long as different ones stay different and `main` and `print` are kept, there is a
source text of it. The program with the other names is accepted, and its annotations differ from
those of the program in names only, so that all types are the same. With the same fuel it runs to
the same result or the same error and prints the same, and a call that keeps no trace does the same
with both source texts.

Variables and functions are renamed independently, so that one map for all names is a case of it. -/
theorem names_are_not_observable (hparse : parseProgram source = .ok program)
    (hcheck : (checkProgram .initial program).Yields (annotated, tables)) {ρ : Renaming}
    (hρ : ρ.Admissible program) :
    (∃ source', parseProgram source' = .ok (program.renamed ρ)) ∧
      ∃ annotated' tables',
        (checkProgram .initial (program.renamed ρ)).Yields (annotated', tables') ∧
        annotated'.anonymous = annotated.anonymous ∧
        (∀ fuel, observe (runProgram fuel annotated' (.initial 0)) =
          observe (runProgram fuel annotated (.initial 0))) ∧
        ∀ source', parseProgram source' = .ok (program.renamed ρ) → ∀ path,
          CommandLine.performOn 0 .run path source' =
            CommandLine.performOn 0 .run path source := by
  -- no more than the names of the program matters, and on these the new names are regular
  obtain ⟨τ, hregular, hreadable, hagree⟩ := hρ.exists_regular (isName_of_parseProgram hparse)
  rw [renamed_eq_of_agreeOn hparse hagree]
  have hcheck' := yields_renamed hregular hcheck
  have hruns := observe_renamed hregular hparse hcheck
  refine ⟨exists_source_of_renamed hreadable hparse, annotated.renamed τ, tables.renamed τ,
    hcheck', Node.anonymous_renamed annotated, hruns, ?_⟩
  intro source' hparse' path
  have hreport : CommandLine.reportRun 0 (program.renamed τ) = CommandLine.reportRun 0 program := by
    rw [CommandLine.reportRun_of_accepted hcheck', CommandLine.reportRun_of_accepted hcheck,
      hruns]
  simp only [CommandLine.performOn, hparse', hparse, hreport]

/-- The two variables of the sample program trade their names, and a function gets a new one. -/
def sampleRenaming : Renaming where
  varName name := if name = "n" then "x" else "n"
  funName name := if name = "twice" then "double" else name

theorem admissible_sampleRenaming : sampleRenaming.Admissible sampleTree where
  varName_injOn := by
    have hdistinct : ∀ name ∈ sampleTree.variableNames, ∀ other ∈ sampleTree.variableNames,
        sampleRenaming.varName name = sampleRenaming.varName other → name = other := by
      decide
    exact fun name hname other hother => hdistinct name hname other hother
  funName_injOn := by
    have hdistinct : ∀ name ∈ sampleTree.functionNames, ∀ other ∈ sampleTree.functionNames,
        sampleRenaming.funName name = sampleRenaming.funName other → name = other := by
      decide
    exact fun name hname other hother => hdistinct name hname other hother
  isName_varName := by
    intro name _
    have hx : IsName "x" := ⟨⟨.identifier, "x", 0⟩, by decide, by decide, rfl⟩
    have hn : IsName "n" := ⟨⟨.identifier, "n", 0⟩, by decide, by decide, rfl⟩
    simp only [sampleRenaming]
    split
    · exact hx
    · exact hn
  isName_funName := by
    intro name hname
    have hdouble : IsName "double" := ⟨⟨.identifier, "double", 0⟩, by decide, by decide, rfl⟩
    simp only [sampleRenaming]
    split
    · exact hdouble
    · exact isName_of_parseProgram parseProgram_sampleSource name
        (Node.mem_names sampleTree (.inr hname))
  funName_main := by decide
  funName_print := by decide
  ne_main := by decide
  ne_print := by decide

theorem names_are_not_observable_sampleTree :
    parseProgram sampleSource = .ok sampleTree ∧
      (checkProgram .initial sampleTree).Yields (checkProgram .initial sampleTree).result ∧
      sampleRenaming.Admissible sampleTree ∧
      ∃ annotated' tables',
        (checkProgram .initial (sampleTree.renamed sampleRenaming)).Yields
          (annotated', tables') ∧
        annotated'.anonymous = (checkProgram .initial sampleTree).result.1.anonymous ∧
        ∀ fuel, observe (runProgram fuel annotated' (.initial 0)) =
          observe (runProgram fuel (checkProgram .initial sampleTree).result.1 (.initial 0)) := by
  refine ⟨parseProgram_sampleSource, yields_sampleTree, admissible_sampleRenaming, ?_⟩
  obtain ⟨-, annotated', tables', hcheck, hannotations, hruns, -⟩ :=
    names_are_not_observable parseProgram_sampleSource yields_sampleTree.parts
      admissible_sampleRenaming
  exact ⟨annotated', tables', hcheck, hannotations, hruns⟩

end

end BlockScript
