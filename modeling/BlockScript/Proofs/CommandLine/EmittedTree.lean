import BlockScript.Proofs.CommandLine.Call
import BlockScript.Proofs.Json.Text
import BlockScript.Proofs.Parser.Fresh
import Mathlib
/-!
# Emitted trees

The tree of a program can be written to a file and run from there instead of the program. The file
holds text, which is read with any ends of lines, as a JSON value, and as a tree; none of these steps
loses anything, so the run cannot be told from that of the program: it has the same output,
complaint, status and trace.

The trace is kept in a file of its own, which is emptied before anything is read. A program in that
file is lost to a run that keeps a trace, but its tree is not.

## Main definitions

* `afterWriting` — what paths lead to after files have been written
* `onlyFile` — a single file

## Main results

* `readTree_indented` — a fresh tree is read from its text
* `run_emitted_tree` — the tree of a program runs as the program does
* `run_emitted_tree_differs` — the paths that are left out
-/

namespace BlockScript

/-! ### The text of a tree -/

namespace Json

theorem allPlain_map_string (names : List String) : AllPlain (names.map string) := by
  induction names with
  | nil => trivial
  | cons name rest ih => exact ⟨trivial, ih⟩

theorem isPlain_nameToJson (name : Option String) : (Node.nameToJson name).IsPlain := by
  cases name <;> trivial

theorem allPlain_map_nameToJson (names : List (Option String)) :
    AllPlain (names.map Node.nameToJson) := by
  induction names with
  | nil => trivial
  | cons name rest ih => exact ⟨isPlain_nameToJson name, ih⟩

end Json

theorem Scalar.isPlain_toJson (scalar : Scalar) : scalar.toJson.IsPlain := by
  cases scalar with
  | nil => exact ⟨trivial, trivial⟩
  | _ => exact ⟨trivial, trivial, trivial⟩

namespace Node

open Json (IsPlain AllPlain isPlain_nameToJson allPlain_map_string allPlain_map_nameToJson)

mutual

/-- There are no numbers in the JSON form of a tree. -/
theorem isPlain_toJson (tree : Node) : tree.toJson.IsPlain := by
  cases tree with
  | null => trivial
  | literal value _ => exact ⟨trivial, value.isPlain_toJson, trivial⟩
  | group inner _ => exact ⟨trivial, isPlain_toJson inner, trivial⟩
  | binary _ left right _ =>
    exact ⟨trivial, trivial, isPlain_toJson left, isPlain_toJson right, trivial⟩
  | access _ offset _ _ => exact ⟨trivial, trivial, isPlain_toJson offset, trivial⟩
  | call _ arguments _ _ => exact ⟨trivial, trivial, allPlain_allToJson arguments, trivial⟩
  | listLiteral values _ => exact ⟨trivial, allPlain_allToJson values, trivial⟩
  | discard expression => exact ⟨trivial, isPlain_toJson expression, trivial⟩
  | declaration _ typeName value _ =>
    exact ⟨trivial, trivial, isPlain_nameToJson typeName, isPlain_toJson value, trivial⟩
  | assignment receiver value =>
    exact ⟨trivial, isPlain_toJson receiver, isPlain_toJson value, trivial⟩
  | branch condition thenBody elseBody =>
    exact ⟨trivial, isPlain_toJson condition, allPlain_allToJson thenBody,
      allPlain_allToJson elseBody, trivial⟩
  | case value body => exact ⟨trivial, isPlain_toJson value, allPlain_allToJson body, trivial⟩
  | switch condition cases =>
    exact ⟨trivial, isPlain_toJson condition, allPlain_allToJson cases, trivial⟩
  | loop condition body =>
    exact ⟨trivial, isPlain_toJson condition, allPlain_allToJson body, trivial⟩
  | ret value => exact ⟨trivial, isPlain_toJson value, trivial⟩
  | global _ _ typeName value _ _ =>
    exact ⟨trivial, trivial, trivial, isPlain_nameToJson typeName, isPlain_toJson value, trivial,
      trivial⟩
  | function _ parameters parameterTypes resultType body _ =>
    exact ⟨trivial, trivial, allPlain_map_string parameters,
      allPlain_map_nameToJson parameterTypes, isPlain_nameToJson resultType,
      allPlain_allToJson body, trivial⟩
  | program globals functions =>
    exact ⟨trivial, allPlain_allToJson globals, allPlain_allToJson functions, trivial⟩

theorem allPlain_allToJson (trees : List Node) : AllPlain (allToJson trees) := by
  cases trees with
  | nil => trivial
  | cons tree rest => exact ⟨isPlain_toJson tree, allPlain_allToJson rest⟩

end

end Node

namespace CommandLine

/-- Without carriage returns there is nothing to unify. -/
theorem unifyLines_eq_self {cs : List Char} (h : '\r' ∉ cs) : unifyLines cs = cs := by
  induction cs with
  | nil => rfl
  | cons c rest ih =>
    obtain ⟨hc, hrest⟩ := not_or.mp (mt List.mem_cons.mpr h)
    rw [unifyLines, ih hrest, if_neg (Ne.symm hc)]
    rintro _ rfl
    exact absurd rfl hc

/-- A fresh tree is read from its text, whatever ends of lines are accepted. -/
theorem readTree_indented {tree : Node} (h : tree.IsFresh) :
    readTree (String.ofList (unifyLines tree.toJson.indented.toList)) = .ok tree := by
  have hread : Node.ofJson tree.toJson = .ok tree := by
    rw [Node.ofJson_toJson h.1, h.2]
  rw [unifyLines_eq_self (Json.return_not_mem_indented tree.isPlain_toJson), String.ofList_toList,
    readTree, Json.read_indented tree.isPlain_toJson]
  simp only [Except.mapError, bind, Except.bind, hread]

/-! ### Runs -/

/-- What paths lead to after files have been written, each at most once. -/
def afterWriting (entry : String → Entry) (written : List (String × String)) (path : String) :
    Entry :=
  match written.lookup path with
  | some text => .file text
  | none => entry path

section

variable {path text : String} {entry : String → Entry}

theorem normalPath_treePath (h : IsFilePath path) :
    normalPath (path ++ treeSuffix) = normalPath path ++ treeSuffix :=
  normalPath_append h (by decide) (by decide)

/-- The trace is not kept in a tree file. -/
theorem append_treeSuffix_ne_traceFile (path : String) : path ++ treeSuffix ≠ traceFile := by
  intro h
  have hsuffix : treeSuffix.toList.getLast? = some 'n' := by decide
  have htrace : traceFile.toList.getLast? = some 't' := by decide
  rw [← h, String.toList_append, List.getLast?_append, hsuffix] at htrace
  simp at htrace

/-- What a call does that should emit the tree of a program. -/
theorem run_emission (hpath : IsFilePath path) (hentry : entry (normalPath path) = .file text) :
    run ["--emit-ast", path] entry =
      performOn 0 .emitTree (normalPath path) (String.ofList (unifyLines text.toList)) := by
  have hmode : ("--emit-ast", Mode.emitTree) ∈ modeNames := by decide
  have hcall : run (verbosityOptions 0 ++ ["--emit-ast", path]) entry = _ :=
    run_mode hmode hpath fun _ => rfl
  rw [hentry] at hcall
  exact hcall

section

variable {program : Node}

theorem run_emission_of_program (hpath : IsFilePath path)
    (hentry : entry (normalPath path) = .file text)
    (hprogram : parseProgram (String.ofList (unifyLines text.toList)) = .ok program) :
    run ["--emit-ast", path] entry =
      { out := normalPath path ++ treeSuffix ++ "\n"
        ending := .exit 0 none
        written := [(normalPath path ++ treeSuffix, program.toJson.indented)] } := by
  rw [run_emission hpath hentry]
  simp only [performOn, hprogram]
  rfl

/-- The call that runs the tree runs the program. -/
theorem run_tree_of_program (hpath : IsFilePath path)
    (hentry : entry (normalPath path) = .file text)
    (hprogram : parseProgram (String.ofList (unifyLines text.toList)) = .ok program)
    (verbosity : Nat) :
    run (verbosityOptions verbosity ++ ["--ast", path ++ treeSuffix])
      (afterWriting entry (run ["--emit-ast", path] entry).written) =
        reportRun verbosity program := by
  have hmode : ("--ast", Mode.runTree) ∈ modeNames := by decide
  have hnormal := normalPath_treePath hpath
  have hkept : normalPath (path ++ treeSuffix) = traceFile → verbosity = 0 :=
    fun heq => absurd (hnormal.symm.trans heq) (append_treeSuffix_ne_traceFile _)
  rw [run_mode hmode (hpath.append (by decide) (by decide)) hkept, hnormal,
    run_emission_of_program hpath hentry hprogram]
  simp only [afterWriting, List.lookup_cons_self, perform, performOn,
    readTree_indented (isFresh_of_parseProgram hprogram)]

end

/-- The tree of a program runs as the program does. Let a path end in the name of a file, and let it
not be that of the trace if one is kept. If the text of the file is a program, its tree is written
to the file beside it, and the call that runs the tree does what the call that runs the program
does: output, status, complaint and trace are the same. If it is not, the call that should emit the
tree complains as the call that runs the program does, and writes nothing. -/
theorem run_emitted_tree (hpath : IsFilePath path) (hentry : entry (normalPath path) = .file text)
    (verbosity : Nat) (htrace : normalPath path = traceFile → verbosity = 0) :
    let source := String.ofList (unifyLines text.toList)
    let treePath := normalPath path ++ treeSuffix
    let emission := run ["--emit-ast", path] entry
    let direct := run (verbosityOptions verbosity ++ [path]) entry
    (∀ program, parseProgram source = .ok program →
      emission =
        { out := treePath ++ "\n"
          ending := .exit 0 none
          written := [(treePath, program.toJson.indented)] } ∧
      run (verbosityOptions verbosity ++ ["--ast", path ++ treeSuffix])
        (afterWriting entry emission.written) = direct) ∧
    ∀ e, parseProgram source = .error e →
      emission.out = direct.out ∧ emission.ending = direct.ending ∧ emission.written = [] := by
  intro source treePath emission direct
  have hdirect : direct = performOn verbosity .run (normalPath path) source := by
    rw [show direct = _ from run_source hpath htrace, hentry]
    rfl
  constructor
  · intro program hprogram
    refine ⟨run_emission_of_program hpath hentry hprogram, ?_⟩
    rw [run_tree_of_program hpath hentry hprogram, hdirect]
    simp only [performOn, hprogram]
  · intro e he
    have hemission : emission = performOn 0 .emitTree (normalPath path) source :=
      run_emission hpath hentry
    rw [hemission, hdirect]
    simp only [performOn, he]
    exact ⟨rfl, rfl, rfl⟩

end

/-- A single file. -/
def onlyFile (path text : String) : String → Entry :=
  fun other => if other = path then .file text else .missing

/-- A program with a decimal, a character and a string that need care in a JSON text. -/
def carefulSource : String :=
  "FUN main() DO print(-0.50); print('\"'); print(\"\\t\u2028\u0085\"); END"

/-- The tree of the program. -/
def carefulTree : Node :=
  .program [] [.function "main" [] [] none
    [.discard (.call "print" [.literal (.decimal ⟨true, 50, -2⟩) none] none none),
      .discard (.call "print" [.literal (.character "\"") none] none none),
      .discard (.call "print" [.literal (.string "\t\u2028\u0085") none] none none)] none]

theorem isFilePath_sample : IsFilePath "a//p" where
  isPlain := by decide
  isNamed := ⟨['a', '/', '/'], ['p'], rfl, by decide, .inr ⟨['a', '/'], rfl⟩⟩

theorem run_emitted_tree_carefulSource :
    run ["-v", "-v", "--ast", "a//p.ast.json"]
      (afterWriting (onlyFile "a/p" carefulSource) 
        (run ["--emit-ast", "a//p"] (onlyFile "a/p" carefulSource)).written) =
      run ["-v", "-v", "a//p"] (onlyFile "a/p" carefulSource) := by
  have hentry : onlyFile "a/p" carefulSource (normalPath "a//p") = .file carefulSource := by
    decide +kernel
  have hparse : parseProgram (String.ofList (unifyLines carefulSource.toList)) = .ok carefulTree := by
    cbv
  have htrace : normalPath "a//p" = traceFile → 2 = 0 := by
    decide +kernel
  exact ((run_emitted_tree isFilePath_sample hentry 2 htrace).1 carefulTree hparse).2

/-- The status that a call ends with, if it ends with one. -/
def Ending.status? : Ending → Option Nat
  | exit status _ => some status
  | _ => none

/-- The paths that are left out. A program in the file of the trace is not run by a call that keeps
a trace, but its tree is. A path that looks like an option names no file. A slash behind a path does
not count until the end of the path of a tree file is added. -/
theorem run_emitted_tree_differs :
    let source := "FUN main() DO END"
    let emission path := run ["--emit-ast", path] (onlyFile (normalPath path) source)
    let direct options path := run (options ++ [path]) (onlyFile (normalPath path) source)
    let again options path := run (options ++ ["--ast", path ++ treeSuffix])
      (afterWriting (onlyFile (normalPath path) source) (emission path).written)
    (parseProgram source).isOk = true ∧
    (emission "debug.txt").ending.status? = some 0 ∧
    (again ["-v"] "debug.txt").ending.status? = some 0 ∧
    (direct ["-v"] "debug.txt").ending.status? = some 1 ∧
    (emission "-p").ending.status? = some 2 ∧
    (emission "p/").ending.status? = some 0 ∧
    (again [] "p/").ending.status? = some 1 ∧
    (direct [] "p/").ending.status? = some 0 := by
  intro source emission direct again
  have hpath : IsFilePath "debug.txt" :=
    ⟨by decide, [], "debug.txt".toList, rfl, by decide, .inl rfl⟩
  have hparse : parseProgram (String.ofList (unifyLines "FUN main() DO END".toList)) =
      .ok (.program [] [.function "main" [] [] none [] none]) := by
    cbv
  have hentry : onlyFile (normalPath "debug.txt") source (normalPath "debug.txt") =
      .file "FUN main() DO END" := by
    simp [onlyFile, source]
  have hagain : again ["-v"] "debug.txt" = _ := run_tree_of_program hpath hentry hparse 1
  refine ⟨?_, ?_, ?_, ?_, ?_, ?_, ?_, ?_⟩
  · decide +kernel
  · decide +kernel
  · rw [hagain]
    decide +kernel
  all_goals decide +kernel

end CommandLine

end BlockScript
