import BlockScript.CommandLine
/-!
# Calls that name a file

A path that does not look like an option and ends in the name of a file is taken as it is wherever
the command line expects a path, and so is the path of the tree file beside it. The lemmas say which
mode is applied to which file by calls with any verbosity.

## Main definitions

* `IsFilePath` — a path that ends in the name of a file
* `verbosityOptions` — the options that ask for a verbosity

## Main results

* `normalPath_append` — the path of the tree file
* `run_source`, `run_mode` — what a call does with the file that it names
-/

namespace BlockScript.CommandLine

/-! ### Paths -/

/-- Whether a text can be the name of a file. -/
def IsFileName (name : List Char) : Prop :=
  '/' ∉ name ∧ name ≠ [] ∧ name ≠ ['.']

instance : DecidablePred IsFileName :=
  fun name => inferInstanceAs (Decidable ('/' ∉ name ∧ name ≠ [] ∧ name ≠ ['.']))

/-- A path that is no option and ends in the name of a file. -/
structure IsFilePath (path : String) : Prop where
  /-- The path does not begin with a dash. -/
  isPlain : path.toList.head? ≠ some '-'
  /-- Behind the last slash, if there is one, stands a name. -/
  isNamed : ∃ folder name, path.toList = folder ++ name ∧ IsFileName name ∧
    (folder = [] ∨ ∃ above, folder = above ++ ['/'])

theorem IsFileName.append {name : List Char} (h : IsFileName name) {suffix : List Char}
    (hslash : '/' ∉ suffix) (hne : suffix ≠ []) : IsFileName (name ++ suffix) := by
  obtain ⟨hname, hfull, -⟩ := h
  have hlength : 2 ≤ (name ++ suffix).length := by
    have := List.length_pos_iff.mpr hfull
    have := List.length_pos_iff.mpr hne
    rw [List.length_append]
    omega
  refine ⟨?_, ?_, ?_⟩
  · rw [List.mem_append]
    exact not_or.mpr ⟨hname, hslash⟩
  · exact List.append_ne_nil_of_left_ne_nil hfull suffix
  · rintro heq
    rw [heq, List.length_singleton] at hlength
    omega

/-- What a path begins with does not depend on the name of the file. -/
theorem exists_pathRoot (folder : List Char) :
    ∃ root, ∀ name, IsFileName name → pathRoot (folder ++ name) = root := by
  refine ⟨pathRoot (folder ++ ['a']), fun name hname => ?_⟩
  obtain ⟨hslash, hne, -⟩ := hname
  obtain ⟨c, cs, rfl⟩ := List.exists_cons_of_ne_nil hne
  have hc : c ≠ '/' := fun heq => hslash (heq ▸ List.mem_cons_self)
  -- only the first three characters count
  match folder with
  | [] => simp [pathRoot, hc]
  | [a] => by_cases ha : a = '/' <;> simp [pathRoot, hc, ha]
  | [a, b] => by_cases ha : a = '/' <;> by_cases hb : b = '/' <;> simp [pathRoot, hc, ha, hb]
  | a :: b :: d :: rest =>
    by_cases ha : a = '/' <;> by_cases hb : b = '/' <;> by_cases hd : d = '/' <;>
      simp [pathRoot, ha, hb, hd]

/-- The folders of a path do not depend on the name of the file. -/
theorem exists_pathParts {folder : List Char}
    (h : folder = [] ∨ ∃ above, folder = above ++ ['/']) :
    ∃ folders, ∀ name, IsFileName name →
      pathParts (String.ofList (folder ++ name)) = folders ++ [String.ofList name] := by
  have hkept : ∀ name, IsFileName name →
      [String.ofList name].filter (fun part => part != "" && part != ".") =
        [String.ofList name] := by
    rintro name ⟨-, hne, hdot⟩
    have hempty : String.ofList name ≠ "" := by
      rw [ne_eq, ← String.toList_inj, String.toList_ofList]
      exact hne
    have hsingle : String.ofList name ≠ "." := by
      rw [ne_eq, ← String.toList_inj, String.toList_ofList]
      exact hdot
    simp [hempty, hsingle]
  rcases h with rfl | ⟨above, rfl⟩
  · refine ⟨[], fun name hname => ?_⟩
    rw [pathParts, String.toList_ofList, List.nil_append, List.splitOn_eq_singleton hname.1]
    exact hkept name hname
  · refine ⟨((above.splitOn '/').map String.ofList).filter fun part => part != "" && part != ".",
      fun name hname => ?_⟩
    rw [pathParts, String.toList_ofList, List.append_assoc, List.singleton_append,
      List.splitOn_append_cons_self, List.splitOn_eq_singleton hname.1, List.map_append,
      List.filter_append, List.map_singleton, hkept name hname]

/-- The name of the file ends the normal path as well. -/
theorem exists_normalPath {folder : List Char}
    (h : folder = [] ∨ ∃ above, folder = above ++ ['/']) :
    ∃ front : String, ∀ name, IsFileName name →
      normalPath (String.ofList (folder ++ name)) = front ++ String.ofList name := by
  obtain ⟨root, hroot⟩ := exists_pathRoot folder
  obtain ⟨folders, hfolders⟩ := exists_pathParts h
  obtain ⟨middle, hmiddle⟩ : ∃ middle : String, ∀ name : String,
      "/".intercalate (folders ++ [name]) = middle ++ name := by
    by_cases hne : folders = []
    · exact ⟨"", fun name => by simp [hne]⟩
    · refine ⟨"/".intercalate folders ++ "/", fun name => ?_⟩
      rw [String.intercalate_append_of_ne_nil hne (List.cons_ne_nil _ _),
        String.intercalate_singleton]
  refine ⟨String.ofList root ++ middle, fun name hname => ?_⟩
  have hfull : (String.ofList root ++ (middle ++ String.ofList name)).isEmpty = false := by
    rw [String.isEmpty_eq_false_iff, ne_eq, ← String.toList_inj]
    simp [hname.2.1]
  rw [normalPath, String.toList_ofList, hroot name hname, hfolders name hname, hmiddle]
  simp only [hfull, Bool.false_eq_true, if_false, String.append_assoc]

/-- What is added to the name of a file is added to its normal path. -/
theorem normalPath_append {path suffix : String} (h : IsFilePath path)
    (hslash : '/' ∉ suffix.toList) (hne : suffix ≠ "") :
    normalPath (path ++ suffix) = normalPath path ++ suffix := by
  obtain ⟨-, folder, name, hpath, hname, hfolder⟩ := h
  obtain ⟨front, hfront⟩ := exists_normalPath hfolder
  have hlong := hname.append hslash (by rwa [ne_eq, String.toList_eq_nil_iff])
  have hshort : path = String.ofList (folder ++ name) := by
    rw [← hpath, String.ofList_toList]
  have hall : path ++ suffix = String.ofList (folder ++ (name ++ suffix.toList)) := by
    rw [← String.toList_inj, String.toList_append, hpath, String.toList_ofList, List.append_assoc]
  rw [hall, hfront _ hlong, hshort, hfront _ hname, String.append_assoc, ← String.toList_inj]
  simp

theorem IsFilePath.ne_empty {path : String} (h : IsFilePath path) : path ≠ "" := by
  obtain ⟨-, folder, name, hpath, hname, -⟩ := h
  rintro rfl
  exact hname.2.1 (List.append_eq_nil_iff.mp hpath.symm).2

theorem IsFilePath.append {path suffix : String} (h : IsFilePath path)
    (hslash : '/' ∉ suffix.toList) (hne : suffix ≠ "") : IsFilePath (path ++ suffix) := by
  have hfull := h.ne_empty
  obtain ⟨hplain, folder, name, hpath, hname, hfolder⟩ := h
  refine ⟨?_, folder, name ++ suffix.toList, ?_, ?_, hfolder⟩
  · rw [ne_eq, ← String.toList_eq_nil_iff] at hfull
    obtain ⟨c, cs, hc⟩ := List.exists_cons_of_ne_nil hfull
    rw [hc] at hplain
    rwa [String.toList_append, hc, List.cons_append]
  · rw [String.toList_append, hpath, List.append_assoc]
  · exact hname.append hslash (by rwa [ne_eq, String.toList_eq_nil_iff])

/-! ### Arguments -/

/-- A path that does not begin with a dash is no option. -/
theorem wordOf_eq_plain {path : String} (h : path.toList.head? ≠ some '-') :
    wordOf path = .plain path := by
  unfold wordOf
  split
  next heq => simp [heq] at h
  next heq => simp [heq] at h
  next => rfl

theorem wordsOf_cons {text : String} (h : text ≠ "--") (rest : List String) :
    wordsOf (text :: rest) = wordOf text :: wordsOf rest := by
  rw [wordsOf]
  exact h

/-- The options that ask for a verbosity. -/
def verbosityOptions (verbosity : Nat) : List String :=
  List.replicate verbosity "-v"

theorem wordsOf_verbosityOptions (verbosity : Nat) (rest : List String) :
    wordsOf (verbosityOptions verbosity ++ rest) =
      List.replicate verbosity (.short ['v']) ++ wordsOf rest := by
  have hword : wordOf "-v" = .short ['v'] := by decide
  induction verbosity with
  | zero => rfl
  | succ verbosity ih =>
    rw [verbosityOptions, List.replicate_succ, List.cons_append, wordsOf_cons (by decide), hword,
      ← verbosityOptions, ih, List.replicate_succ, List.cons_append]

/-- The options add up to the verbosity. -/
theorem readWords_replicate (args : Arguments) (verbosity : Nat) (words : List Word) :
    Arguments.readWords args [] (List.replicate verbosity (.short ['v']) ++ words) =
      Arguments.readWords { args with verbosity := args.verbosity + verbosity } [] words := by
  induction verbosity generalizing args with
  | zero => rfl
  | succ verbosity ih =>
    have hshort : (args.readPlain []).readShort ['v'] =
        .ok { args with verbosity := args.verbosity + 1 } := rfl
    rw [List.replicate_succ, List.cons_append, Arguments.readWords, hshort]
    exact (ih _).trans (by simp [Nat.add_comm, Nat.add_left_comm])

/-- What arguments ask for whose words are known. -/
theorem read_verbosityOptions {verbosity : Nat} {rest : List String} {args : Arguments}
    (hwords : .ambiguous ∉ wordsOf rest) (hextras : args.hasExtras = false)
    (hread : Arguments.readWords { verbosity } [] (wordsOf rest) = .ok args) :
    Arguments.read (verbosityOptions verbosity ++ rest) = .ok args := by
  have hclear : Word.ambiguous ∉ List.replicate verbosity (.short ['v']) ++ wordsOf rest := by
    rw [List.mem_append, List.mem_replicate]
    simp [hwords]
  rw [Arguments.read, wordsOf_verbosityOptions, readWords_replicate, Nat.zero_add, hread]
  simp [hclear, bind, Except.bind, hextras]
  rfl

section

variable {path : String} {verbosity : Nat} {entry : String → Entry}

theorem read_source (h : IsFilePath path) :
    Arguments.read (verbosityOptions verbosity ++ [path]) =
      .ok { verbosity, program := some path, sawProgram := true } := by
  have hdash : path ≠ "--" := by
    rintro rfl
    exact h.isPlain rfl
  have hwords : wordsOf [path] = [.plain path] := by
    rw [wordsOf_cons hdash, wordOf_eq_plain h.isPlain]
    rfl
  apply read_verbosityOptions
  · simp [hwords]
  · rfl
  · rw [hwords]
    rfl

theorem read_mode {option : String} {mode : Mode}
    (hoption : (option, mode) ∈ modeNames) (h : IsFilePath path) :
    Arguments.read (verbosityOptions verbosity ++ [option, path]) =
      .ok { verbosity, mode := some (mode, path) } := by
  have hdash : path ≠ "--" := by
    rintro rfl
    exact h.isPlain rfl
  have hmodes : ∀ entry ∈ modeNames, entry.1 ≠ "--" ∧ wordOf entry.1 = .mode entry.2 none := by
    decide
  obtain ⟨hne, hword⟩ := hmodes _ hoption
  have hwords : wordsOf [option, path] = [.mode mode none, .plain path] := by
    rw [wordsOf_cons hne, wordsOf_cons hdash, hword, wordOf_eq_plain h.isPlain]
    rfl
  apply read_verbosityOptions
  · simp [hwords]
  · rfl
  · rw [hwords]
    rfl

/-! ### Calls -/

/-- A call does what it asks for, unless the trace has taken the place of the file. -/
theorem run_of_task? {arguments : List String} {args : Arguments} {mode : Mode}
    (hread : Arguments.read arguments = .ok args) (htask : args.task? = some (mode, path))
    (htrace : normalPath path = traceFile → args.verbosity = 0) :
    run arguments entry = perform args.verbosity mode (normalPath path) (entry (normalPath path)) := by
  have hkept : (args.verbosity != 0 && normalPath path == traceFile) = false := by
    by_cases heq : normalPath path = traceFile
    · simp [htrace heq]
    · simp [heq]
  simp only [run, hread, htask, hkept, Bool.false_eq_true, if_false]

/-- A path on its own is that of a program to run. -/
theorem run_source (h : IsFilePath path) (htrace : normalPath path = traceFile → verbosity = 0) :
    run (verbosityOptions verbosity ++ [path]) entry =
      perform verbosity .run (normalPath path) (entry (normalPath path)) := by
  have hfull : path.isEmpty = false := String.isEmpty_eq_false_iff.mpr h.ne_empty
  have htask : Arguments.task? { verbosity, program := some path, sawProgram := true } =
      some (.run, path) := by
    simp [Arguments.task?, Arguments.task?.plainTask?, Option.filter, hfull]
  rw [run_of_task? (read_source h) htask htrace]

/-- A path behind a mode is what the mode is applied to. -/
theorem run_mode {option : String} {mode : Mode} (hoption : (option, mode) ∈ modeNames)
    (h : IsFilePath path) (htrace : normalPath path = traceFile → verbosity = 0) :
    run (verbosityOptions verbosity ++ [option, path]) entry =
      perform verbosity mode (normalPath path) (entry (normalPath path)) := by
  have hfull : path.isEmpty = false := String.isEmpty_eq_false_iff.mpr h.ne_empty
  have htask : Arguments.task? { verbosity, mode := some (mode, path) } = some (mode, path) := by
    simp [Arguments.task?, hfull]
  rw [run_of_task? (read_mode hoption h) htask htrace]

end

end BlockScript.CommandLine
