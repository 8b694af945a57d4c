import BlockScript.Proofs.Drafting.Draft
import BlockScript.Proofs.Json.Tree
import BlockScript.Proofs.Nesting.Returns
/-!
# What drafts say

A draft is written by steps that share its level, its lines and its type of result, and a step that
fails leaves all three as they are. Every step still does something simple: it adds lines that only
depend on the tree and on the level, and comes back to the level. Steps in a row add their lines in
a row, so the lines of a program come out as the lines of its Java form, by induction on the tree.

The type of the result is the one part of a draft that a program does not begin anew. What it must
be is therefore part of what is said about a step: any type will do for a whole program and for a
function, and within a function it is the type of the function, which is written down before the
first statement. It follows that a draft gives the same for a program whatever it served for before.

## Main definitions

* `Drafting.Writes` — a step adds lines and comes back to its level, or fails

## Main results

* `Drafting.writes_statement` — a statement is written as its Java form is printed
* `Drafting.writes_program` — so is a program, whatever type of result was left over
* `Draft.drafts_forget` — the answer for a program is the same behind every row of programs
-/

namespace BlockScript

namespace Drafting

open Java (lineAt)
open Java.Statement (linesOf groupLines)

variable {results : Set (Option Ty)} {level : Nat} {x y : Drafting Unit}
  {lines rest : Emission (List String)} {α β : Type}

/-- On a draft at a level, with a type of result of some kind in it, a step adds some lines, comes
back to the level and leaves a type of result of the kind, or fails with some error. -/
def Writes (results : Set (Option Ty)) (level : Nat) (x : Drafting Unit)
    (lines : Emission (List String)) : Prop :=
  ∀ draft : Draft, draft.level = level → draft.result ∈ results →
    match lines with
    | .ok added => ∃ result ∈ results,
        x draft = .ok () { level, lines := draft.lines ++ added, result }
    | .error e => ∃ after, x draft = .error e after

theorem bind_eq_of_ok {next : α → Drafting Unit} {x : Drafting α} {draft after : Draft} {a : α}
    (h : x draft = .ok a after) : (x >>= next) draft = next a after := by
  simp only [bind, EStateM.bind, h]

theorem bind_eq_of_error {next : α → Drafting Unit} {x : Drafting α} {draft after : Draft}
    {e : EmissionError} (h : x draft = .error e after) : (x >>= next) draft = .error e after := by
  simp only [bind, EStateM.bind, h]

theorem writes_pure : Writes results level (pure ()) (.ok []) := by
  intro draft hlevel hresult
  refine ⟨draft.result, hresult, ?_⟩
  rw [List.append_nil, ← hlevel]
  rfl

theorem writes_throw (e : EmissionError) : Writes results level (throw e) (.error e) :=
  fun draft _ _ => ⟨draft, rfl⟩

theorem writes_line {text : String} (h : text ≠ "") :
    Writes results level (line text) (.ok [lineAt level text]) := by
  rintro draft rfl hresult
  refine ⟨draft.result, hresult, ?_⟩
  change EStateM.Result.ok () { draft with
    lines := draft.lines ++ [if text = "" then "" else lineAt draft.level text] } = _
  rw [if_neg h]

theorem writes_blank : Writes results level (line "") (.ok [""]) := by
  rintro draft rfl hresult
  exact ⟨draft.result, hresult, rfl⟩

/-- Steps in a row; when both would fail, the first one does. -/
theorem Writes.next (hx : Writes results level x lines) (hy : Writes results level y rest) :
    Writes results level (do x; y) (do return (← lines) ++ (← rest)) := by
  intro draft hlevel hresult
  have hfirst := hx draft hlevel hresult
  cases lines with
  | error e =>
    obtain ⟨after, hfirst⟩ := hfirst
    exact ⟨after, bind_eq_of_error hfirst⟩
  | ok added =>
    obtain ⟨result, hmem, hfirst⟩ := hfirst
    -- the first step may have changed the type of the result, but not its kind
    have hsecond := hy { level, lines := draft.lines ++ added, result } rfl hmem
    cases rest with
    | error e =>
      obtain ⟨after, hsecond⟩ := hsecond
      exact ⟨after, (bind_eq_of_ok hfirst).trans hsecond⟩
    | ok more =>
      obtain ⟨result', hmem', hsecond⟩ := hsecond
      refine ⟨result', hmem', (bind_eq_of_ok hfirst).trans ?_⟩
      rw [hsecond, List.append_assoc]

/-- What comes before the first line of a step can fail as well. -/
theorem Writes.bind {a? : Emission α} {next : α → Drafting Unit}
    {lines : α → Emission (List String)}
    (h : ∀ a, a? = .ok a → Writes results level (next a) (lines a)) :
    Writes results level (ofEmission a? >>= next) (a? >>= lines) := by
  cases a? with
  | error e => exact fun draft _ _ => ⟨draft, rfl⟩
  | ok a => exact h a rfl

theorem Writes.emitting {a? : Emission α} {next : α → Drafting Unit} {print : β → List String}
    {form : α → Emission β}
    (h : ∀ a, a? = .ok a → Writes results level (next a) (print <$> form a)) :
    Writes results level (ofEmission a? >>= next) (print <$> (a? >>= form)) :=
  map_bind print a? form ▸ .bind h

/-- A step may be replaced by another one that does the same to the drafts in question. -/
theorem Writes.congr (hy : Writes results level y lines)
    (h : ∀ draft : Draft, draft.result ∈ results → x draft = y draft) :
    Writes results level x lines :=
  fun draft hlevel hresult => h draft hresult ▸ hy draft hlevel hresult

theorem Writes.indented (h : Writes results (level + 1) x lines) :
    Writes results level (indented x) lines := by
  rintro draft rfl hresult
  have hinner := h { draft with level := draft.level + 1 } rfl hresult
  cases lines with
  | error e =>
    -- nobody goes back to the old level
    obtain ⟨after, hinner⟩ := hinner
    exact ⟨after, (bind_eq_of_ok rfl).trans (bind_eq_of_error hinner)⟩
  | ok added =>
    obtain ⟨result, hmem, hinner⟩ := hinner
    exact ⟨result, hmem, (bind_eq_of_ok rfl).trans (bind_eq_of_ok hinner)⟩

/-- Within a function the type of the result is known, whatever it was before. -/
theorem Writes.settle {result : Ty} (h : Writes {some result} level x lines) :
    Writes Set.univ level (do settle result; x) lines := by
  intro draft hlevel _
  have hinner := h { draft with result := some result } hlevel rfl
  cases lines with
  | error e => exact hinner
  | ok added =>
    obtain ⟨result, -, hinner⟩ := hinner
    exact ⟨result, trivial, hinner⟩

theorem Writes.onlyIf {condition : Bool} (h : condition = true → Writes results level x lines) :
    Writes results level (onlyIf condition x) (if condition then lines else .ok []) := by
  cases condition with
  | false => exact writes_pure
  | true => exact h rfl

theorem Writes.of_eq (h : Writes results level x lines) (heq : lines = rest) :
    Writes results level x rest :=
  heq ▸ h

/-! ### Expressions -/

theorem ofEmission_bind (a? : Emission α) (f : α → Emission β) :
    ofEmission (a? >>= f) = ofEmission a? >>= fun a => ofEmission (f a) := by
  cases a? <;> rfl

theorem expression_bind (node : Node) (next : String → Drafting α) :
    expression node >>= next = ofEmission (emitExpression node) >>= fun form => next form.text := by
  rw [expression, map_eq_pure_bind, ofEmission_bind, bind_assoc]
  rfl

/-- A text that depends on whether there is an initial value. -/
theorem initial_bind (value : Node) (absent : String) (present : String → String)
    (next : String → Drafting α) :
    (if value.isNull then pure absent else do return present (← expression value)) >>= next =
      ofEmission (emitInitial value) >>= fun initial =>
        next (initial.elim absent fun form => present form.text) := by
  rw [emitInitial]
  split
  · rfl
  · rw [bind_assoc, expression_bind, ofEmission_bind, bind_assoc]
    rfl

theorem declared_bind (text : String) (value : Node) (next : String → Drafting α) :
    declared text value >>= next =
      ofEmission (emitInitial value) >>= fun initial => next (Java.withValue text initial) := by
  rw [declared, initial_bind value text fun shown => text ++ " = " ++ shown]
  congr with initial
  cases initial <;> rfl

/-- The label of a group, or of the default group. -/
def labelText (value : Option Java.Expression) : String :=
  value.elim "default:" fun form => "case " ++ form.text ++ ":"

theorem label_bind (value : Node) (next : String → Drafting α) :
    label value >>= next =
      ofEmission (emitInitial value) >>= fun initial => next (labelText initial) :=
  initial_bind value "default:" (fun shown => "case " ++ shown ++ ":") next

theorem labelText_ne_empty (value : Option Java.Expression) : labelText value ≠ "" := by
  cases value <;> simp [labelText]

/-! ### Statements -/

/-- The lines of the second branch of a choice, if there is one. -/
def elseLines (level : Nat) (body : List Java.Statement) : List String :=
  if body.isEmpty then [] else lineAt level "\x7d else \x7b" :: linesOf (level + 1) body

section

variable {result : Ty}

theorem emitStatement_ne_nil {node : Node} {forms : List Java.Statement}
    (h : emitStatement result node = .ok forms) : forms ≠ [] := by
  rintro rfl
  cases node with
  | ret value =>
    rw [emitStatement] at h
    split at h
    · split at h <;> simp [map_eq_ok_iff] at h
    · simp [map_eq_ok_iff] at h
  | _ => simp [emitStatement, bind_eq_ok_iff, map_eq_ok_iff] at h

theorem isEmpty_of_emitBlock {body : List Node} {forms : List Java.Statement}
    (h : emitBlock result body = .ok forms) : forms.isEmpty = body.isEmpty := by
  cases body with
  | nil =>
    cases h
    rfl
  | cons node rest =>
    rw [emitBlock] at h
    obtain ⟨first, hfirst, h⟩ := bind_eq_ok_iff.mp h
    obtain ⟨others, -, h⟩ := bind_eq_ok_iff.mp h
    cases h
    simp [emitStatement_ne_nil hfirst]

theorem writes_discard (value : Node) :
    Writes results level (statement (.discard value))
      (linesOf level <$> emitStatement result (.discard value)) := by
  rw [statement, emitStatement, expression_bind]
  exact .emitting fun form _ => writes_line (by simp)

theorem writes_declaration (name : String) (typeName : Option String) (value : Node)
    (binding : Option Binding) :
    Writes results level (statement (.declaration name typeName value binding))
      (linesOf level <$> emitStatement result (.declaration name typeName value binding)) := by
  rw [statement, emitStatement]
  refine .emitting fun found _ => .emitting fun ty _ => ?_
  rw [declared_bind]
  exact .emitting fun initial _ => writes_line (by simp)

theorem writes_assignment (receiver value : Node) :
    Writes results level (statement (.assignment receiver value))
      (linesOf level <$> emitStatement result (.assignment receiver value)) := by
  rw [statement, emitStatement, expression_bind]
  refine .emitting fun target _ => ?_
  rw [expression_bind]
  exact .emitting fun form _ => writes_line (by simp)

theorem writes_else {body : List Node}
    (h : Writes results (level + 1) (statements body)
      (linesOf (level + 1) <$> emitBlock result body)) :
    Writes results level
      (onlyIf (!body.isEmpty) do
        line "\x7d else \x7b"
        indented (statements body))
      (elseLines level <$> emitBlock result body) := by
  refine (Writes.onlyIf fun _ => (writes_line (by simp)).next h.indented).of_eq ?_
  cases hform : emitBlock result body with
  | ok form =>
    simp only [map_ok, elseLines, isEmpty_of_emitBlock hform]
    cases body.isEmpty <;> rfl
  | error e =>
    cases body with
    | nil => cases hform
    | cons => rfl

theorem writes_branch {thenBody elseBody : List Node} (condition : Node)
    (hthen : Writes results (level + 1) (statements thenBody)
      (linesOf (level + 1) <$> emitBlock result thenBody))
    (helse : Writes results (level + 1) (statements elseBody)
      (linesOf (level + 1) <$> emitBlock result elseBody)) :
    Writes results level (statement (.branch condition thenBody elseBody))
      (linesOf level <$> emitStatement result (.branch condition thenBody elseBody)) := by
  rw [statement, emitStatement, expression_bind]
  refine .emitting fun test _ => ?_
  refine ((writes_line (by simp)).next <| hthen.indented.next <| (writes_else helse).next <|
    writes_line (by simp)).of_eq ?_
  simp [← pure_eq_ok, linesOf, Java.Statement.lines, elseLines]

theorem writes_switch {nodes : List Node} (condition : Node)
    (h : Writes results (level + 1) (cases nodes)
      (groupLines (level + 1) <$> emitCases result nodes)) :
    Writes results level (statement (.switch condition nodes))
      (linesOf level <$> emitStatement result (.switch condition nodes)) := by
  rw [statement, emitStatement, expression_bind]
  refine .emitting fun test _ => ?_
  refine ((writes_line (by simp)).next <| h.indented.next <| writes_line (by simp)).of_eq ?_
  simp [← pure_eq_ok, linesOf, Java.Statement.lines]

/-- The lines of a block in braces behind some text. Without statements both braces stand on one
line. -/
def bracedLines (level : Nat) (text : String) (body : List Java.Statement) : List String :=
  if body.isEmpty then [lineAt level text ++ "\x7d"]
  else lineAt level text :: (linesOf (level + 1) body ++ [lineAt level "\x7d"])

theorem writes_braced {body : List Node} {text : String} (htext : text ≠ "")
    (h : Writes results (level + 1) (statements body)
      (linesOf (level + 1) <$> emitBlock result body)) :
    Writes results level
      (if body.isEmpty then line (text ++ "\x7d")
      else do
        line text
        indented (statements body)
        line "\x7d")
      (bracedLines level text <$> emitBlock result body) := by
  cases hempty : body.isEmpty with
  | true =>
    obtain rfl := List.isEmpty_iff.mp hempty
    refine (writes_line (by simp)).of_eq ?_
    rw [← Java.lineAt_append]
    rfl
  | false =>
    refine ((writes_line htext).next <| h.indented.next <| writes_line (by simp)).of_eq ?_
    cases hform : emitBlock result body with
    | error e => rfl
    | ok form => simp [← pure_eq_ok, bracedLines, isEmpty_of_emitBlock hform, hempty]

theorem linesOf_whileLoop (condition : Java.Expression) (body : List Java.Statement) :
    linesOf level [.whileLoop condition body] =
      bracedLines level ("while (" ++ condition.text ++ ") \x7b") body := by
  rw [linesOf, linesOf, List.append_nil, Java.Statement.lines, bracedLines]

theorem writes_loop {body : List Node} (condition : Node)
    (h : Writes results (level + 1) (statements body)
      (linesOf (level + 1) <$> emitBlock result body)) :
    Writes results level (statement (.loop condition body))
      (linesOf level <$> emitStatement result (.loop condition body)) := by
  -- both branches begin with the condition
  rw [statement, emitStatement, expression_bind, expression_bind,
    ← apply_ite (ofEmission (emitExpression condition) >>= ·)]
  refine .emitting fun test _ => ?_
  have htext : "while (" ++ test.text ++ ") \x7b\x7d" =
      "while (" ++ test.text ++ ") \x7b" ++ "\x7d" := by
    rw [@String.append_assoc ("while (" ++ test.text)]
    rfl
  rw [ite_apply, htext]
  refine (writes_braced (by simp) h).of_eq ?_
  simp [linesOf_whileLoop]

/-- Here the type of the result is read, and it is the one that the form was made for. -/
theorem writes_ret (value : Node) :
    Writes {some result} level (statement (.ret value))
      (linesOf level <$> emitStatement result (.ret value)) := by
  rw [emitStatement]
  rcases eq_or_ne result .nil with rfl | hnil
  · refine .congr ?_ fun draft hresult => statement_ret_of_nil hresult value
    rw [if_pos rfl]
    by_cases hcall : value.kind? = some .call
    · rw [if_pos hcall, decide_eq_true hcall]
      have hline : Writes {some .nil} level (statement (.discard value))
          (linesOf level <$> emitStatement .nil (.discard value)) := writes_discard value
      refine ((Writes.onlyIf fun _ => hline).next (writes_line (by simp))).of_eq ?_
      simp [← pure_eq_ok, emitStatement, linesOf, Java.Statement.lines]
    · rw [if_neg hcall, decide_eq_false hcall]
      exact (Writes.next writes_pure (writes_line (by simp))).of_eq rfl
  · have hread : ∀ draft : Draft, draft.result = some result → draft.result ≠ some .nil :=
      fun draft hresult heq => hnil (Option.some.inj (hresult.symm.trans heq))
    refine .congr ?_ fun draft hresult => statement_ret_of_ne_nil (hread draft hresult) value
    rw [if_neg hnil, expression_bind]
    exact .emitting fun form _ => writes_line (by simp)

/-! ### Cases -/

theorem isSome_of_emitInitial {value : Node} {initial : Option Java.Expression}
    (h : emitInitial value = .ok initial) : initial.isSome = !value.isNull := by
  rw [emitInitial] at h
  split at h
  case isTrue hnull =>
    cases h
    rw [hnull]
    rfl
  case isFalse hnull =>
    obtain ⟨form, -, h⟩ := bind_eq_ok_iff.mp h
    cases h
    simpa using hnull

theorem emitCases_case (value : Node) (body rest : List Node) :
    emitCases result (.case value body :: rest) = do
      let initial ← emitInitial value
      let form ← emitBlock result body
      return (initial, form ++ if initial.isSome then [.breakOut] else []) ::
        (← emitCases result rest) := by
  rw [emitCases, emitInitial]
  split
  · simp [ok_bind]
  · simp

theorem writes_case {body rest : List Node} (value : Node)
    (hbody : Writes results (level + 1) (statements body)
      (linesOf (level + 1) <$> emitBlock result body))
    (hrest : Writes results level (cases rest) (groupLines level <$> emitCases result rest)) :
    Writes results level (cases (.case value body :: rest))
      (groupLines level <$> emitCases result (.case value body :: rest)) := by
  rw [cases, label_bind, emitCases_case]
  refine .emitting fun initial hinitial => ?_
  rw [← isSome_of_emitInitial hinitial]
  refine ((writes_line (labelText_ne_empty initial)).next <| hbody.indented.next <|
    (Writes.onlyIf fun _ => (writes_line (by simp)).indented).next hrest).of_eq ?_
  cases initial with
  | none => simp [← pure_eq_ok, labelText, groupLines]
  | some label =>
    -- the line that leaves the group is the last statement of its form
    simp [← pure_eq_ok, labelText, groupLines, Java.linesOf_append, linesOf,
      Java.Statement.lines]

theorem writes_strayCase {node : Node} (rest : List Node)
    (h : ∀ value body, node ≠ .case value body) :
    Writes results level (cases (node :: rest))
      (groupLines level <$> emitCases result (node :: rest)) := by
  rw [cases, emitCases]
  · refine .emitting fun value _ => ?_
    rw [label_bind]
    -- the label is lost with the error, as it has no form
    exact .emitting fun initial _ =>
      (writes_line (labelText_ne_empty initial)).next (writes_throw _)
  · exact fun value body heq => h value body heq
  · exact fun value body heq => h value body heq

/-! ### Trees -/

mutual

/-- By induction on the tree. The level is not fixed, as blocks are written one level deeper. -/
theorem writes_statement : ∀ (node : Node) (level : Nat),
    Writes {some result} level (statement node) (linesOf level <$> emitStatement result node)
  | .discard value, _ => writes_discard value
  | .declaration name typeName value binding, _ => writes_declaration name typeName value binding
  | .assignment receiver value, _ => writes_assignment receiver value
  | .branch condition thenBody elseBody, level =>
    writes_branch condition (writes_statements thenBody (level + 1))
      (writes_statements elseBody (level + 1))
  | .switch condition nodes, level => writes_switch condition (writes_cases nodes (level + 1))
  | .loop condition body, level => writes_loop condition (writes_statements body (level + 1))
  | .ret value, _ => writes_ret value
  | .null, _ | .literal .., _ | .group .., _ | .binary .., _ | .access .., _ | .call .., _
  | .listLiteral .., _ | .case .., _ | .global .., _ | .function .., _ | .program .., _ =>
    writes_throw _

theorem writes_statements : ∀ (nodes : List Node) (level : Nat),
    Writes {some result} level (statements nodes) (linesOf level <$> emitBlock result nodes)
  | [], _ => writes_pure
  | node :: rest, level => by
    rw [statements, emitBlock]
    refine ((writes_statement node level).next (writes_statements rest level)).of_eq ?_
    simp [Java.linesOf_append]

theorem writes_cases : ∀ (nodes : List Node) (level : Nat),
    Writes {some result} level (cases nodes) (groupLines level <$> emitCases result nodes)
  | [], _ => writes_pure
  | .case value body :: rest, level =>
    writes_case value (writes_statements body (level + 1)) (writes_cases rest level)
  | .null :: rest, _ | .literal .. :: rest, _ | .group .. :: rest, _ | .binary .. :: rest, _
  | .access .. :: rest, _ | .call .. :: rest, _ | .listLiteral .. :: rest, _
  | .discard _ :: rest, _ | .declaration .. :: rest, _ | .assignment .. :: rest, _
  | .branch .. :: rest, _ | .switch .. :: rest, _ | .loop .. :: rest, _ | .ret _ :: rest, _
  | .global .. :: rest, _ | .function .. :: rest, _ | .program .. :: rest, _ =>
    writes_strayCase rest nofun

end

end

/-! ### Members of the class -/

theorem Writes.forM {f : Node → Drafting Unit} {form : Node → Emission β}
    {print : β → List String}
    (h : ∀ node, Writes results level (f node) (print <$> form node)) (nodes : List Node) :
    Writes results level (nodes.forM f) (List.flatMap print <$> nodes.mapM form) := by
  induction nodes with
  | nil => exact writes_pure
  | cons node rest ih =>
    rw [List.mapM_cons]
    refine ((h node).next ih).of_eq ?_
    simp

theorem writes_global (node : Node) :
    Writes results 1 (global node)
      ((fun field => [Java.Field.line field]) <$> emitGlobal node) := by
  cases node with
  | global name mutable typeName value isList binding =>
    rw [global, emitGlobal]
    refine .emitting fun found _ => .emitting fun ty _ => ?_
    rw [declared_bind]
    refine .emitting fun initial _ => (writes_line (by simp)).of_eq ?_
    cases isList <;> cases mutable <;> rfl
  | _ => exact writes_throw _

theorem lines_method (found : Signature) (parameters : List String) (form : List Java.Statement) :
    Java.Method.lines {
      result := javaResult found.result
      name := found.javaName
      parameters := (parameters.zip found.parameters).map fun (name, ty) => (ty.javaName, name)
      body := form } = bracedLines 1 (header found parameters) form := by
  rw [Java.Method.lines, header, List.map_map]
  rfl

/-- The type of the result is written before any statement is, whatever was there before. -/
theorem writes_function (node : Node) :
    Writes Set.univ 1 (function node) (Java.Method.lines <$> emitFunction node) := by
  cases node with
  | function name parameters parameterTypes resultType body signature =>
    rw [function, emitFunction]
    refine .emitting fun found _ => .settle ?_
    have hheader : header found parameters ≠ "" := by simp [header]
    refine (writes_braced hheader (writes_statements body 2)).of_eq ?_
    simp [lines_method]
  | _ => exact writes_throw _

theorem emitEntry_eq (functions : List Node) :
    emitEntry functions = do
      match ← findMain functions with
      | none => return none
      | some signature =>
        let found ← Emission.present signature
        return some (found.result = .integer) := by
  fun_induction emitEntry functions with
  | case1 => rfl
  | case2 rest name parameters types resultType body signature hmain =>
    rw [findMain, if_pos hmain]
    rfl
  | case3 rest name parameters types resultType body signature hmain ih =>
    rw [findMain, if_neg hmain]
    exact ih
  | case4 node rest hstray hname =>
    rw [findMain, hname]
    · rfl
    · exact hstray
  | case5 node rest hstray name hname hne ih =>
    rw [findMain, hname]
    · simp only [if_neg hne]
      exact ih
    · exact hstray
  | case6 node rest hstray hname =>
    rw [findMain, hname]
    · rfl
    · exact hstray

/-- The lines of the entry point, if there is one, with an empty line in front. -/
def entryLinesOf : Option Bool → List String
  | some exits => "" :: Java.entryLines exits
  | none => []

/-- The lines of the fields, if there are any, with an empty line in front. -/
def fieldLines (fields : List Java.Field) : List String :=
  if fields.isEmpty then [] else "" :: fields.map Java.Field.line

theorem writes_entry (functions : List Node) :
    Writes results 1 (entry functions) (entryLinesOf <$> emitEntry functions) := by
  rw [entry, emitEntry_eq]
  refine .emitting fun main _ => ?_
  cases main with
  | none => exact writes_pure
  | some signature =>
    have hcall : Writes results 2
        (do
          let found ← ofEmission (Emission.present signature)
          line (if found.result = .integer then "System.exit(new Main().main());"
            else "new Main().main();"))
        (do
          let found ← Emission.present signature
          .ok [lineAt 2 (if found.result = .integer then "System.exit(new Main().main());"
            else "new Main().main();")]) :=
      .bind fun found _ => writes_line (by split <;> simp)
    refine (writes_blank.next <| (writes_line (by simp)).next <| hcall.indented.next <|
      writes_line (by simp)).of_eq ?_
    cases signature with
    | none => rfl
    | some found =>
      simp [entryLinesOf, Java.entryLines, Emission.present, ok_bind, pure_eq_ok]

theorem writes_fields (globals : List Node) :
    Writes results 1
      (onlyIf (!globals.isEmpty) do
        line ""
        globals.forM global)
      (fieldLines <$> globals.mapM emitGlobal) := by
  refine (Writes.onlyIf fun _ => writes_blank.next (Writes.forM writes_global globals)).of_eq ?_
  cases globals with
  | nil => rfl
  | cons node rest =>
    rw [List.mapM_cons]
    simp [← pure_eq_ok, fieldLines, List.map_eq_flatMap]

/-- The lines of a method, with an empty line in front. -/
def methodLines (method : Java.Method) : List String :=
  "" :: method.lines

theorem writes_member (node : Node) :
    Writes Set.univ 1
      (do
        line ""
        function node)
      (methodLines <$> emitFunction node) :=
  (writes_blank.next (writes_function node)).of_eq (by cases emitFunction node <;> rfl)

theorem lines_program (program : Java.Program) :
    program.lines = "public class Main \x7b" :: (fieldLines program.fields ++
      entryLinesOf program.entry ++ program.methods.flatMap methodLines ++ ["", "\x7d"]) := by
  cases program with
  | mk fields entry methods => cases entry <;> rfl

theorem writes_program (tree : Node) :
    Writes Set.univ 0 (program tree) (Java.Program.lines <$> emitProgram tree) := by
  cases tree with
  | program globals functions =>
    rw [program, emitProgram]
    have hmembers := (writes_fields globals).next <| (writes_entry functions).next <|
      Writes.forM writes_member functions
    refine ((writes_line (by simp)).next <| hmembers.indented.next <| writes_blank.next <|
      writes_line (by simp)).of_eq ?_
    rw [Java.lineAt_zero, Java.lineAt_zero]
    simp [← pure_eq_ok, lines_program]
  | _ => exact (writes_line (by simp)).next (Writes.indented (writes_throw _))

end Drafting

/-! ### Rows of programs -/

namespace Draft

theorem answer_eq (draft : Draft) (tree : Node) :
    draft.answer tree = Java.Program.text <$> emitProgram tree := by
  have h := Drafting.writes_program tree { draft with level := 0, lines := [] } rfl trivial
  have hgenerate : Drafting.generate tree draft =
      (do
        Drafting.program tree
        return "\n".intercalate (← get).lines : Drafting String)
        { draft with level := 0, lines := [] } := rfl
  rw [answer, hgenerate]
  cases hform : emitProgram tree with
  | error e =>
    rw [hform] at h
    obtain ⟨after, h⟩ := h
    simp only [bind, EStateM.bind, h]
    rfl
  | ok form =>
    rw [hform] at h
    obtain ⟨result, -, h⟩ := h
    simp only [bind, EStateM.bind, h]
    rfl

/-- What a draft gives for a program does not depend on the programs that it served for before,
whatever they were and wherever they failed: it is what a new draft gives, and what the tree of its
Java form is printed as. -/
theorem drafts_forget (earlier : List Node) (tree : Node) :
    (new.after earlier).answer tree = new.answer tree ∧
      new.answer tree = Java.Program.text <$> emitProgram tree := by
  rw [answer_eq, answer_eq]
  exact ⟨rfl, rfl⟩

-- a loop in a function without a result, with something in it that is no statement
example :
    new.after [.program [] [.function "f" [] [] none
      [.loop (.literal (.boolean true) none) [.null]] (some ⟨"f", "f", [], .nil⟩)]] =
      { level := 3
        lines := ["public class Main \x7b", "", "    void f() \x7b", "        while (true) \x7b"]
        result := some .nil } :=
  rfl

end Draft

end BlockScript
