import BlockScript.Java.Emission
/-!
# Drafts

A program is written here line by line, without a tree of its Java form in between. A draft is what
has been written so far: the lines, the level at which the next line stands, and the type of the
result of the method that is being written, which decides how returns look. Levels are raised and
lowered by hand around every block.

One draft serves for many programs. What fails leaves it as it was at that moment, with the level of
the innermost block and the lines up to there. The next program begins with an empty page at level
zero, but nobody takes back the type of the result.

## Main definitions

* `Draft`, `Drafting` — drafts, and steps on them, which can fail
* `Drafting.line`, `Drafting.indented` — one line, and lines one level deeper
* `Drafting.statement`, `Drafting.function`, `Drafting.program` — what is written for trees
* `Draft.answer`, `Draft.after` — the text of a program, and the draft behind a row of programs

## Main results

* `Drafting.statement_ret_of_nil`, `Drafting.statement_ret_of_ne_nil` — what decides about returns
-/

namespace BlockScript

/-- What has been written so far. -/
structure Draft where
  /-- How many blocks the next line stands in. -/
  level : Nat
  /-- The lines, with their indentation. -/
  lines : List String
  /-- The type of the result of the method that is being written, or of the last one. -/
  result : Option Ty
  deriving DecidableEq, Repr

/-- A draft with nothing in it. -/
def Draft.new : Draft :=
  { level := 0, lines := [], result := none }

/-- Steps on a draft. What was written before a failure stays. -/
abbrev Drafting : Type → Type := EStateM EmissionError Draft

namespace Drafting

/-- Carries out what does not touch the draft. -/
def ofEmission {α : Type} (x : Emission α) : Drafting α := fun draft =>
  match x with
  | .ok a => .ok a draft
  | .error e => .error e draft

/-- Writes a line at the current level; an empty line is not indented. -/
def line (text : String) : Drafting Unit :=
  modify fun draft =>
    { draft with
      lines := draft.lines ++ [if text = "" then "" else Java.lineAt draft.level text] }

/-- Goes one level deeper. -/
def raise : Drafting Unit :=
  modify fun draft => { draft with level := draft.level + 1 }

/-- Goes back one level. -/
def lower : Drafting Unit :=
  modify fun draft => { draft with level := draft.level - 1 }

/-- Writes something one level deeper. What fails does not come back to the old level. -/
def indented (x : Drafting Unit) : Drafting Unit := do
  raise
  x
  lower

/-- Does something only under a condition. -/
def onlyIf (condition : Bool) (x : Drafting Unit) : Drafting Unit :=
  if condition then x else pure ()

/-- Takes the result of a method for the type that decides about its returns. -/
def settle (result : Ty) : Drafting Unit :=
  modify fun draft => { draft with result := some result }

/-- The text of an expression. -/
def expression (node : Node) : Drafting String :=
  ofEmission (Java.Expression.text <$> emitExpression node)

/-- What is declared, with its initial value if there is one. -/
def declared (text : String) (value : Node) : Drafting String :=
  if value.isNull then pure text else do
    return text ++ " = " ++ (← expression value)

/-- The label of a case. -/
def label (value : Node) : Drafting String :=
  if value.isNull then pure "default:" else do
    return "case " ++ (← expression value) ++ ":"

/-! ### Statements -/

mutual

/-- Writes a statement. -/
def statement : Node → Drafting Unit
  | .discard value => do
    line ((← expression value) ++ ";")
  | .declaration _ _ value binding => do
    let found ← ofEmission (Emission.present binding)
    let ty ← ofEmission (Emission.present found.type)
    line ((← declared (ty.javaName ++ " " ++ found.name) value) ++ ";")
  | .assignment receiver value => do
    let target ← expression receiver
    line (target ++ " = " ++ (← expression value) ++ ";")
  | .branch condition thenBody elseBody => do
    line ("if (" ++ (← expression condition) ++ ") \x7b")
    indented (statements thenBody)
    onlyIf (!elseBody.isEmpty) do
      line "\x7d else \x7b"
      indented (statements elseBody)
    line "\x7d"
  | .switch condition nodes => do
    line ("switch (" ++ (← expression condition) ++ ") \x7b")
    indented (cases nodes)
    line "\x7d"
  | .loop condition body => do
    if body.isEmpty then
      line ("while (" ++ (← expression condition) ++ ") \x7b\x7d")
    else
      line ("while (" ++ (← expression condition) ++ ") \x7b")
      indented (statements body)
      line "\x7d"
  | .ret value => do
    if (← get).result = some .nil then
      -- nothing can be returned, but a call is made for its effect
      onlyIf (value.kind? = some .call) do
        line ((← expression value) ++ ";")
      line "return;"
    else
      line ("return " ++ (← expression value) ++ ";")
  | other => throw (.misshapen (.unexpected .emitStatement other.kind?))

/-- Writes the statements of a block. -/
def statements : List Node → Drafting Unit
  | [] => pure ()
  | node :: rest => do
    statement node
    statements rest

/-- Writes the cases of a switch. -/
def cases : List Node → Drafting Unit
  | [] => pure ()
  | .case value body :: rest => do
    line (← label value)
    indented (statements body)
    onlyIf (!value.isNull) (indented (line "break;"))
    cases rest
  | node :: _ => do
    -- the label is written before it turns out that there are no statements
    let value ← ofEmission (Emission.present node.value?)
    line (← label value)
    ofEmission Emission.incomplete

end

/-! ### Returns -/

section

variable {draft : Draft}

/-- In a method without a result nothing is returned, but a call is made for its effect. -/
theorem statement_ret_of_nil (h : draft.result = some .nil) (value : Node) :
    statement (.ret value) draft =
      (do
        onlyIf (value.kind? = some NodeKind.call) (statement (.discard value))
        line "return;") draft := by
  rw [statement, statement]
  exact congrFun (if_pos h) draft

/-- In a method with a result, or outside of all methods, the value is returned. -/
theorem statement_ret_of_ne_nil (h : draft.result ≠ some .nil) (value : Node) :
    statement (.ret value) draft =
      (do line ("return " ++ (← expression value) ++ ";")) draft := by
  rw [statement]
  exact congrFun (if_neg h) draft

end

/-! ### Programs -/

/-- Writes a global variable. -/
def global : Node → Drafting Unit
  | .global _ mutable _ value isList binding => do
    let found ← ofEmission (Emission.present binding)
    let ty ← ofEmission (Emission.present found.type)
    let head :=
      if isList then ty.javaName ++ "[] " ++ found.name
      else if mutable then ty.javaName ++ " " ++ found.name
      else "final " ++ ty.javaName ++ " " ++ found.name
    line ((← declared head value) ++ ";")
  | _ => ofEmission Emission.incomplete

/-- The head of a method, up to the brace of its body. -/
def header (found : Signature) (parameters : List String) : String :=
  let typed := (parameters.zip found.parameters).map fun (name, ty) => ty.javaName ++ " " ++ name
  javaResult found.result ++ " " ++ found.javaName ++ "(" ++ ", ".intercalate typed ++ ") \x7b"

/-- Writes a function. -/
def function : Node → Drafting Unit
  | .function _ parameters _ _ body signature => do
    let found ← ofEmission (Emission.present signature)
    settle found.result
    if body.isEmpty then
      line (header found parameters ++ "\x7d")
    else
      line (header found parameters)
      indented (statements body)
      line "\x7d"
  | _ => ofEmission Emission.incomplete

/-- The annotation of the first `main` without parameters, if there is such a function. -/
def findMain : List Node → Emission (Option (Option Signature))
  | [] => .ok none
  | .function name parameters _ _ _ signature :: rest =>
    if name = "main" ∧ parameters = [] then .ok (some signature) else findMain rest
  | node :: rest =>
    match node.name? with
    | some name => if name = "main" then Emission.incomplete else findMain rest
    | none => Emission.incomplete

/-- Writes the entry point, if there is a `main` for it. -/
def entry (functions : List Node) : Drafting Unit := do
  match ← ofEmission (findMain functions) with
  | none => pure ()
  | some signature => do
    line ""
    line "public static void main(String[] args) \x7b"
    indented do
      let found ← ofEmission (Emission.present signature)
      line (if found.result = .integer then "System.exit(new Main().main());"
        else "new Main().main();")
    line "\x7d"

/-- Writes a program. -/
def program : Node → Drafting Unit
  | .program globals functions => do
    line "public class Main \x7b"
    indented do
      onlyIf (!globals.isEmpty) do
        line ""
        globals.forM global
      entry functions
      functions.forM fun node => do
        line ""
        function node
    line ""
    line "\x7d"
  | _ => do
    line "public class Main \x7b"
    indented (ofEmission Emission.incomplete)

/-- Writes a program on an empty page. The type of the result stays what it was. -/
def generate (tree : Node) : Drafting String := do
  modify fun draft => { draft with level := 0, lines := [] }
  program tree
  return "\n".intercalate (← get).lines

end Drafting

namespace Draft

/-- What a draft gives for a program: its text, or the reason why there is none. -/
def answer (draft : Draft) (tree : Node) : Except EmissionError String :=
  match Drafting.generate tree draft with
  | .ok text _ => .ok text
  | .error e _ => .error e

/-- The draft behind a program, whether it was written to its end or failed. -/
def behind (draft : Draft) (tree : Node) : Draft :=
  match Drafting.generate tree draft with
  | .ok _ after => after
  | .error _ after => after

/-- The draft behind a row of programs. -/
def after (draft : Draft) (trees : List Node) : Draft :=
  trees.foldl behind draft

end Draft

end BlockScript
