import BlockScript.CommandLine.Arguments
import BlockScript.CommandLine.Path
import BlockScript.Json.Reader
import BlockScript.Json.Writer
import BlockScript.Node.Json
import BlockScript.Session
/-!
# The command line

What a call of the program does, as a function of its arguments and of what it finds in place of the
file that it reads. What
the program under analysis prints goes to the standard output; the trace, which is kept if a
verbosity is given, goes to the file `debug.txt`, which is emptied before anything is read. The
status of a run is the lowest byte of an integer result, and zero for any other result.

## Main definitions

* `CommandLine.Entry` — what a path leads to
* `CommandLine.Complaint` — what is said on the standard error stream
* `CommandLine.Report` — what a call does
* `CommandLine.perform` — a mode applied to a file
* `CommandLine.run` — a call
-/

namespace BlockScript.CommandLine

/-- What a path leads to. -/
inductive Entry where
  | missing
  | directory
  | file (text : String)
  deriving DecidableEq, Repr, Inhabited

/-- What is said on the standard error stream. -/
inductive Complaint where
  /-- The arguments cannot be used. -/
  | usage
  /-- There is no file of this path. -/
  | notFound (path : String)
  /-- The file of this path does not hold a tree. -/
  | malformed (path reason : String)
  /-- One of the tools reports an error. -/
  | tool (error : ToolError)
  deriving Repr

/-- The forms of a call. -/
def usageText : String :=
  "usage: blockscript [-h] [-v] [--check FILE | --java FILE | --emit-ast FILE | --ast FILE]" ++
    " [FILE]\n"

namespace Complaint

/-- The complaint in words. -/
def text : Complaint → String
  | usage => usageText
  | notFound path => "Error: file " ++ path ++ " not found\n"
  | malformed path reason => "Error: malformed AST file " ++ path ++ ": " ++ reason ++ "\n"
  | tool error => error.report ++ "\n"

end Complaint

/-- How a call ends. -/
inductive Ending where
  /-- With a status, and possibly a complaint. -/
  | exit (status : Nat) (complaint : Option Complaint)
  /-- With an error that is not meant for the user. -/
  | abort (error : ToolError)
  /-- With an attempt to read the directory of this path. -/
  | notAFile (path : String)
  deriving Repr

/-- What a call does. -/
structure Report where
  /-- The standard output. -/
  out : String
  /-- How the call ends. -/
  ending : Ending
  /-- The files written, by path. -/
  written : List (String × String)
  deriving Repr

/-- The file that the trace goes to. -/
def traceFile : String :=
  "debug.txt"

/-- The end of the path of a file that holds a tree. -/
def treeSuffix : String :=
  ".ast.json"

/-- Fuel that no run uses up in practice: two to the power of 62. -/
def ampleFuel : Nat :=
  4611686018427387904

/-- A text with every end of line as a line feed. -/
def unifyLines : List Char → List Char
  | [] => []
  | '\r' :: '\n' :: rest => '\n' :: unifyLines rest
  | c :: rest => (if c = '\r' then '\n' else c) :: unifyLines rest

/-- The status that a result is passed on as. -/
def statusOf : Datum → Nat
  | .scalar (.integer n) => (n % 256).toNat
  | _ => 0

/-- How a call ends after an error of a tool. Trees of the wrong shape are not the user's fault. -/
def endingOf : ToolError → Ending
  | .source e => .exit 1 (some (.tool (.source e)))
  | .analysis e => .exit 1 (some (.tool (.analysis e)))
  | .evaluation e => .exit 1 (some (.tool (.evaluation e)))
  | other => .abort other

/-- What a step of a session does: its result goes to the standard output behind what was printed,
or becomes the status. -/
def reportStep {α : Type} (program : Node) (verbosity : Nat) (step : Session.Step α)
    (finish : α → Nat × String) : Report :=
  let session := (Session.initial verbosity).load program
  match step session with
  | .ok result session =>
    { out := Event.lines (session.events.filter Event.isPrinted) ++ (finish result).2
      ending := .exit (finish result).1 none
      written := traced session }
  | .error error session =>
    { out := Event.lines (session.events.filter Event.isPrinted)
      ending := endingOf error
      written := traced session }
where
  /-- The file with the trace, if one is kept. -/
  traced (session : Session) : List (String × String) :=
    if verbosity = 0 then []
    else [(traceFile, Event.lines (session.events.filter fun event => !event.isPrinted))]

/-- The report of a call that ends before there is a program. -/
def reportEarly (verbosity : Nat) (ending : Ending) : Report :=
  { out := "", ending, written := if verbosity = 0 then [] else [(traceFile, "")] }

/-- The tree in a file that should hold one. -/
def readTree (text : String) : Except String Node := do
  let json ← (Json.read text).mapError fun e => e.message text
  (Node.ofJson json).mapError FormatError.message

/-- Analyzes and runs a program. -/
def reportRun (verbosity : Nat) (program : Node) : Report :=
  reportStep program verbosity (do Session.analyze; Session.run ampleFuel) fun result =>
    (statusOf result, "")

/-- Applies a mode to the text of a file. -/
def performOn (verbosity : Nat) (mode : Mode) (path text : String) : Report :=
  let withProgram (next : Node → Report) : Report :=
    match parseProgram text with
    | .ok program => next program
    | .error e => reportEarly verbosity (endingOf (.source e))
  match mode with
  | .run => withProgram (reportRun verbosity)
  | .check => withProgram fun program =>
    reportStep program verbosity Session.analyze fun _ => (0, "")
  | .java => withProgram fun program =>
    reportStep program verbosity (do Session.analyze; Session.emit) fun java => (0, java ++ "\n")
  | .emitTree => withProgram fun program =>
    let treePath := path ++ treeSuffix
    let early := reportEarly verbosity (.exit 0 none)
    { early with
      out := treePath ++ "\n"
      written := early.written ++ [(treePath, program.toJson.indented)] }
  | .runTree =>
    match readTree text with
    | .ok program => reportRun verbosity program
    | .error reason => reportEarly verbosity (.exit 1 (some (.malformed path reason)))

/-- Applies a mode to what a path leads to. -/
def perform (verbosity : Nat) (mode : Mode) (path : String) : Entry → Report
  | .file text => performOn verbosity mode path (String.ofList (unifyLines text.toList))
  | .missing => reportEarly verbosity (.exit 1 (some (.notFound path)))
  | .directory => reportEarly verbosity (.notAFile path)

/-- The path of the file that a call reads. -/
def inputPath? (arguments : List String) : Option String :=
  match Arguments.read arguments with
  | .ok args => args.task?.map fun task => normalPath task.2
  | .error _ => none

/-- What a call with the given arguments does, where `entry` tells what a path leads to. -/
def run (arguments : List String) (entry : String → Entry) : Report :=
  match Arguments.read arguments with
  | .error .help => { out := usageText, ending := .exit 0 none, written := [] }
  | .error .usage => { out := "", ending := .exit 2 (some .usage), written := [] }
  | .ok args =>
    match args.task? with
    | none => reportEarly args.verbosity (.exit 2 (some .usage))
    | some (mode, path) =>
      let path := normalPath path
      let emptied := args.verbosity != 0 && path == traceFile
      perform args.verbosity mode path (if emptied then .file "" else entry path)

end BlockScript.CommandLine
