import BlockScript.Text.Digit
/-!
# Command-line arguments

The options are `-v`, which counts, `-h` and `--help`, and four modes that take the path of a file;
at most one mode can be chosen. The path of a program may stand on its own, before, between or
behind the options. Short options can be joined, with or without an equals sign behind the first;
long options can be shortened as long as only one begins that way, and a path can be joined to a
mode by an equals sign. After `--` nothing is an option any more.

What looks like a negative number, a single dash and what contains a blank without beginning like an
option are no options either.

## Main definitions

* `Mode` — the modes
* `Arguments` — what the arguments ask for
* `Arguments.read` — the reading of arguments
* `Arguments.task?` — the mode and the path of the file to work on
-/

namespace BlockScript.CommandLine

/-- What can be done with a file. -/
inductive Mode where
  /-- Analyze and run a source text. -/
  | run
  /-- Analyze a source text. -/
  | check
  /-- Print the Java form of a source text. -/
  | java
  /-- Write the JSON form of the tree of a source text. -/
  | emitTree
  /-- Analyze and run a tree in its JSON form. -/
  | runTree
  deriving DecidableEq, Repr, Inhabited

/-- The written forms of the modes that have one. -/
def modeNames : List (String × Mode) :=
  [("--check", .check), ("--java", .java), ("--emit-ast", .emitTree), ("--ast", .runTree)]

/-- What one argument is by itself. -/
inductive Word where
  /-- The end of the options. -/
  | terminator
  /-- An argument that is no option. -/
  | plain (text : String)
  /-- Short options, one letter each. -/
  | short (letters : List Char)
  /-- The long form of the option that asks for help. -/
  | help
  /-- A mode, with the path joined to it. -/
  | mode (mode : Mode) (joined : Option String)
  /-- An option with something joined to it that it does not take. -/
  | overloaded
  /-- A shortened option that could be one of several. -/
  | ambiguous
  /-- Something that looks like an option and is none. -/
  | unknown
  deriving DecidableEq, Repr, Inhabited

/-- The long option of a given name, with the text joined to it. -/
def longWord? (name : String) (joined : Option String) : Option Word :=
  if name = "--help" then some (if joined.isSome then .overloaded else .help)
  else (modeNames.lookup name).map fun mode => .mode mode joined

/-- The names of the long options. -/
def longNames : List String :=
  "--help" :: modeNames.map Prod.fst

/-- Splits a text at its first equals sign. -/
def splitEquals (cs : List Char) : List Char × Option (List Char) :=
  match cs.dropWhile (· != '=') with
  | _ :: rest => (cs.takeWhile (· != '='), some rest)
  | [] => (cs, none)

/-- Whether a text reads as a negative number: a dash and digits, with a point at most before the
last run of them. A line feed may follow. -/
def isNegativeNumber : List Char → Bool
  | '-' :: rest =>
    let isDigit (c : Char) : Bool := (Text.digitValue? c).isSome
    let isEnd (cs : List Char) : Bool := cs.isEmpty || cs == ['\n']
    let isDigits (cs : List Char) : Bool := cs.head?.any isDigit && isEnd (cs.dropWhile isDigit)
    match rest.dropWhile isDigit with
    | '.' :: fraction => isDigits fraction
    | _ => isDigits rest
  | _ => false

/-- What an argument is that begins with a dash and no option, be it shortened. -/
def unmatchedWord (text : String) : Word :=
  if isNegativeNumber text.toList || text.toList.contains ' ' then .plain text else .unknown

/-- What an argument in front of `--` is that begins with two dashes. -/
def longWord (text : String) : Word :=
  let (head, joined) := splitEquals text.toList
  let joined := joined.map String.ofList
  match longWord? (String.ofList head) joined with
  | some word => word
  | none =>
    match longNames.filter fun name => head.isPrefixOf name.toList with
    | [name] => (longWord? name joined).getD .unknown
    | [] => unmatchedWord text
    | _ => .ambiguous

/-- What an argument in front of `--` is that begins with a single dash. An equals sign behind the
first short option does not count, but something has to follow it. -/
def shortWord (text : String) : Word :=
  match text.toList.tail with
  | letter :: rest =>
    if letter = 'v' ∨ letter = 'h' then
      match rest with
      | ['='] => .overloaded
      | '=' :: others => .short (letter :: others)
      | others => .short (letter :: others)
    else unmatchedWord text
  | [] => .plain text

/-- What an argument in front of `--` is. -/
def wordOf (text : String) : Word :=
  match text.toList with
  | '-' :: '-' :: _ => longWord text
  | '-' :: _ => shortWord text
  | _ => .plain text

/-- What the arguments are one by one. -/
def wordsOf : List String → List Word
  | [] => []
  | "--" :: rest => .terminator :: rest.map .plain
  | text :: rest => wordOf text :: wordsOf rest

/-- What the arguments ask for. -/
structure Arguments where
  /-- How often `-v` was given. -/
  verbosity : Nat := 0
  /-- The mode chosen, and the path given with it. -/
  mode : Option (Mode × String) := none
  /-- The path that stands on its own. -/
  program : Option String := none
  /-- Whether arguments that stand on their own were met. -/
  sawProgram : Bool := false
  /-- Whether something could not be used. -/
  hasExtras : Bool := false
  deriving Repr, Inhabited

/-- Why reading arguments ends early. -/
inductive Interruption where
  /-- The arguments cannot be used. -/
  | usage
  /-- Help was asked for. -/
  | help
  deriving DecidableEq, Repr, Inhabited

namespace Arguments

/-- The effect of short options. Help is given only if every letter is an option. -/
def readShort (args : Arguments) (letters : List Char) : Except Interruption Arguments :=
  if letters.all fun c => c == 'v' || c == 'h' then
    if letters.contains 'h' then .error .help
    else .ok { args with verbosity := args.verbosity + letters.length }
  else .error .usage

/-- The effect of a mode with its path: another mode must not be chosen yet. -/
def choose (args : Arguments) (mode : Mode) (path : String) : Except Interruption Arguments :=
  match args.mode with
  | some (chosen, _) =>
    if chosen = mode then .ok { args with mode := some (mode, path) } else .error .usage
  | none => .ok { args with mode := some (mode, path) }

/-- The path that is joined to a mode. Two dashes end the options here as well, so they leave the
mode without a path. -/
def joinedPath (text : String) : String :=
  if text = "--" then "" else text

/-- The effect of adjacent arguments that are no options. The first such run holds the path of the
program, possibly with the end of the options on one side of it; what is left over is unusable. -/
def readPlain (args : Arguments) (run : List Word) : Arguments :=
  match run with
  | [] => args
  | run =>
    if args.sawProgram then { args with hasExtras := true }
    else
      let args := { args with sawProgram := true }
      match run with
      | [.plain path] => { args with program := some path }
      | [.terminator] => args
      | [.terminator, .plain path] => { args with program := some path }
      | [.plain path, .terminator] => { args with program := some path }
      | _ => { args with hasExtras := true }

/-- Whether an argument is no option. -/
def isPlain : Word → Bool
  | .terminator => true
  | .plain _ => true
  | _ => false

/-- The effect of arguments in order. The arguments in `run` were met last and are no options; they
are taken together. -/
def readWords (args : Arguments) (run : List Word) : List Word → Except Interruption Arguments
  | [] => .ok (args.readPlain run)
  | .terminator :: rest => readWords args (run ++ [.terminator]) rest
  | .plain text :: rest => readWords args (run ++ [.plain text]) rest
  | .unknown :: rest => readWords { args.readPlain run with hasExtras := true } [] rest
  | .short letters :: rest => do
    readWords (← (args.readPlain run).readShort letters) [] rest
  | .mode mode (some joined) :: rest => do
    readWords (← (args.readPlain run).choose mode (joinedPath joined)) [] rest
  | .mode mode none :: .plain path :: rest => do
    readWords (← (args.readPlain run).choose mode path) [] rest
  | .help :: _ => .error .help
  | .mode _ none :: _ => .error .usage
  | .overloaded :: _ => .error .usage
  | .ambiguous :: _ => .error .usage

/-- What the arguments ask for. -/
def read (arguments : List String) : Except Interruption Arguments := do
  let words := wordsOf arguments
  if words.contains .ambiguous then
    .error .usage
  else
    let args ← readWords {} [] words
    if args.hasExtras then .error .usage else return args

/-- The mode and the path of the file to work on. An empty path counts as none. -/
def task? (args : Arguments) : Option (Mode × String) :=
  match args.mode with
  | some (mode, path) => if path.isEmpty then plainTask? else some (mode, path)
  | none => plainTask?
where
  /-- The task if no mode is chosen. -/
  plainTask? : Option (Mode × String) :=
    (args.program.filter fun path => !path.isEmpty).map fun path => (.run, path)

end Arguments

end BlockScript.CommandLine
