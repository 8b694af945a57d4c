import BlockScript.Node
import BlockScript.Node.SyntaxError
import BlockScript.Text.Escape
/-!
# From tokens to trees

A parser by recursive descent. Binary operators have four tiers, from the loosest to the tightest:
logical, comparing, adding, multiplying; all of them group to the left. Parsing stops at the first
token that does not fit.

A parser takes the tokens that are left and returns those that it leaves. Parsers that call each
other spend one unit of fuel with each call; no token is waited for by more than a few of them, so
the fuel that `fuelFor` gives is never used up.

## Main definitions

* `Parser` — parsers, and what they miss if they fail
* `Tier` — the tiers of binary operators
* `parseExpression`, `parseStatement`, `parseBlock`, `parseProgram` — the entry points
-/

namespace BlockScript

/-- What was missed, and the tokens that were left where it was missed. -/
structure Miss where
  /-- What was expected. -/
  expected : Expectation
  /-- The tokens from that place on. -/
  rest : List Token
  deriving DecidableEq, Repr

/-- Functions from the tokens left to a result and the tokens left after it. -/
abbrev Parser : Type → Type := StateT (List Token) (Except Miss)

namespace Parser

/-- Fails at the current place. -/
def miss {α : Type} (expected : Expectation) : Parser α :=
  fun tokens => .error { expected, rest := tokens }

/-- The token at the current place. -/
def peek : Parser (Option Token) :=
  fun tokens => .ok (tokens.head?, tokens)

/-- Moves to the next token. -/
def advance : Parser Unit :=
  fun tokens => .ok ((), tokens.tail)

/-- Whether the token at the current place has one of the given texts. -/
def sees (texts : List String) : Parser Bool := do
  return (← peek).any fun token => texts.contains token.text

/-- Takes the token at the current place if it has the given text, and tells whether it did. -/
def accept (text : String) : Parser Bool := do
  if ← sees [text] then
    advance
    return true
  else
    return false

/-- Takes the token with the given text, which must be at the current place. -/
def expect (text : String) (expected : Expectation) : Parser Unit := do
  unless ← accept text do
    miss expected

/-- Takes a name. -/
def name (expected : Expectation) : Parser String := do
  match ← peek with
  | some token =>
    if token.isName then
      advance
      return token.text
    else
      miss expected
  | none => miss expected

/-- Takes a colon and the name of a type, if there is a colon. -/
def typeSuffix : Parser (Option String) := do
  if ← accept ":" then
    return some (← name .typeName)
  else
    return none

/-- The tiers of binary operators. -/
inductive Tier where
  | logical
  | comparing
  | adding
  | multiplying
  deriving DecidableEq, Repr, Inhabited

namespace Tier

/-- The next tighter tier; the operands of the tightest are primary expressions. -/
def tighter? : Tier → Option Tier
  | logical => some comparing
  | comparing => some adding
  | adding => some multiplying
  | multiplying => none

/-- The operators of a tier. -/
def symbols : Tier → List String
  | logical => ["&&", "||"]
  | comparing => ["<", ">", "==", "!="]
  | adding => ["+", "-"]
  | multiplying => ["*", "/", "^"]

end Tier

/-- Takes an operator of a tier, if there is one. -/
def operatorOf (tier : Tier) : Parser (Option String) := do
  match ← peek with
  | some token =>
    if tier.symbols.contains token.text then
      advance
      return some token.text
    else
      return none
  | none => return none

/-- The text between the first and the last character of a token. -/
def inside (text : String) : String :=
  String.ofList text.toList.tail.dropLast

/-- The value of a token that is a literal by itself. A decimal with more digits behind the point
than fit is rounded. -/
def literal? (token : Token) : Option Scalar :=
  if token.text = "NIL" then some .nil
  else if token.text = "TRUE" then some (.boolean true)
  else if token.text = "FALSE" then some (.boolean false)
  else match token.kind with
    | .integer => (integerOfText? token.text).map .integer
    | .decimal => (Decimal.ofText? token.text).map fun value => .decimal value.rounded
    | .character => some (.character (Text.unescape (inside token.text)))
    | .string => some (.string (Text.unescape (inside token.text)))
    | _ => none

/-- The keywords that a block ends before. -/
def blockEnds : List String :=
  ["END", "ELSE", "CASE", "DEFAULT", "LIST", "VAR", "VAL", "FUN"]

/-! ### Expressions -/

mutual

/-- An expression whose operators are of the given tier or tighter. -/
def tier : Nat → Tier → Parser Node
  | 0, _ => miss .expression
  | fuel + 1, t => do
    let first ← operand fuel t
    tierRest fuel t first

/-- An operand of the given tier. -/
def operand : Nat → Tier → Parser Node
  | 0, _ => miss .expression
  | fuel + 1, t =>
    match t.tighter? with
    | some tighter => tier fuel tighter
    | none => primary fuel

/-- The operators of the given tier that follow `left`, each with its right operand. -/
def tierRest : Nat → Tier → Node → Parser Node
  | 0, _, _ => miss .expression
  | fuel + 1, t, left => do
    match ← operatorOf t with
    | some symbol =>
      let right ← operand fuel t
      tierRest fuel t (.binary symbol left right none)
    | none => return left

/-- A literal, a group, a variable, a list element or a call. -/
def primary : Nat → Parser Node
  | 0 => miss .expression
  | fuel + 1 => do
    match ← peek with
    | none => miss .expression
    | some token =>
      match literal? token with
      | some value =>
        advance
        return .literal value none
      | none =>
        if token.text = "(" then
          advance
          let inner ← tier fuel .logical
          expect ")" .groupEnd
          return .group inner none
        else if token.isName then
          advance
          if ← accept "(" then
            return .call token.text (← arguments fuel) none none
          else if ← accept "[" then
            let offset ← tier fuel .logical
            expect "]" .offsetEnd
            return .access token.text offset none none
          else
            return .access token.text .null none none
        else
          miss .expression

/-- The arguments of a call, behind the opening parenthesis. -/
def arguments : Nat → Parser (List Node)
  | 0 => miss .expression
  | fuel + 1 => do
    if ← accept ")" then
      return []
    else
      let values ← expressions fuel
      expect ")" .argumentsEnd
      return values

/-- Expressions with commas between them, at least one. -/
def expressions : Nat → Parser (List Node)
  | 0 => miss .expression
  | fuel + 1 => do
    let first ← tier fuel .logical
    if ← accept "," then
      return first :: (← expressions fuel)
    else
      return [first]

end

/-- An expression. -/
def expression (fuel : Nat) : Parser Node :=
  tier fuel .logical

/-- An equals sign and an expression, if there is an equals sign. -/
def initializer (fuel : Nat) : Parser Node := do
  if ← accept "=" then
    expression fuel
  else
    return .null

/-! ### Statements -/

/-- A declaration, behind its keyword. -/
def declaration (fuel : Nat) : Parser Node := do
  let variableName ← name .identifier
  let typeName ← typeSuffix
  let value ← initializer fuel
  expect ";" .semicolon
  return .declaration variableName typeName value none

/-- The end of a function, behind its keyword. -/
def returned (fuel : Nat) : Parser Node := do
  let value ← expression fuel
  expect ";" .semicolon
  return .ret value

/-- An assignment or an expression evaluated for its effect. -/
def expressionStatement (fuel : Nat) : Parser Node := do
  let receiver ← expression fuel
  if ← accept "=" then
    let value ← expression fuel
    expect ";" .semicolon
    return .assignment receiver value
  else
    expect ";" .semicolon
    return .discard receiver

mutual

/-- A statement. -/
def statement : Nat → Parser Node
  | 0 => miss .expression
  | fuel + 1 => do
    if ← accept "LET" then declaration fuel
    else if ← accept "SWITCH" then switch fuel
    else if ← accept "IF" then branch fuel
    else if ← accept "WHILE" then loop fuel
    else if ← accept "RETURN" then returned fuel
    else expressionStatement fuel

/-- Statements up to the end of the tokens or a keyword that no statement begins with. -/
def block : Nat → Parser (List Node)
  | 0 => miss .expression
  | fuel + 1 => do
    if (← peek).isNone || (← sees blockEnds) then
      return []
    else
      let first ← statement fuel
      let rest ← block fuel
      return first :: rest

/-- A choice by a condition, behind its keyword. -/
def branch : Nat → Parser Node
  | 0 => miss .expression
  | fuel + 1 => do
    let condition ← expression fuel
    expect "DO" .doKeyword
    let thenBody ← block fuel
    let elseBody ← if ← accept "ELSE" then block fuel else pure []
    expect "END" .ifEnd
    return .branch condition thenBody elseBody

/-- A choice by a value, behind its keyword. -/
def switch : Nat → Parser Node
  | 0 => miss .expression
  | fuel + 1 => do
    let condition ← expression fuel
    let cases ← cases fuel
    expect "DEFAULT" .defaultCase
    discard (accept ":")
    let body ← block fuel
    expect "END" .switchEnd
    return .switch condition (cases ++ [.case .null body])

/-- The cases of a switch that have values. -/
def cases : Nat → Parser (List Node)
  | 0 => miss .expression
  | fuel + 1 => do
    if ← accept "CASE" then
      let value ← expression fuel
      expect ":" .caseColon
      let body ← block fuel
      let rest ← cases fuel
      return .case value body :: rest
    else
      return []

/-- A loop, behind its keyword. -/
def loop : Nat → Parser Node
  | 0 => miss .expression
  | fuel + 1 => do
    let condition ← expression fuel
    expect "DO" .doKeyword
    let body ← block fuel
    expect "END" .whileEnd
    return .loop condition body

end

/-! ### Programs -/

/-- A list variable, behind its keyword. -/
def listGlobal (fuel : Nat) : Parser Node := do
  let variableName ← name .identifier
  let typeName ← typeSuffix
  expect "=" (.symbol "=")
  expect "[" (.symbol "[")
  let values ← expressions fuel
  expect "]" .listEnd
  expect ";" .semicolon
  return .global variableName true typeName (.listLiteral values none) true none

/-- A variable that can be assigned to, behind its keyword. -/
def mutableGlobal (fuel : Nat) : Parser Node := do
  let variableName ← name .identifier
  let typeName ← typeSuffix
  let value ← initializer fuel
  expect ";" .semicolon
  return .global variableName true typeName value false none

/-- A constant, behind its keyword. -/
def constantGlobal (fuel : Nat) : Parser Node := do
  let variableName ← name .identifier
  let typeName ← typeSuffix
  expect "=" .initialValue
  let value ← expression fuel
  expect ";" .semicolon
  return .global variableName false typeName value false none

/-- The global variables that come next. -/
def globals : Nat → Parser (List Node)
  | 0 => miss .definition
  | fuel + 1 => do
    if ← accept "LIST" then
      return (← listGlobal fuel) :: (← globals fuel)
    else if ← accept "VAR" then
      return (← mutableGlobal fuel) :: (← globals fuel)
    else if ← accept "VAL" then
      return (← constantGlobal fuel) :: (← globals fuel)
    else
      return []

/-- Parameters with commas between them, at least one. -/
def parameters : Nat → Parser (List (String × Option String))
  | 0 => miss .parameterName
  | fuel + 1 => do
    let parameter ← name .parameterName
    let typeName ← typeSuffix
    if ← accept "," then
      return (parameter, typeName) :: (← parameters fuel)
    else
      return [(parameter, typeName)]

/-- A function, behind its keyword. -/
def function (fuel : Nat) : Parser Node := do
  let functionName ← name .functionName
  expect "(" (.symbol "(")
  let params ← if ← sees [")"] then pure [] else parameters fuel
  expect ")" .parametersEnd
  let resultType ← typeSuffix
  expect "DO" .doKeyword
  let body ← block fuel
  expect "END" .functionEnd
  return .function functionName (params.map Prod.fst) (params.map Prod.snd) resultType body none

/-- The functions that come next. -/
def functions : Nat → Parser (List Node)
  | 0 => miss .definition
  | fuel + 1 => do
    if ← accept "FUN" then
      return (← function fuel) :: (← functions fuel)
    else
      return []

/-- A program: global variables, then functions, then the end of the tokens. -/
def program (fuel : Nat) : Parser Node := do
  let globals ← globals fuel
  let functions ← functions fuel
  match ← peek with
  | none => return .program globals functions
  | some token =>
    if ["LIST", "VAR", "VAL"].contains token.text then miss .globalsFirst
    else miss .definition

/-! ### Entry points -/

/-- The fuel that parsing some tokens cannot use up. -/
def fuelFor (tokens : List Token) : Nat :=
  16 * (tokens.length + 1)

/-- The index at which text that follows some tokens would be missed. -/
def endIndex (tokens : List Token) : Nat :=
  match tokens.getLast? with
  | some token => token.stop
  | none => 0

/-- The error for something missed among some tokens. -/
def errorOf (tokens : List Token) (missed : Miss) : SyntaxError :=
  match missed.rest with
  | token :: _ => .grammar missed.expected (some token.text) token.index
  | [] => .grammar missed.expected none (endIndex tokens)

/-- Applies a parser to some tokens; the answer tells how many of them it took. -/
def run {α : Type} (parser : Nat → Parser α) (tokens : List Token) :
    Except SyntaxError (α × Nat) :=
  match parser (fuelFor tokens) tokens with
  | .ok (result, rest) => .ok (result, tokens.length - rest.length)
  | .error missed => .error (errorOf tokens missed)

/-- Applies a parser to a source text. -/
def runText {α : Type} (parser : Nat → Parser α) (source : String) :
    Except SyntaxError (α × Nat) :=
  match tokenize source with
  | .ok tokens => run parser tokens
  | .error e => .error (.lexical e)

end Parser

/-- The expression at the head of a source text, and how many tokens it takes. -/
def parseExpression (source : String) : Except SyntaxError (Node × Nat) :=
  Parser.runText Parser.expression source

/-- The statement at the head of a source text, and how many tokens it takes. -/
def parseStatement (source : String) : Except SyntaxError (Node × Nat) :=
  Parser.runText Parser.statement source

/-- The statements at the head of a source text, and how many tokens they take. -/
def parseBlock (source : String) : Except SyntaxError (List Node × Nat) :=
  Parser.runText Parser.block source

/-- The program that a source text denotes. -/
def parseProgram (source : String) : Except SyntaxError Node :=
  (Parser.runText Parser.program source).map Prod.fst

end BlockScript
