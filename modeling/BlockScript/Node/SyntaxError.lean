import BlockScript.Token.Lexer
/-!
# Syntax errors

A source text is refused either because of a character at which no token can begin, or because of
the first token that no program could have in its place.

## Main definitions

* `Expectation` — what could have stood there instead
* `SyntaxError` — why a text is refused
-/

namespace BlockScript

/-- What the grammar asks for at some place. -/
inductive Expectation where
  | symbol (text : String)
  | identifier
  | typeName
  | functionName
  | parameterName
  | expression
  | globalsFirst
  | definition
  | listEnd
  | semicolon
  | initialValue
  | parametersEnd
  | doKeyword
  | functionEnd
  | ifEnd
  | switchEnd
  | whileEnd
  | defaultCase
  | caseColon
  | groupEnd
  | offsetEnd
  | argumentsEnd
  deriving DecidableEq, Repr, Inhabited

namespace Expectation

/-- The expectation in words. -/
def text : Expectation → String
  | symbol text => "expected " ++ Text.quoted text
  | identifier => "expected identifier"
  | typeName => "expected type name"
  | functionName => "expected function name"
  | parameterName => "expected parameter name"
  | expression => "expected expression"
  | globalsFirst => "globals must be declared before functions"
  | definition => "expected LIST, VAR, VAL or FUN"
  | listEnd => "expected ']' to close the list"
  | semicolon => "missing semicolon"
  | initialValue => "VAL requires an initial value"
  | parametersEnd => "expected ')' after parameters"
  | doKeyword => "expected DO"
  | functionEnd => "expected END to close function"
  | ifEnd => "expected END to close IF"
  | switchEnd => "expected END to close SWITCH"
  | whileEnd => "expected END to close WHILE"
  | defaultCase => "expected DEFAULT"
  | caseColon => "expected ':' after CASE value"
  | groupEnd => "expected ')' to close group"
  | offsetEnd => "expected ']' after list offset"
  | argumentsEnd => "expected ')' after arguments"

end Expectation

/-- Why a source text is refused. -/
inductive SyntaxError where
  /-- No token can begin at some character. -/
  | lexical (error : LexicalError)
  /-- Something else was expected in place of the token found, or of the end of the text. -/
  | grammar (expected : Expectation) (found : Option String) (index : Nat)
  deriving DecidableEq, Repr

namespace SyntaxError

/-- The index of the character or token at fault. -/
def index : SyntaxError → Nat
  | lexical error => error.index
  | grammar _ _ index => index

/-- The error in words. -/
def message : SyntaxError → String
  | lexical error => error.message
  | grammar expected found index =>
    let shown := match found with
      | some text => Text.quoted text
      | none => "end of input"
    expected.text ++ ", got " ++ shown ++ " at index " ++ toString index

end SyntaxError

end BlockScript
