import BlockScript.Token
/-!
# From text to tokens

At each place the lexer skips blanks, or takes the first of the following that matches, as long as
it goes: a decimal, an integer, an identifier, a character, a string, an operator. A sign directly
before a digit is part of the number. Characters and strings stay as they are written, with their
quotes and escapes. A place where nothing matches is an error.

Each class of tokens is a function from a text to the length of the token at its head.

## Main definitions

* `decimalLength?`, …, `operatorLength?` — the classes of tokens
* `tokenAt?` — the kind and length of the token at the head of a text
* `tokenize` — the tokens of a source text
-/

namespace BlockScript

/-- A character at which no token can begin, and its index. -/
structure LexicalError where
  /-- The character. -/
  character : Char
  /-- Its index in the source. -/
  index : Nat
  deriving DecidableEq, Repr

namespace LexicalError

/-- The error in words. -/
def message (e : LexicalError) : String :=
  "unexpected character " ++ Text.quoted e.character.toString ++ " at index " ++ toString e.index

end LexicalError

namespace Lexer

/-- Whether a character may stand between tokens. -/
def isSpace (c : Char) : Bool :=
  c == ' ' || c == '\t' || c == '\x0c' || c == '\r' || c == '\n'

/-- Whether an identifier can begin with a character. -/
def isIdentifierStart (c : Char) : Bool :=
  c.isAlpha || c == '_'

/-- Whether an identifier can go on with a character. -/
def isIdentifierPart (c : Char) : Bool :=
  c.isAlphanum || c == '_'

/-- Whether a character can follow a backslash in a literal. -/
def isEscapeLetter (c : Char) : Bool :=
  "bnrt'\"\\".toList.contains c

/-- The characters that are operators by themselves. -/
def operatorCharacters : List Char :=
  "!#$%&()*+,-./:;<=>?@[]^\x60\x7b|\x7d~\\".toList

/-- The number of digits at the head of a text. -/
def digitsLength (cs : List Char) : Nat :=
  (cs.takeWhile Char.isDigit).length

/-- The number of signs, none or one, at the head of a text. -/
def signLength : List Char → Nat
  | '+' :: _ => 1
  | '-' :: _ => 1
  | _ => 0

/-- The length of an integer: a sign, which may be missing, and digits. -/
def integerLength? (cs : List Char) : Option Nat :=
  match digitsLength (cs.drop (signLength cs)) with
  | 0 => none
  | digits + 1 => some (signLength cs + (digits + 1))

/-- The length of a decimal: an integer, a point and digits. -/
def decimalLength? (cs : List Char) : Option Nat :=
  (integerLength? cs).bind fun whole =>
    match cs.drop whole with
    | '.' :: fraction =>
      match digitsLength fraction with
      | 0 => none
      | digits + 1 => some (whole + 1 + (digits + 1))
    | _ => none

/-- The length of an identifier: a letter or underscore, then letters, digits and underscores. -/
def identifierLength? : List Char → Option Nat
  | [] => none
  | c :: rest =>
    if isIdentifierStart c then some (1 + (rest.takeWhile isIdentifierPart).length) else none

/-- The length of a character: one character or escape between single quotes, on one line. -/
def characterLength? : List Char → Option Nat
  | '\'' :: '\\' :: c :: '\'' :: _ => if isEscapeLetter c then some 4 else none
  | '\'' :: c :: '\'' :: _ => if c = '\'' ∨ c = '\\' ∨ c = '\n' ∨ c = '\r' then none else some 3
  | _ => none

/-- The length of the rest of a string, up to its closing double quote. -/
def stringRestLength? : List Char → Option Nat
  | [] => none
  | [c] => if c = '"' then some 1 else none
  | c :: d :: rest =>
    if c = '"' then some 1
    else if c = '\\' then
      if isEscapeLetter d then (stringRestLength? rest).map (2 + ·) else none
    else if c = '\n' ∨ c = '\r' then none
    else (stringRestLength? (d :: rest)).map (1 + ·)

/-- The length of a string: characters and escapes between double quotes, on one line. -/
def stringLength? : List Char → Option Nat
  | '"' :: rest => (stringRestLength? rest).map (1 + ·)
  | _ => none

/-- The length of an operator: two characters if they belong together, else one. -/
def operatorLength? : List Char → Option Nat
  | [] => none
  | c :: rest =>
    if (c = '<' ∨ c = '>' ∨ c = '!' ∨ c = '=') ∧ rest.head? = some '=' then some 2
    else if c = '&' ∧ rest.head? = some '&' then some 2
    else if c = '|' ∧ rest.head? = some '|' then some 2
    else if operatorCharacters.contains c then some 1
    else none

/-- The classes of tokens in the order in which they are tried. -/
def classes : List (TokenKind × (List Char → Option Nat)) :=
  [(.decimal, decimalLength?), (.integer, integerLength?), (.identifier, identifierLength?),
    (.character, characterLength?), (.string, stringLength?), (.operator, operatorLength?)]

/-- The kind and length of the token at the head of a text. -/
def tokenAt? (cs : List Char) : Option (TokenKind × Nat) :=
  classes.findSome? fun (kind, length?) => (length? cs).map fun length => (kind, length)

/-- The tokens of a text whose first character has the given index. The first `pending` characters
belong to a token that was found before. -/
def tokensFrom (index pending : Nat) : List Char → Except LexicalError (List Token)
  | [] => .ok []
  | c :: rest =>
    match pending with
    | pending + 1 => tokensFrom (index + 1) pending rest
    | 0 =>
      if isSpace c then tokensFrom (index + 1) 0 rest
      else match tokenAt? (c :: rest) with
        | none => .error { character := c, index }
        | some (kind, length) => do
          let tokens ← tokensFrom (index + 1) (length - 1) rest
          return { kind, text := String.ofList ((c :: rest).take length), index } :: tokens

end Lexer

/-- The tokens of a source text. -/
def tokenize (source : String) : Except LexicalError (List Token) :=
  Lexer.tokensFrom 0 0 source.toList

end BlockScript
