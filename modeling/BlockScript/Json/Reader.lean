import BlockScript.Json
/-!
# Reading JSON

A reader for one JSON value with blanks around it. Strings must not hold control characters, and
two escapes for the halves of a surrogate pair denote one character. `NaN`, `Infinity` and
`-Infinity` are read as well.

Each function takes the rest of the text and returns what follows the part that it read. The
functions for values call each other under a bound on their nesting; each call spends one unit,
and no character is read by more than three of them in turn, so the bound that `Json.read` sets is
never met.

## Main definitions

* `Json.ReadError` — what was wrong, and how much of the text was left there
* `Json.read` — the value that a text denotes
-/

namespace BlockScript.Json

/-- What a reader can miss. -/
inductive ReadCause where
  | value
  | name
  | colon
  | comma
  | closingQuote
  | plainCharacter
  | escape
  | textEnd
  deriving DecidableEq, Repr, Inhabited

namespace ReadCause

/-- What was expected, in words. -/
def text : ReadCause → String
  | value => "expected a value"
  | name => "expected a quoted name"
  | colon => "expected a colon"
  | comma => "expected a comma"
  | closingQuote => "unterminated string"
  | plainCharacter => "control character in a string"
  | escape => "invalid escape"
  | textEnd => "expected the end of the text"

end ReadCause

/-- Why a text denotes no JSON value. -/
structure ReadError where
  /-- What was expected. -/
  cause : ReadCause
  /-- How many characters were left where it was expected. -/
  left : Nat
  deriving DecidableEq, Repr, Inhabited

/-- What a reading function answers: a result, with the rest of the text beside it, or an error. -/
abbrev Reading : Type → Type := Except ReadError

/-- The error for something missed in front of the given rest. -/
def missing {α : Type} (cause : ReadCause) (rest : List Char) : Reading α :=
  .error { cause, left := rest.length }

/-- Whether a character may stand between the parts of a JSON text. -/
def isSpace (c : Char) : Bool :=
  c == ' ' || c == '\t' || c == '\n' || c == '\r'

/-- The rest of a text after the blanks at its head. -/
def skipSpace (cs : List Char) : List Char :=
  cs.dropWhile isSpace

/-- The value of a hexadecimal digit. -/
def hexValue? (c : Char) : Option Nat :=
  if '0' ≤ c ∧ c ≤ '9' then some (c.toNat - '0'.toNat)
  else if 'a' ≤ c ∧ c ≤ 'f' then some (c.toNat - 'a'.toNat + 10)
  else if 'A' ≤ c ∧ c ≤ 'F' then some (c.toNat - 'A'.toNat + 10)
  else none

/-- The number that four hexadecimal digits at the head of a text denote, and the rest. -/
def hexQuad? : List Char → Option (Nat × List Char)
  | a :: b :: c :: d :: rest =>
    match hexValue? a, hexValue? b, hexValue? c, hexValue? d with
    | some a, some b, some c, some d => some (((a * 16 + b) * 16 + c) * 16 + d, rest)
    | _, _, _, _ => none
  | _ => none

/-- The character that a numbered escape denotes, read behind its letter `u`. A first half of a
surrogate pair takes the second half with it; a half on its own denotes the replacement
character. -/
def numberedEscape? (cs : List Char) : Option (Char × List Char) :=
  (hexQuad? cs).map fun (high, rest) =>
    if 0xd800 ≤ high ∧ high < 0xdc00 then
      match rest with
      | '\\' :: 'u' :: rest' =>
        match hexQuad? rest' with
        | some (low, rest'') =>
          if 0xdc00 ≤ low ∧ low < 0xe000 then
            (Char.ofNat (0x10000 + (high - 0xd800) * 0x400 + (low - 0xdc00)), rest'')
          else ('\ufffd', rest)
        | none => ('\ufffd', rest)
      | _ => ('\ufffd', rest)
    else if 0xdc00 ≤ high ∧ high < 0xe000 then ('\ufffd', rest)
    else (Char.ofNat high, rest)

/-- The character that a letter after a backslash denotes. -/
def letterEscape? : Char → Option Char
  | '"' => some '"'
  | '\\' => some '\\'
  | '/' => some '/'
  | 'b' => some '\x08'
  | 'f' => some '\x0c'
  | 'n' => some '\n'
  | 'r' => some '\r'
  | 't' => some '\t'
  | _ => none

/-- The inside of a string up to its closing quote; `done` holds the characters read so far, the
last first. Each step takes at least one character, so a `bound` that is no less than the length of
the text is never met. -/
def readString (bound : Nat) (done : List Char) (cs : List Char) : Reading (String × List Char) :=
  match bound, cs with
  | _, [] => missing .closingQuote cs
  | _, '"' :: rest => .ok (String.ofList done.reverse, rest)
  | 0, _ => missing .closingQuote cs
  | bound + 1, '\\' :: 'u' :: rest =>
    match numberedEscape? rest with
    | some (c, rest) => readString bound (c :: done) rest
    | none => missing .escape cs
  | bound + 1, '\\' :: c :: rest =>
    match letterEscape? c with
    | some e => readString bound (e :: done) rest
    | none => missing .escape cs
  | bound + 1, c :: rest =>
    if c = '\\' then missing .closingQuote rest
    else if c.toNat < 0x20 then missing .plainCharacter cs
    else readString bound (c :: done) rest

/-- The digits `0` to `9` at the head of a text and the rest. -/
def spanDigits (cs : List Char) : List Char × List Char :=
  (cs.takeWhile Char.isDigit, cs.dropWhile Char.isDigit)

/-- The fraction at the head of a text, with its point: only if a digit follows the point. -/
def spanFraction : List Char → List Char × List Char
  | '.' :: rest =>
    match spanDigits rest with
    | ([], _) => ([], '.' :: rest)
    | (ds, rest) => ('.' :: ds, rest)
  | cs => ([], cs)

/-- The exponent at the head of a text, with its letter: only if a digit follows. -/
def spanExponent : List Char → List Char × List Char
  | c :: rest =>
    if c = 'e' ∨ c = 'E' then
      let (sign, digits) := match rest with
        | '-' :: digits => (['-'], digits)
        | '+' :: digits => (['+'], digits)
        | digits => ([], digits)
      match spanDigits digits with
      | ([], _) => ([], c :: rest)
      | (ds, rest) => (c :: sign ++ ds, rest)
    else ([], c :: rest)
  | [] => ([], [])

/-- The digits in front of the point: a single zero, or digits that do not begin with one. -/
def spanWhole : List Char → List Char × List Char
  | '0' :: rest => (['0'], rest)
  | cs => spanDigits cs

/-- A number without its sign, given the sign. -/
def readNumber (negative : Bool) (cs : List Char) : Reading (Json × List Char) :=
  match spanWhole cs with
  | ([], _) => missing .value cs
  | (whole, rest) =>
    let (fraction, rest) := spanFraction rest
    let (power, rest) := spanExponent rest
    let sign := if negative then ['-'] else []
    if fraction.isEmpty && power.isEmpty then
      .ok (integer ((integerOfText? (String.ofList (sign ++ whole))).getD 0), rest)
    else
      match Decimal.ofText? (String.ofList (sign ++ whole ++ fraction ++ power)) with
      | some d => .ok (real d, rest)
      | none => missing .value cs

/-- The values that have a name of their own. -/
def namedValues : List (String × Json) :=
  [("null", null), ("true", boolean true), ("false", boolean false), ("NaN", special "nan"),
    ("Infinity", special "inf"), ("-Infinity", special "-inf")]

/-- A value that is neither a string nor an array nor an object. -/
def readSimple (cs : List Char) : Reading (Json × List Char) :=
  match namedValues.find? fun entry => entry.1.toList.isPrefixOf cs with
  | some (name, value) => .ok (value, cs.drop name.length)
  | none =>
    match cs with
    | '-' :: rest => readNumber true rest
    | _ => readNumber false cs

mutual

/-- The value at the head of a text. -/
def readValue : Nat → List Char → Reading (Json × List Char)
  | 0, cs => missing .value cs
  | bound + 1, cs =>
    match cs with
    | '"' :: rest => do
      let (text, rest) ← readString bound [] rest
      return (string text, rest)
    | '[' :: rest =>
      match skipSpace rest with
      | ']' :: rest => .ok (array [], rest)
      | rest => do
        let (items, rest) ← readItems bound [] rest
        return (array items, rest)
    | '\x7b' :: rest =>
      match skipSpace rest with
      | '\x7d' :: rest => .ok (object [], rest)
      | rest => do
        let (members, rest) ← readMembers bound [] rest
        return (object members, rest)
    | _ => readSimple cs

/-- The items of an array up to its closing bracket; `done` holds those read so far, the last
first. -/
def readItems : Nat → List Json → List Char → Reading (List Json × List Char)
  | 0, _, cs => missing .value cs
  | bound + 1, done, cs => do
    let (item, rest) ← readValue bound cs
    match skipSpace rest with
    | ']' :: rest => return ((item :: done).reverse, rest)
    | ',' :: rest => readItems bound (item :: done) (skipSpace rest)
    | rest => missing .comma rest

/-- The members of an object up to its closing brace; `done` holds those read so far, the last
first. -/
def readMembers :
    Nat → List (String × Json) → List Char → Reading (List (String × Json) × List Char)
  | 0, _, cs => missing .name cs
  | bound + 1, done, cs =>
    match cs with
    | '"' :: rest => do
      let (name, rest) ← readString bound [] rest
      match skipSpace rest with
      | ':' :: rest =>
        let (value, rest) ← readValue bound (skipSpace rest)
        match skipSpace rest with
        | '\x7d' :: rest => return (((name, value) :: done).reverse, rest)
        | ',' :: rest => readMembers bound ((name, value) :: done) (skipSpace rest)
        | rest => missing .comma rest
      | rest => missing .colon rest
    | _ => missing .name cs

end

/-- The value that a text denotes. -/
def read (text : String) : Except ReadError Json := do
  let cs := text.toList
  let (value, rest) ← readValue (3 * cs.length + 3) (skipSpace cs)
  match skipSpace rest with
  | [] => return value
  | rest => .error { cause := .textEnd, left := rest.length }

/-- The message for an error met while reading a text. -/
def ReadError.message (e : ReadError) (text : String) : String :=
  e.cause.text ++ " at index " ++ toString (text.length - e.left)

end BlockScript.Json
