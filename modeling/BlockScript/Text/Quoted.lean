import BlockScript.Text.Printable
/-!
# Quoted text in messages

Messages show a piece of source text between quotes, so that blanks, control characters and the
ends of the piece can be seen. Single quotes are used, unless the text holds a single quote and no
double quote. The backslash and the quote in use get a backslash; line feed, carriage return and
tab have letters; every other unprintable character is written by its code point in two, four or
eight hexadecimal digits.

## Main definitions

* `hexDigits` — the last digits of a number in base sixteen
* `quotedChar` — how one character is written between given quotes
* `quoted` — the whole text with its quotes
-/

namespace BlockScript.Text

/-- The last `width` digits of `n` in base sixteen, in lower case. -/
def hexDigits : Nat → Nat → List Char
  | 0, _ => []
  | width + 1, n => hexDigits width (n / 16) ++ [Nat.digitChar (n % 16)]

/-- An unprintable character by its code point. -/
def codePointEscape (c : Char) : List Char :=
  let n := c.toNat
  if n < 0x100 then '\\' :: 'x' :: hexDigits 2 n
  else if n < 0x10000 then '\\' :: 'u' :: hexDigits 4 n
  else '\\' :: 'U' :: hexDigits 8 n

/-- How one character is written between quotes `quote`. -/
def quotedChar (quote c : Char) : List Char :=
  if c = quote ∨ c = '\\' then ['\\', c]
  else if c = '\n' then ['\\', 'n']
  else if c = '\r' then ['\\', 'r']
  else if c = '\t' then ['\\', 't']
  else if isPrintable c then [c]
  else codePointEscape c

/-- The quote that surrounds a text: a single one, unless the text holds a single quote and no
double quote. -/
def surroundingQuote (cs : List Char) : Char :=
  if '\'' ∈ cs ∧ '"' ∉ cs then '"' else '\''

/-- A text as messages show it. -/
def quoted (text : String) : String :=
  let quote := surroundingQuote text.toList
  String.ofList (quote :: text.toList.flatMap (quotedChar quote) ++ [quote])

end BlockScript.Text
