import BlockScript.Numeral.Decimal
import BlockScript.Text.Blank
import BlockScript.Text.Digit
/-!
# Reading and writing numbers

Integers and decimals travel as text. An integer is written with the fewest digits and a minus
sign if it is negative. A decimal is written with all the digits of its coefficient: positionally
while its exponent is not positive and its first digit is at most six places behind the point, and
with an exponent otherwise, so that sign, coefficient and exponent can be read back.

Reading is more liberal: blanks around the numeral, a plus sign, leading zeros, underscores, the
digits of any script.

## Main definitions

* `integerOfText?` — the integer that a text denotes
* `Decimal.text` — a decimal as text
* `Decimal.ofText?` — the decimal that a text denotes
-/

namespace BlockScript

open Text

/-- Splits a leading sign off; the first component says whether it is a minus. -/
def takeSign : List Char → Bool × List Char
  | '-' :: rest => (true, rest)
  | '+' :: rest => (false, rest)
  | cs => (false, cs)

/-- The natural number that digits with single underscores between them denote, continuing the
number `value`; `afterDigit` says whether a digit was read last. -/
def groupedDigits (value : Nat) (afterDigit : Bool) : List Char → Option Nat
  | [] => if afterDigit then some value else none
  | c :: rest =>
    if c = '_' then if afterDigit then groupedDigits value false rest else none
    else (digitValue? c).bind fun d => groupedDigits (10 * value + d) true rest

/-- The integer that a text denotes: an optional sign and at least one digit, with blanks around
and single underscores between digits allowed. -/
def integerOfText? (text : String) : Option Int :=
  let (negative, digits) := takeSign (trim isBlank text.toList)
  (groupedDigits 0 false digits).map fun n => if negative then -(n : Int) else n

/-- The digits at the head of a text, by value, and what follows them. -/
def takeDigits : List Char → List Nat × List Char
  | [] => ([], [])
  | c :: rest =>
    match digitValue? c with
    | some d => (d :: (takeDigits rest).1, (takeDigits rest).2)
    | none => ([], c :: rest)

/-- The natural number with the given digits, the most significant first. -/
def ofDigits (digits : List Nat) : Nat :=
  digits.foldl (fun value d => 10 * value + d) 0

namespace Decimal

/-- The power of ten that an exponent part denotes: nothing at all, or a letter `e`, an optional
sign and at least one digit. -/
def exponentPart? : List Char → Option Int
  | [] => some 0
  | c :: rest =>
    if c = 'e' ∨ c = 'E' then
      let (negative, rest) := takeSign rest
      match takeDigits rest with
      | (d :: ds, []) => some (if negative then -(ofDigits (d :: ds) : Int) else ofDigits (d :: ds))
      | _ => none
    else none

/-- The digits behind a point at the head of a text, if there is one, and what follows. -/
def fractionPart : List Char → List Nat × List Char
  | '.' :: rest => takeDigits rest
  | cs => ([], cs)

/-- Whether a character may stand around a decimal. -/
def isAround (c : Char) : Bool :=
  isBlank c || isSeparator c

/-- The decimal that a text denotes: an optional sign, digits with an optional point (at least one
digit in all), and an optional exponent. Blanks and separators around the numeral and underscores
anywhere in it do not count. Every digit enters the coefficient, so trailing zeros are kept. The
exponent need not be in range. -/
def ofText? (text : String) : Option Decimal :=
  let (negative, rest) := takeSign ((trim isAround text.toList).filter (· != '_'))
  let (whole, rest) := takeDigits rest
  let (fraction, rest) := fractionPart rest
  if whole.isEmpty && fraction.isEmpty then none
  else (exponentPart? rest).map fun e =>
    { negative
      coefficient := ofDigits (whole ++ fraction)
      exponent := e - fraction.length }

/-- Digits with `places` of them behind the point, filled up with zeros on the left. -/
def positional (digits : List Char) (places : Nat) : List Char :=
  let filled := List.replicate (places + 1 - digits.length) '0' ++ digits
  let whole := filled.take (filled.length - places)
  if places = 0 then whole
  else whole ++ '.' :: filled.drop (filled.length - places)

/-- Digits with a point behind the first, and the power of ten that this point makes necessary. -/
def scientific (digits : List Char) (power : Int) : List Char :=
  let mantissa := match digits with
    | first :: second :: rest => first :: '.' :: second :: rest
    | short => short
  mantissa ++ 'E' :: (if power < 0 then '-' else '+') :: Nat.toDigits 10 power.natAbs

/-- A decimal as text: positional if its exponent is not positive and its first digit stands at
most six places behind the point, scientific otherwise. -/
def text (a : Decimal) : String :=
  let digits := Nat.toDigits 10 a.coefficient
  let body :=
    if a.exponent ≤ 0 ∧ -6 ≤ a.power then positional digits (-a.exponent).toNat
    else scientific digits a.power
  String.ofList (if a.negative then '-' :: body else body)

end Decimal

end BlockScript
