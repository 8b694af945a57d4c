import BlockScript.Numeral.Decimal
/-!
# Numbers in double precision

A number in double precision is a significand of at most 53 binary digits times a power of two. A
decimal stands for the nearest such number, of two equally near ones for that with the even
significand; what is nearer to zero than to the least positive one is zero, and what is beyond the
greatest one has no finite number to stand for.

A number is written with the fewest decimal digits that still stand for it, and among those as near
to it as possible. The text has a point at least one digit before its end, or an exponent if the
first digit is more than sixteen places in front of the point or more than four behind it.

All arithmetic is exact, on natural numbers.

## Main definitions

* `Double` — a number in double precision, without its sign
* `Double.ofDecimal?` — the number that a decimal stands for
* `Double.whole`, `Double.toDecimal` — the number without its fraction, and all of its digits
* `Double.standsFor` — whether a decimal number stands for a given one
* `Double.shortest` — the fewest decimal digits that stand for a number
* `Double.text` — the text of a number
-/

namespace BlockScript

/-- The number `significand · 2 ^ power`. -/
structure Double where
  /-- The binary digits, read as a natural number. -/
  significand : Nat
  /-- The power of two that the significand is multiplied by. -/
  power : Int
  deriving DecidableEq, Repr, Inhabited

/-- Two to a power. -/
def powerOfTwo (n : Nat) : Nat :=
  Nat.pow 2 n

namespace Double

/-- The number of binary digits of a significand. -/
def precision : Nat := 53

/-- The least power of two of a significand. -/
def leastPower : Int := -1074

/-- The greatest power of two of a significand. -/
def greatestPower : Int := 971

/-- The integer nearest to `n / (d · 2 ^ p)`, a tie going to the even neighbour. -/
def quotient (n d : Nat) (p : Int) : Nat :=
  roundHalfEven (n * powerOfTwo (-p).toNat) (d * powerOfTwo p.toNat)

/-- The number nearest to the positive fraction `n / d`, if it is not too great. The power is the
least that leaves room for the binary digits of the quotient, whose number the logarithms tell up
to one. -/
def ofFraction? (n d : Nat) : Option Double :=
  let low := max leastPower ((n.log2 : Int) - d.log2 - precision)
  let fits := n * powerOfTwo (-low).toNat < d * powerOfTwo low.toNat * powerOfTwo precision
  let power := if fits then low else low + 1
  let significand := quotient n d power
  let nearest : Double :=
    if significand = powerOfTwo precision then
      { significand := powerOfTwo (precision - 1), power := power + 1 }
    else { significand, power }
  if nearest.power ≤ greatestPower then some nearest else none

/-- The number that the magnitude of a decimal stands for. Decimals of more than 400 digits in front
of the point, or zeros behind it, are not written out: they are too great, or next to zero. -/
def ofDecimal? (a : Decimal) : Option Double :=
  if a.coefficient = 0 ∨ a.power < -400 then some { significand := 0, power := leastPower }
  else if 400 < a.power then none
  else ofFraction? (a.coefficient * powerOfTen a.exponent.toNat) (powerOfTen (-a.exponent).toNat)

/-- The number without its fraction. -/
def whole (x : Double) : Nat :=
  x.significand * powerOfTwo x.power.toNat / powerOfTwo (-x.power).toNat

/-- The decimal that is equal to a number, with no more digits behind the point than needed. A
fraction in lowest terms over a power of two is one over a power of ten with as many twos. -/
def toDecimal (x : Double) (negative : Bool) : Decimal :=
  let n := x.significand * powerOfTwo x.power.toNat
  let d := powerOfTwo (-x.power).toNat
  let twos := (d / n.gcd d).log2
  { negative, coefficient := n / n.gcd d * Nat.pow 5 twos, exponent := -(twos : Int) }

/-- How `c · 10 ^ s` compares with `m · 2 ^ p`. -/
def compareDecimal (c : Nat) (s : Int) (m : Nat) (p : Int) : Ordering :=
  compare (c * powerOfTen s.toNat * powerOfTwo (-p).toNat)
    (m * powerOfTwo p.toNat * powerOfTen (-s).toNat)

/-- Whether `c · 10 ^ s` stands for a number: it lies between the middles to the neighbours on both
sides, or on one of them if the significand is even. Below a power of two the neighbour is half as
far away as above it. -/
def standsFor (x : Double) (c : Nat) (s : Int) : Bool :=
  let isNarrow := x.significand = powerOfTwo (precision - 1) ∧ leastPower < x.power
  let below := compareDecimal c s (4 * x.significand - if isNarrow then 1 else 2) (x.power - 2)
  let above := compareDecimal c s (4 * x.significand + 2) (x.power - 2)
  let even := x.significand % 2 = 0
  (below == .gt || (even && below == .eq)) && (above == .lt || (even && above == .eq))

/-- The multiple of `10 ^ s` nearest to a number, a tie going to the even one. -/
def nearestMultiple (x : Double) (s : Int) : Nat :=
  roundHalfEven (x.significand * powerOfTwo x.power.toNat * powerOfTen (-s).toNat)
    (powerOfTwo (-x.power).toNat * powerOfTen s.toNat)

/-- The power of ten that the first decimal digit of a number stands for. The numbers of digits of
numerator and denominator tell it up to one. -/
def firstPower (x : Double) : Int :=
  let n := x.significand * powerOfTwo x.power.toNat
  let d := powerOfTwo (-x.power).toNat
  let high := (digitCount n : Int) - digitCount d
  if d * powerOfTen high.toNat ≤ n * powerOfTen (-high).toNat then high else high - 1

/-- The coarsest multiple of a power of ten that stands for a number, as coefficient and exponent.
The exponents are tried from `s` downwards; 17 digits always suffice. Below a power of two the
nearest multiple can fail where the one above does not, because the middle is nearer there. -/
def coarsest (x : Double) : Nat → Int → Nat × Int
  | 0, s => (x.nearestMultiple s, s)
  | tries + 1, s =>
    let c := x.nearestMultiple s
    if x.standsFor c s then (c, s)
    else if x.standsFor (c + 1) s then (c + 1, s)
    else coarsest x tries (s - 1)

/-- The fewest decimal digits that stand for a number, and the power of ten of the first one. -/
def shortest (x : Double) : List Char × Int :=
  let (c, s) := x.coarsest 16 x.firstPower
  let digits := Nat.toDigits 10 c
  ((digits.reverse.dropWhile (· == '0')).reverse, s + digits.length - 1)

/-- Digits of which the first stands for a power of ten, with a point. -/
def positional (digits : List Char) (power : Int) : List Char :=
  if power < 0 then
    "0.".toList ++ List.replicate (-power - 1).toNat '0' ++ digits
  else
    let places := power.toNat + 1
    let whole := digits.take places ++ List.replicate (places - digits.length) '0'
    let fraction := if digits.length ≤ places then ['0'] else digits.drop places
    whole ++ '.' :: fraction

/-- Digits of which the first stands for a power of ten, with an exponent of at least two digits. -/
def scientific (digits : List Char) (power : Int) : List Char :=
  let mantissa := match digits with
    | first :: second :: rest => first :: '.' :: second :: rest
    | short => short
  let exponent := Nat.toDigits 10 power.natAbs
  let filled := if exponent.length < 2 then '0' :: exponent else exponent
  mantissa ++ 'e' :: (if power < 0 then '-' else '+') :: filled

/-- The text of a number. -/
def text (x : Double) : String :=
  if x.significand = 0 then "0.0"
  else
    let (digits, power) := x.shortest
    String.ofList <|
      if -4 ≤ power ∧ power < 16 then positional digits power else scientific digits power

end Double

end BlockScript
