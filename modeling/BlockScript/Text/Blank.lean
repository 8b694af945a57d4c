/-!
# Blanks

The characters that may stand around a numeral without being part of it. The four ASCII separators
count as blanks around decimals, but not around integers.

## Main definitions

* `isSeparator`, `isBlank` — the classes
* `trim` — a text without the characters of a class at its two ends
-/

namespace BlockScript.Text

/-- Whether a character is one of the four ASCII separators of files, groups, records and units. -/
def isSeparator (c : Char) : Bool :=
  let n := c.toNat
  0x1c ≤ n && n ≤ 0x1f

/-- Whether a character is a blank of any script: an ASCII blank, next line, or a space, line or
paragraph separator of the code table. -/
def isBlank (c : Char) : Bool :=
  let n := c.toNat
  (0x9 ≤ n && n ≤ 0xd) || n == 0x20 || n == 0x85 || n == 0xa0 || n == 0x1680 ||
    (0x2000 ≤ n && n ≤ 0x200a) || n == 0x2028 || n == 0x2029 || n == 0x202f || n == 0x205f ||
    n == 0x3000

/-- A text without the characters of a class at its two ends. -/
def trim (inClass : Char → Bool) (cs : List Char) : List Char :=
  ((cs.dropWhile inClass).reverse.dropWhile inClass).reverse

end BlockScript.Text
