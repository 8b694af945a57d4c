/-!
# Escapes in literals

A literal names some characters by a backslash and a letter. `unescape` reads these names and
`escape` writes them. Reading knows both quotes as well; writing gives a backslash only to the
quote that surrounds the literal. A backslash that begins no known name stands for itself.

## Main definitions

* `escapedChar?` — the character that a letter after a backslash names
* `unescape` — the text that the inside of a literal stands for
* `escape` — the inside of a literal that stands for a text
-/

namespace BlockScript.Text

/-- The character named by a letter after a backslash. -/
def escapedChar? : Char → Option Char
  | 'b' => some '\x08'
  | 'n' => some '\n'
  | 'r' => some '\r'
  | 't' => some '\t'
  | '\'' => some '\''
  | '"' => some '"'
  | '\\' => some '\\'
  | _ => none

/-- The text that the inside of a literal stands for, read from left to right. -/
def unescapeChars : List Char → List Char
  | [] => []
  | [c] => [c]
  | c :: d :: rest =>
    if c = '\\' then
      match escapedChar? d with
      | some e => e :: unescapeChars rest
      | none => c :: unescapeChars (d :: rest)
    else c :: unescapeChars (d :: rest)

/-- The text that the inside of a literal stands for. -/
def unescape (text : String) : String :=
  String.ofList (unescapeChars text.toList)

/-- How one character is written inside a literal between quotes `quote`. -/
def escapeChar (quote : Option Char) (c : Char) : List Char :=
  if quote = some c then ['\\', c]
  else match c with
    | '\\' => ['\\', '\\']
    | '\x08' => ['\\', 'b']
    | '\n' => ['\\', 'n']
    | '\r' => ['\\', 'r']
    | '\t' => ['\\', 't']
    | _ => [c]

/-- The inside of a literal between quotes `quote` that stands for a text; with no quote, none is
escaped. -/
def escape (quote : Option Char) (text : String) : String :=
  String.ofList (text.toList.flatMap (escapeChar quote))

end BlockScript.Text
