import BlockScript.Json
/-!
# Writing JSON

A JSON value over several lines: every item and every member on a line of its own, two blanks
deeper than the brackets around it, a colon and a blank behind each name, and nothing between the
brackets of what is empty. Inside strings only the quote, the backslash and the control characters
below U+0020 are escaped.

## Main definitions

* `Json.quotedString` — a string with its quotes
* `Json.indented` — a value over several lines
-/

namespace BlockScript.Json

/-- How one character is written inside a JSON string. -/
def stringChar (c : Char) : List Char :=
  match c with
  | '"' => ['\\', '"']
  | '\\' => ['\\', '\\']
  | '\n' => ['\\', 'n']
  | '\r' => ['\\', 'r']
  | '\t' => ['\\', 't']
  | '\x08' => ['\\', 'b']
  | '\x0c' => ['\\', 'f']
  | _ => if c.toNat < 0x20 then '\\' :: 'u' :: Text.hexDigits 4 c.toNat else [c]

/-- A string with its quotes. -/
def quotedString (text : String) : String :=
  String.ofList ('"' :: text.toList.flatMap stringChar ++ ['"'])

/-- The beginning of a line at the given depth, with the line feed before it. -/
def lineStart (depth : Nat) : String :=
  String.ofList ('\n' :: List.replicate (2 * depth) ' ')

/-- Lines between brackets, or the bare brackets if there are none. -/
def bracketed (opening closing : String) (depth : Nat) : List String → String
  | [] => opening ++ closing
  | lines => opening ++ lineStart (depth + 1) ++ ("," ++ lineStart (depth + 1)).intercalate lines ++
      lineStart depth ++ closing

mutual

/-- A value whose brackets stand at the given depth. -/
def indentedAt (depth : Nat) : Json → String
  | null => "null"
  | boolean value => if value then "true" else "false"
  | integer value => toString value
  | real value => value.text
  | special name => name
  | string value => quotedString value
  | array items => bracketed "[" "]" depth (indentedItems (depth + 1) items)
  | object members => bracketed "\x7b" "\x7d" depth (indentedMembers (depth + 1) members)

/-- The items of an array, each at the given depth. -/
def indentedItems (depth : Nat) : List Json → List String
  | [] => []
  | item :: rest => indentedAt depth item :: indentedItems depth rest

/-- The members of an object, each at the given depth. -/
def indentedMembers (depth : Nat) : List (String × Json) → List String
  | [] => []
  | (name, value) :: rest =>
    (quotedString name ++ ": " ++ indentedAt depth value) :: indentedMembers depth rest

end

/-- A value over several lines, without a line feed at the end. -/
def indented (value : Json) : String :=
  indentedAt 0 value

end BlockScript.Json
