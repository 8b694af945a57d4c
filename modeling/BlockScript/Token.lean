import BlockScript.Text.Quoted
/-!
# Tokens

A token is a piece of source text with its kind and the index of its first character. Keywords are
identifiers; the grammar tells them from names by their text.

## Main definitions

* `TokenKind`, `Token` — tokens
* `keywords` — the identifiers that are no names
* `Token.isName` — whether a token can be a name
-/

namespace BlockScript

/-- The kinds of tokens. -/
inductive TokenKind where
  | identifier
  | integer
  | decimal
  | character
  | string
  | operator
  deriving DecidableEq, Repr, Inhabited

namespace TokenKind

/-- The name of a kind of token. -/
def name : TokenKind → String
  | identifier => "IDENTIFIER"
  | integer => "INTEGER"
  | decimal => "DECIMAL"
  | character => "CHARACTER"
  | string => "STRING"
  | operator => "OPERATOR"

end TokenKind

/-- A piece of source text. -/
structure Token where
  /-- What sort of token it is. -/
  kind : TokenKind
  /-- The text as it stands in the source. -/
  text : String
  /-- The index of the first character in the source. -/
  index : Nat
  deriving DecidableEq, Repr, Inhabited

/-- The identifiers that belong to the grammar and are no names. -/
def keywords : List String :=
  ["LET", "IF", "ELSE", "END", "SWITCH", "CASE", "DEFAULT", "WHILE", "DO", "RETURN", "FUN", "LIST",
    "VAR", "VAL", "NIL", "TRUE", "FALSE"]

namespace Token

/-- Whether a token can be a name: an identifier that is no keyword. -/
def isName (token : Token) : Bool :=
  token.kind == .identifier && !keywords.contains token.text

/-- The index behind the last character of a token. -/
def stop (token : Token) : Nat :=
  token.index + token.text.length

end Token

end BlockScript
