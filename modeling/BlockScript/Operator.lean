/-!
# Operators

The eleven binary operators of the language. A tree may carry any text as its operator, so trees
keep the text and `Operator.ofText?` recognises it.

## Main definitions

* `Operator` — the operators
* `Operator.text`, `Operator.ofText?` — their written forms
-/

namespace BlockScript

/-- The binary operators. -/
inductive Operator where
  | and
  | or
  | less
  | greater
  | equal
  | unequal
  | plus
  | minus
  | times
  | divide
  | power
  deriving DecidableEq, Repr, Inhabited

namespace Operator

/-- Every operator. -/
def all : List Operator :=
  [and, or, less, greater, equal, unequal, plus, minus, times, divide, power]

/-- The written form of an operator. -/
def text : Operator → String
  | and => "&&"
  | or => "||"
  | less => "<"
  | greater => ">"
  | equal => "=="
  | unequal => "!="
  | plus => "+"
  | minus => "-"
  | times => "*"
  | divide => "/"
  | power => "^"

/-- The operator with a given written form. -/
def ofText? (symbol : String) : Option Operator :=
  all.find? fun op => op.text == symbol

theorem ofText?_text (op : Operator) : ofText? op.text = some op := by
  cases op <;> decide

theorem text_of_ofText? {symbol : String} {op : Operator} (h : ofText? symbol = some op) :
    op.text = symbol := by
  have hfound := List.find?_some h
  exact beq_iff_eq.mp hfound

end Operator

end BlockScript
