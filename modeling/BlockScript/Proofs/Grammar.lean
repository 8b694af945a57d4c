import BlockScript.Node.Parser
/-!
# The grammar

Which lists of tokens are expressions, statements and programs, and which trees they stand for.
The rules say nothing about how a text is read: there is no order of attempts, no looking ahead,
and a block does not say where it ends.

Binary operators are grouped to the left, which is written as left recursion: an expression of a
tier is an operand, or a shorter expression of the same tier with an operator and one more operand
behind it. An operand is an expression of the next tighter tier, or a primary expression.

## Main definitions

* `Token.IsWord`, `Token.IsMark` — keywords, and operators and punctuation
* `Grammar.Literal` — tokens that are literals, and their values
* `Grammar.Expression`, `Grammar.Statement`, `Grammar.Block` — expressions, statements and blocks
* `Grammar.Program` — whole programs
-/

namespace BlockScript

/-- A keyword with the given text. -/
def Token.IsWord (text : String) (token : Token) : Prop :=
  token.kind = .identifier ∧ token.text = text

/-- An operator or a piece of punctuation with the given text. -/
def Token.IsMark (text : String) (token : Token) : Prop :=
  token.kind = .operator ∧ token.text = text

namespace Grammar

open Token (IsWord IsMark)
open BlockScript.Parser (Tier)

/-! ### Expressions -/

/-- A token that is a literal, with its value. -/
inductive Literal : Token → Scalar → Prop
  | nil {token} : IsWord "NIL" token → Literal token .nil
  | true {token} : IsWord "TRUE" token → Literal token (.boolean true)
  | false {token} : IsWord "FALSE" token → Literal token (.boolean false)
  | integer {token n} : token.kind = .integer → integerOfText? token.text = some n →
      Literal token (.integer n)
  | decimal {token d} : token.kind = .decimal → Decimal.ofText? token.text = some d →
      Literal token (.decimal d.rounded)
  | character {token} : token.kind = .character →
      Literal token (.character (Text.unescape (Parser.inside token.text)))
  | string {token} : token.kind = .string →
      Literal token (.string (Text.unescape (Parser.inside token.text)))

mutual

/-- An expression whose operators are of the given tier or tighter: operands with operators of the
tier between them, grouped to the left. -/
inductive Expression : Tier → List Token → Node → Prop
  | operand {tier used node} : Operand tier used node → Expression tier used node
  | binary {tier left right a b op} : Expression tier left a → op.kind = .operator →
      op.text ∈ tier.symbols → Operand tier right b →
      Expression tier (left ++ op :: right) (.binary op.text a b none)

/-- An operand of the given tier. -/
inductive Operand : Tier → List Token → Node → Prop
  | tighter {tier next used node} : tier.tighter? = some next → Expression next used node →
      Operand tier used node
  | primary {tier used node} : tier.tighter? = none → Primary used node → Operand tier used node

/-- A literal, a group, a variable, a list element or a call. -/
inductive Primary : List Token → Node → Prop
  | literal {token value} : Literal token value → Primary [token] (.literal value none)
  | group {opening used inner closing} : IsMark "(" opening → Expression .logical used inner →
      IsMark ")" closing → Primary (opening :: (used ++ [closing])) (.group inner none)
  | variable {token} : token.isName = true → Primary [token] (.access token.text .null none none)
  | element {token opening used offset closing} : token.isName = true → IsMark "[" opening →
      Expression .logical used offset → IsMark "]" closing →
      Primary (token :: opening :: (used ++ [closing])) (.access token.text offset none none)
  | call {token opening used arguments closing} : token.isName = true → IsMark "(" opening →
      Arguments used arguments → IsMark ")" closing →
      Primary (token :: opening :: (used ++ [closing])) (.call token.text arguments none none)

/-- The arguments of a call. -/
inductive Arguments : List Token → List Node → Prop
  | none : Arguments [] []
  | some {used nodes} : Expressions used nodes → Arguments used nodes

/-- Expressions with commas between them, at least one. -/
inductive Expressions : List Token → List Node → Prop
  | one {used node} : Expression .logical used node → Expressions used [node]
  | cons {used node comma rest nodes} : Expression .logical used node → IsMark "," comma →
      Expressions rest nodes → Expressions (used ++ comma :: rest) (node :: nodes)

end

/-! ### Statements -/

/-- A colon and the name of a type, or nothing. -/
inductive TypeSuffix : List Token → Option String → Prop
  | absent : TypeSuffix [] none
  | present {colon type} : IsMark ":" colon → type.isName = true →
      TypeSuffix [colon, type] (some type.text)

/-- An equals sign and an expression, or nothing. -/
inductive Initial : List Token → Node → Prop
  | absent : Initial [] .null
  | present {sign used value} : IsMark "=" sign → Expression .logical used value →
      Initial (sign :: used) value

mutual

/-- A statement. -/
inductive Statement : List Token → Node → Prop
  | declaration {word name suffix type initial value stop} : IsWord "LET" word →
      name.isName = true → TypeSuffix suffix type → Initial initial value →
      IsMark ";" stop →
      Statement (word :: name :: (suffix ++ (initial ++ [stop])))
        (.declaration name.text type value none)
  | switch {word used condition usedCases cases default colon usedBody body stop} :
      IsWord "SWITCH" word → Expression .logical used condition → Cases usedCases cases →
      IsWord "DEFAULT" default → (colon = [] ∨ ∃ mark, colon = [mark] ∧ IsMark ":" mark) →
      Block usedBody body → IsWord "END" stop →
      Statement (word :: (used ++ (usedCases ++ default :: (colon ++ (usedBody ++ [stop])))))
        (.switch condition (cases ++ [.case .null body]))
  | branch {word used condition doWord usedThen thenBody stop} : IsWord "IF" word →
      Expression .logical used condition → IsWord "DO" doWord → Block usedThen thenBody →
      IsWord "END" stop →
      Statement (word :: (used ++ doWord :: (usedThen ++ [stop])))
        (.branch condition thenBody [])
  | branchElse {word used condition doWord usedThen thenBody elseWord usedElse elseBody stop} :
      IsWord "IF" word → Expression .logical used condition → IsWord "DO" doWord →
      Block usedThen thenBody → IsWord "ELSE" elseWord → Block usedElse elseBody →
      IsWord "END" stop →
      Statement (word :: (used ++ doWord :: (usedThen ++ elseWord :: (usedElse ++ [stop]))))
        (.branch condition thenBody elseBody)
  | loop {word used condition doWord usedBody body stop} : IsWord "WHILE" word →
      Expression .logical used condition → IsWord "DO" doWord → Block usedBody body →
      IsWord "END" stop →
      Statement (word :: (used ++ doWord :: (usedBody ++ [stop]))) (.loop condition body)
  | ret {word used value stop} : IsWord "RETURN" word → Expression .logical used value →
      IsMark ";" stop → Statement (word :: (used ++ [stop])) (.ret value)
  | assignment {left receiver sign right value stop} : Expression .logical left receiver →
      IsMark "=" sign → Expression .logical right value → IsMark ";" stop →
      Statement (left ++ sign :: (right ++ [stop])) (.assignment receiver value)
  | discard {used expression stop} : Expression .logical used expression → IsMark ";" stop →
      Statement (used ++ [stop]) (.discard expression)

/-- Statements in a row. -/
inductive Block : List Token → List Node → Prop
  | nil : Block [] []
  | cons {used statement rest statements} : Statement used statement → Block rest statements →
      Block (used ++ rest) (statement :: statements)

/-- The cases of a switch that have values. -/
inductive Cases : List Token → List Node → Prop
  | nil : Cases [] []
  | cons {word used value colon usedBody body rest cases} : IsWord "CASE" word →
      Expression .logical used value → IsMark ":" colon → Block usedBody body →
      Cases rest cases →
      Cases (word :: (used ++ colon :: (usedBody ++ rest))) (.case value body :: cases)

end

/-! ### Programs -/

/-- A global variable. -/
inductive Global : List Token → Node → Prop
  | list {word name suffix type sign opening used values closing stop} :
      IsWord "LIST" word → name.isName = true → TypeSuffix suffix type → IsMark "=" sign →
      IsMark "[" opening → Expressions used values → IsMark "]" closing → IsMark ";" stop →
      Global (word :: name :: (suffix ++ sign :: opening :: (used ++ [closing, stop])))
        (.global name.text true type (.listLiteral values none) true none)
  | mutable {word name suffix type initial value stop} : IsWord "VAR" word →
      name.isName = true → TypeSuffix suffix type → Initial initial value →
      IsMark ";" stop →
      Global (word :: name :: (suffix ++ (initial ++ [stop])))
        (.global name.text true type value false none)
  | constant {word name suffix type sign used value stop} : IsWord "VAL" word →
      name.isName = true → TypeSuffix suffix type → IsMark "=" sign →
      Expression .logical used value → IsMark ";" stop →
      Global (word :: name :: (suffix ++ sign :: (used ++ [stop])))
        (.global name.text false type value false none)

/-- Parameters with commas between them, at least one. -/
inductive Parameters : List Token → List (String × Option String) → Prop
  | one {name suffix type} : name.isName = true → TypeSuffix suffix type →
      Parameters (name :: suffix) [(name.text, type)]
  | cons {name suffix type comma rest parameters} : name.isName = true →
      TypeSuffix suffix type → IsMark "," comma → Parameters rest parameters →
      Parameters (name :: (suffix ++ comma :: rest)) ((name.text, type) :: parameters)

/-- A function. -/
inductive Function : List Token → Node → Prop
  | mk {word name opening used parameters closing suffix type doWord usedBody body stop} :
      IsWord "FUN" word → name.isName = true → IsMark "(" opening →
      (used = [] ∧ parameters = [] ∨ Parameters used parameters) → IsMark ")" closing →
      TypeSuffix suffix type → IsWord "DO" doWord → Block usedBody body →
      IsWord "END" stop →
      Function
        (word :: name :: opening ::
          (used ++ closing :: (suffix ++ doWord :: (usedBody ++ [stop]))))
        (.function name.text (parameters.map Prod.fst) (parameters.map Prod.snd) type body none)

/-- Phrases of one kind in a row. -/
inductive Many (phrase : List Token → Node → Prop) : List Token → List Node → Prop
  | nil : Many phrase [] []
  | cons {used node rest nodes} : phrase used node → Many phrase rest nodes →
      Many phrase (used ++ rest) (node :: nodes)

/-- A program: global variables, then functions. -/
inductive Program : List Token → Node → Prop
  | mk {used globals rest functions} : Many Global used globals →
      Many Function rest functions → Program (used ++ rest) (.program globals functions)

end Grammar

end BlockScript
