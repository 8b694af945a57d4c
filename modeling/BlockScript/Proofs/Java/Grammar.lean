import BlockScript.Java.Emission
/-!
# How Java reads expressions

Which sequences of lexemes are expressions in Java, and how they are grouped. There is one level of
expressions for each precedence of the binary operators, and on every level operators are grouped to
the left. Above all of them stand the primary expressions; a negative number and a call with a cast
in front of it are among these.

The grammar says nothing about how a text is read. What it derives on a level are the terms that
keep to the precedences everywhere and whose own operator is of that level or tighter, and each of
them from its own lexemes only.

## Main definitions

* `Java.Lexeme` — the pieces of an expression's text
* `Java.Term` — expressions as they are grouped, with `Term.lexemes` and `Term.bare`
* `Java.Derives` — the grammar
* `Java.Term.Grouped` — terms that keep to the precedences
* `Java.IsReadAs` — lexemes that have one reading only

## Main results

* `Java.derives_iff` — what the grammar derives
-/

namespace BlockScript.Java

/-- The pieces that the text of an expression falls into; blanks between them do not count. -/
inductive Lexeme where
  | word (text : String)
  | numeral (text : String)
  | quoted (text : String)
  | operator (symbol : String)
  | comma
  | opening
  | closing
  | openingBracket
  | closingBracket
  | openingBrace
  | closingBrace
  deriving DecidableEq, Repr

/-- The operators that stand between their operands. A power is written as a call. -/
abbrev BinaryOperator : Type := { op : Operator // op ≠ .power }

/-- How tight an operator between its operands binds. -/
def BinaryOperator.precedence (op : BinaryOperator) : Nat :=
  op.val.javaPrecedence

/-- Expressions as they are grouped. Words are names, qualified or not, and literals that look like
names. -/
inductive Term where
  | word (text : String)
  | numeral (text : String)
  | quoted (text : String)
  /-- A number with a minus sign. -/
  | negative (text : String)
  | element (array : String) (index : Term)
  | call (function : String) (arguments : List Term)
  /-- A call with its result cast to an integer. -/
  | cast (function : String) (arguments : List Term)
  | binary (op : BinaryOperator) (left right : Term)
  | parentheses (inner : Term)

/-- Pieces of lexemes with commas between them. -/
def separated : List (List Lexeme) → List Lexeme
  | [] => []
  | piece :: others => piece ++ others.flatMap (.comma :: ·)

namespace Term

mutual

/-- The lexemes of a term. -/
def lexemes : Term → List Lexeme
  | word text => [.word text]
  | numeral text => [.numeral text]
  | quoted text => [.quoted text]
  | negative text => [.operator Operator.minus.text, .numeral text]
  | element array index => .word array :: .openingBracket :: (index.lexemes ++ [.closingBracket])
  | call function arguments =>
    .word function :: .opening :: (separated (lexemesOf arguments) ++ [.closing])
  | cast function arguments =>
    .opening :: .word "int" :: .closing :: .word function :: .opening ::
      (separated (lexemesOf arguments) ++ [.closing])
  | binary op left right => left.lexemes ++ .operator op.val.text :: right.lexemes
  | parentheses inner => .opening :: (inner.lexemes ++ [.closing])

/-- The lexemes of several terms. -/
def lexemesOf : List Term → List (List Lexeme)
  | [] => []
  | a :: others => a.lexemes :: lexemesOf others

end

mutual

/-- The term without its parentheses, which are no more than a way to write it. -/
def bare : Term → Term
  | word text => word text
  | numeral text => numeral text
  | quoted text => quoted text
  | negative text => negative text
  | element array index => element array index.bare
  | call function arguments => call function (bareAll arguments)
  | cast function arguments => cast function (bareAll arguments)
  | binary op left right => binary op left.bare right.bare
  | parentheses inner => inner.bare

/-- Several terms without their parentheses. -/
def bareAll : List Term → List Term
  | [] => []
  | a :: others => a.bare :: bareAll others

end

/-- How tight a term holds together: as its operator binds, and tighter than every operator if it
is primary. -/
def level : Term → Nat
  | binary op _ _ => op.precedence
  | _ => 7

mutual

/-- Whether a term keeps to the precedences: no operand holds together less than its operator binds,
and a right operand holds together tighter. -/
def Grouped : Term → Prop
  | word _ | numeral _ | quoted _ | negative _ => True
  | element _ index => index.Grouped
  | call _ arguments => GroupedAll arguments
  | cast _ arguments => GroupedAll arguments
  | binary op left right =>
    op.precedence ≤ left.level ∧ op.precedence < right.level ∧ left.Grouped ∧ right.Grouped
  | parentheses inner => inner.Grouped

/-- Whether several terms keep to the precedences. -/
def GroupedAll : List Term → Prop
  | [] => True
  | a :: others => a.Grouped ∧ GroupedAll others

end

end Term

/-! ### The grammar -/

mutual

/-- Expressions of a level, with the lexemes that they are read from. -/
inductive Derives : Nat → List Lexeme → Term → Prop
  /-- An operator with an expression of its own level on the left and a tighter one on the right. -/
  | binary {left right a b} (op : BinaryOperator) : Derives op.precedence left a →
      Derives (op.precedence + 1) right b →
      Derives op.precedence (left ++ .operator op.val.text :: right) (.binary op a b)
  | tighter {level used a} : Derives (level + 1) used a → Derives level used a
  | primary {used a} : Primary used a → Derives 7 used a

/-- Expressions that no operator takes apart. -/
inductive Primary : List Lexeme → Term → Prop
  | word (text) : Primary [.word text] (.word text)
  | numeral (text) : Primary [.numeral text] (.numeral text)
  | quoted (text) : Primary [.quoted text] (.quoted text)
  | negative (text) : Primary [.operator Operator.minus.text, .numeral text] (.negative text)
  | element {used index} (array) : Derives 1 used index →
      Primary (.word array :: .openingBracket :: (used ++ [.closingBracket]))
        (.element array index)
  | call {used arguments} (function) : Arguments used arguments →
      Primary (.word function :: .opening :: (used ++ [.closing])) (.call function arguments)
  | cast {used arguments} (function) : Arguments used arguments →
      Primary (.opening :: .word "int" :: .closing :: .word function :: .opening ::
        (used ++ [.closing])) (.cast function arguments)
  | parentheses {used inner} : Derives 1 used inner →
      Primary (.opening :: (used ++ [.closing])) (.parentheses inner)

/-- Expressions with commas between them, or none. -/
inductive Arguments : List Lexeme → List Term → Prop
  | none : Arguments [] []
  | one {used a} : Derives 1 used a → Arguments used [a]
  | more {used others a b rest} : Derives 1 used a → Arguments others (b :: rest) →
      Arguments (used ++ .comma :: others) (a :: b :: rest)

end

/-- Lexemes that the grammar derives one term from and no other, which is the tree if its
parentheses are left out. -/
def IsReadAs (lexemes : List Lexeme) (tree : Term) : Prop :=
  ∃ term, (∀ other, Derives 1 lexemes other ↔ other = term) ∧ term.bare = tree

/-! ### What the grammar derives -/

theorem BinaryOperator.one_le_precedence : ∀ op : BinaryOperator, 1 ≤ op.precedence
  | ⟨op, _⟩ => by
    change 1 ≤ op.javaPrecedence
    cases op <;> decide

theorem BinaryOperator.precedence_lt : ∀ op : BinaryOperator, op.precedence < 7
  | ⟨op, hop⟩ => by
    change op.javaPrecedence < 7
    cases op with
    | power => exact absurd rfl hop
    | _ => decide

theorem Term.one_le_level (a : Term) : 1 ≤ a.level := by
  cases a with
  | binary op => exact op.one_le_precedence
  | _ => exact Nat.le_add_left 1 6

/-- An expression of a level is one of every looser level. -/
theorem Derives.of_le {m n : Nat} (hmn : m ≤ n) {used : List Lexeme} {a : Term}
    (h : Derives n used a) : Derives m used a := by
  induction hmn with
  | refl => exact h
  | step _ ih => exact ih (.tighter h)

mutual

theorem grouped_of_derives {n : Nat} {used : List Lexeme} {a : Term} :
    Derives n used a → n ≤ a.level ∧ a.Grouped ∧ used = a.lexemes
  | .binary op hleft hright => by
    obtain ⟨hleftLevel, hleftGrouped, rfl⟩ := grouped_of_derives hleft
    obtain ⟨hrightLevel, hrightGrouped, rfl⟩ := grouped_of_derives hright
    exact ⟨Nat.le_refl _, ⟨hleftLevel, hrightLevel, hleftGrouped, hrightGrouped⟩, rfl⟩
  | .tighter h => by
    obtain ⟨hlevel, hgrouped, hused⟩ := grouped_of_derives h
    exact ⟨Nat.le_of_succ_le hlevel, hgrouped, hused⟩
  | .primary h => grouped_of_primary h

theorem grouped_of_primary {used : List Lexeme} {a : Term} :
    Primary used a → 7 ≤ a.level ∧ a.Grouped ∧ used = a.lexemes
  | .word _ | .numeral _ | .quoted _ | .negative _ => ⟨Nat.le_refl _, trivial, rfl⟩
  | .element _ hindex => by
    obtain ⟨-, hgrouped, rfl⟩ := grouped_of_derives hindex
    exact ⟨Nat.le_refl _, hgrouped, rfl⟩
  | .call _ harguments => by
    obtain ⟨hgrouped, rfl⟩ := groupedAll_of_arguments harguments
    exact ⟨Nat.le_refl _, hgrouped, rfl⟩
  | .cast _ harguments => by
    obtain ⟨hgrouped, rfl⟩ := groupedAll_of_arguments harguments
    exact ⟨Nat.le_refl _, hgrouped, rfl⟩
  | .parentheses hinner => by
    obtain ⟨-, hgrouped, rfl⟩ := grouped_of_derives hinner
    exact ⟨Nat.le_refl _, hgrouped, rfl⟩

theorem groupedAll_of_arguments {used : List Lexeme} {arguments : List Term} :
    Arguments used arguments →
      Term.GroupedAll arguments ∧ used = separated (Term.lexemesOf arguments)
  | .none => ⟨trivial, rfl⟩
  | .one h => by
    obtain ⟨-, hgrouped, rfl⟩ := grouped_of_derives h
    exact ⟨⟨hgrouped, trivial⟩, (List.append_nil _).symm⟩
  | .more h hothers => by
    obtain ⟨-, hgrouped, rfl⟩ := grouped_of_derives h
    obtain ⟨hothersGrouped, rfl⟩ := groupedAll_of_arguments hothers
    exact ⟨⟨hgrouped, hothersGrouped⟩, rfl⟩

end

mutual

theorem derives_of_grouped : ∀ a : Term, a.Grouped → Derives a.level a.lexemes a
  | .word text, _ => .primary (.word text)
  | .numeral text, _ => .primary (.numeral text)
  | .quoted text, _ => .primary (.quoted text)
  | .negative text, _ => .primary (.negative text)
  | .element array index, h =>
    .primary (.element array ((derives_of_grouped index h).of_le index.one_le_level))
  | .call function arguments, h => .primary (.call function (arguments_of_grouped arguments h))
  | .cast function arguments, h => .primary (.cast function (arguments_of_grouped arguments h))
  | .binary op left right, ⟨hleft, hright, hleftGrouped, hrightGrouped⟩ =>
    .binary op ((derives_of_grouped left hleftGrouped).of_le hleft)
      ((derives_of_grouped right hrightGrouped).of_le hright)
  | .parentheses inner, h =>
    .primary (.parentheses ((derives_of_grouped inner h).of_le inner.one_le_level))

theorem arguments_of_grouped : ∀ arguments : List Term, Term.GroupedAll arguments →
    Arguments (separated (Term.lexemesOf arguments)) arguments
  | [], _ => .none
  | [a], h => by
    have ha := (derives_of_grouped a h.1).of_le a.one_le_level
    rw [Term.lexemesOf, Term.lexemesOf, separated, List.flatMap_nil, List.append_nil]
    exact .one ha
  | a :: b :: others, h => by
    have ha := (derives_of_grouped a h.1).of_le a.one_le_level
    exact .more ha (arguments_of_grouped (b :: others) h.2)

end

/-- The grammar derives on a level the terms that keep to the precedences and hold together tight
enough, each from its own lexemes. -/
theorem derives_iff {n : Nat} {used : List Lexeme} {a : Term} :
    Derives n used a ↔ n ≤ a.level ∧ a.Grouped ∧ used = a.lexemes := by
  constructor
  · exact grouped_of_derives
  · rintro ⟨hlevel, hgrouped, rfl⟩
    exact (derives_of_grouped a hgrouped).of_le hlevel

end BlockScript.Java
