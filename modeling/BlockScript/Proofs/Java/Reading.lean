import BlockScript.Proofs.Java.Lexer
import BlockScript.Proofs.Java.Regrouping
import BlockScript.Proofs.Json.Tree
/-!
# Emitted expressions are read back

Every operand gets parentheses in Java just if its operator does not bind tight enough for its
place. So the Java form of an expression keeps to the precedences, and Java reads the same tree from
it, up to the groups of the source, which are parentheses in Java as well. Without one of the pairs
that the emission puts in, the form does not keep to the precedences, and another tree is read.

## Main definitions

* `Java.Denotes` — the term that an annotated expression tree stands for
* `Java.LeavesOut` — forms that lack one pair of parentheses

## Main results

* `Java.expression_reads_back` — what Java reads from emitted expressions
-/

namespace BlockScript.Java

/-! ### Trees and terms -/

mutual

/-- The term that an annotated expression tree stands for: its groups do not count, variables and
functions have their Java names, and a power is a call with a cast. -/
inductive Denotes : Node → Term → Prop
  | literal (value type) : Denotes (.literal value type) (.ofScalar value)
  | group {inner tree} (type) : Denotes inner tree → Denotes (.group inner type) tree
  | binary {left right a b} (op : BinaryOperator) (type) : Denotes left a → Denotes right b →
      Denotes (.binary op.val.text left right type) (.binary op a b)
  | power {base exponent a b} (type) : Denotes base a → Denotes exponent b →
      Denotes (.binary Operator.power.text base exponent type) (.cast "Math.pow" [a, b])
  | name (name type) (binding : Binding) :
      Denotes (.access name .null type (some binding)) (.word binding.name)
  | element {offset index} (name type) (binding : Binding) : Denotes offset index →
      Denotes (.access name offset type (some binding)) (.element binding.name index)
  | call {arguments trees} (name type) (callee : Signature) : DenoteAll arguments trees →
      Denotes (.call name arguments type (some callee)) (.call callee.javaName trees)

/-- The terms that several annotated expression trees stand for. -/
inductive DenoteAll : List Node → List Term → Prop
  | nil : DenoteAll [] []
  | cons {node tree rest trees} : Denotes node tree → DenoteAll rest trees →
      DenoteAll (node :: rest) (tree :: trees)

end

namespace Term

mutual

/-- Whether the words of a term are names in Java. -/
def IsLexical : Term → Prop
  | word text => isWord text = true
  | numeral _ | quoted _ | negative _ => True
  | element array index => isWord array = true ∧ index.IsLexical
  | call function arguments => isWord function = true ∧ AreLexical arguments
  | cast function arguments => isWord function = true ∧ AreLexical arguments
  | binary _ left right => left.IsLexical ∧ right.IsLexical
  | parentheses inner => inner.IsLexical

/-- Whether the words of several terms are names in Java. -/
def AreLexical : List Term → Prop
  | [] => True
  | a :: others => a.IsLexical ∧ AreLexical others

end

mutual

theorem isLexical_bare : ∀ a : Term, a.bare.IsLexical ↔ a.IsLexical
  | word _ | numeral _ | quoted _ | negative _ => Iff.rfl
  | element _ index => and_congr_right fun _ => isLexical_bare index
  | call _ arguments => and_congr_right fun _ => areLexical_bareAll arguments
  | cast _ arguments => and_congr_right fun _ => areLexical_bareAll arguments
  | binary _ left right => and_congr (isLexical_bare left) (isLexical_bare right)
  | parentheses inner => isLexical_bare inner

theorem areLexical_bareAll : ∀ arguments : List Term,
    AreLexical (bareAll arguments) ↔ AreLexical arguments
  | [] => Iff.rfl
  | a :: others => and_congr (isLexical_bare a) (areLexical_bareAll others)

end

end Term

/-! ### Forms and terms -/

/-- A form that is written like a term. -/
structure Writes (form : Expression) (a : Term) : Prop where
  /-- The form has the lexemes of the term. -/
  lexemes_eq : form.lexemes = a.lexemes
  /-- The form can be split into lexemes if the names are those of Java. -/
  isLexical : a.IsLexical → form.IsLexical

/-- Forms that are written like terms, one by one. -/
structure WriteAll (forms : List Expression) (arguments : List Term) : Prop where
  /-- The forms have the lexemes of the terms. -/
  lexemesOf_eq : Expression.lexemesOf forms = Term.lexemesOf arguments
  /-- The forms can be split into lexemes if the names are those of Java. -/
  areLexical : Term.AreLexical arguments → Expression.AreLexical forms

namespace Writes

variable {form left right : Expression} {a b : Term}

theorem literal (value : Scalar) : Writes (.literal value) (.ofScalar value) :=
  ⟨rfl, fun _ => trivial⟩

theorem name (identifier : String) : Writes (.name identifier) (.word identifier) :=
  ⟨rfl, id⟩

theorem parentheses (h : Writes form a) : Writes (.parentheses form) (.parentheses a) :=
  ⟨by rw [Expression.lexemes, Term.lexemes, h.lexemes_eq], h.isLexical⟩

theorem element (array : String) (h : Writes form a) :
    Writes (.element array form) (.element array a) :=
  ⟨by rw [Expression.lexemes, Term.lexemes, h.lexemes_eq],
    fun hlexical => ⟨hlexical.1, h.isLexical hlexical.2⟩⟩

theorem call (function : String) {forms : List Expression} {arguments : List Term}
    (h : WriteAll forms arguments) : Writes (.call function forms) (.call function arguments) :=
  ⟨by rw [Expression.lexemes, Term.lexemes, h.lexemesOf_eq],
    fun hlexical => ⟨hlexical.1, h.areLexical hlexical.2⟩⟩

theorem binary (op : BinaryOperator) (hleft : Writes left a) (hright : Writes right b) :
    Writes (.binary op.val.text left right) (.binary op a b) :=
  ⟨by rw [Expression.lexemes, Term.lexemes, hleft.lexemes_eq, hright.lexemes_eq],
    fun hlexical => ⟨⟨op.val, rfl⟩, hleft.isLexical hlexical.1, hright.isLexical hlexical.2⟩⟩

theorem power (hleft : Writes left a) (hright : Writes right b) :
    Writes (.power left right) (.cast "Math.pow" [a, b]) :=
  ⟨by rw [Expression.lexemes, Term.lexemes, hleft.lexemes_eq, hright.lexemes_eq]; rfl,
    fun hlexical => ⟨hleft.isLexical hlexical.2.1, hright.isLexical hlexical.2.2.1⟩⟩

end Writes

namespace WriteAll

theorem nil : WriteAll [] [] :=
  ⟨rfl, id⟩

theorem cons {form : Expression} {a : Term} {forms : List Expression} {arguments : List Term}
    (h : Writes form a) (hrest : WriteAll forms arguments) :
    WriteAll (form :: forms) (a :: arguments) :=
  ⟨by rw [Expression.lexemesOf, Term.lexemesOf, h.lexemes_eq, hrest.lexemesOf_eq],
    fun hlexical => ⟨h.isLexical hlexical.1, hrest.areLexical hlexical.2⟩⟩

end WriteAll

/-! ### Operands -/

/-- The Java form of an operand, with parentheses if it needs them. -/
def emitOperand (symbol : String) (side : Side) (node : Node) : Emission Expression := do
  parenthesize symbol side node (← emitExpression node)

/-- The Java form of an operation on operands that have their parentheses. -/
def joined (symbol : String) (left right : Expression) : Expression :=
  if symbol = Operator.power.text then .power left right else .binary symbol left right

theorem emitExpression_binary {symbol : String} {left right : Node} {l r : Expression}
    (hleft : emitOperand symbol .left left = .ok l)
    (hright : emitOperand symbol .right right = .ok r) (type : Option Ty) :
    emitExpression (.binary symbol left right type) = .ok (joined symbol l r) := by
  rw [emitOperand, bind_eq_ok_iff] at hleft hright
  obtain ⟨l', hl, hleft⟩ := hleft
  obtain ⟨r', hr, hright⟩ := hright
  simp only [emitExpression, hl, hr, hleft, hright, ok_bind, joined]
  split <;> rfl

/-- The level of a term agrees with what the emission goes by. -/
def HasLevelOf (node : Node) (a : Term) : Prop :=
  match node with
  | .binary symbol _ _ _ => precedenceOf symbol = .ok a.level
  | _ => a.level = 7

/-- Whether a term needs no parentheses as an operand. -/
def FitsOperand (op : BinaryOperator) (side : Side) (a : Term) : Prop :=
  match side with
  | .left => op.precedence ≤ a.level
  | .right => op.precedence < a.level

instance {op : BinaryOperator} {side : Side} {a : Term} : Decidable (FitsOperand op side a) :=
  match side with
  | .left => inferInstanceAs (Decidable (op.precedence ≤ a.level))
  | .right => inferInstanceAs (Decidable (op.precedence < a.level))

theorem precedenceOf_text (op : Operator) : precedenceOf op.text = .ok op.javaPrecedence := by
  rw [precedenceOf, Operator.ofText?_text]

theorem fitsOperand_of_level {op : BinaryOperator} (side : Side) {a : Term} (h : a.level = 7) :
    FitsOperand op side a := by
  have hlt := op.precedence_lt
  rw [← h] at hlt
  cases side with
  | left => exact Nat.le_of_lt hlt
  | right => exact hlt

theorem not_fitsOperand_iff {op : BinaryOperator} {side : Side} {a : Term} :
    ¬FitsOperand op side a ↔
      a.level < op.precedence ∨ (side = .right ∧ a.level = op.precedence) := by
  cases side with
  | left => simp [FitsOperand]
  | right =>
    simp only [FitsOperand, true_and]
    omega

theorem BinaryOperator.text_ne_power (op : BinaryOperator) :
    op.val.text ≠ Operator.power.text := by
  intro h
  have hop := Operator.ofText?_text op.val
  rw [h, Operator.ofText?_text] at hop
  exact op.property (Option.some.inj hop).symm

/-- An operand gets parentheses just if it needs them. -/
theorem parenthesize_eq {op : BinaryOperator} {side : Side} {node : Node} {a : Term}
    (hlevel : HasLevelOf node a) (form : Expression) :
    parenthesize op.val.text side node form =
      .ok (if FitsOperand op side a then form else .parentheses form) := by
  unfold parenthesize
  split
  next symbol left right type =>
    have hinner : precedenceOf symbol = .ok a.level := hlevel
    have houter : precedenceOf op.val.text = .ok op.precedence := precedenceOf_text op.val
    rw [if_neg op.text_ne_power, hinner, houter]
    simp only [ok_bind, ← not_fitsOperand_iff]
    by_cases hfits : FitsOperand op side a
    · rw [if_neg (not_not_intro hfits), if_pos hfits]
      rfl
    · rw [if_pos hfits, if_neg hfits]
      rfl
  next hnode =>
    have hprimary : a.level = 7 := by
      unfold HasLevelOf at hlevel
      split at hlevel
      next symbol left right type => exact (hnode symbol left right type rfl).elim
      next => exact hlevel
    rw [if_pos (fitsOperand_of_level side hprimary)]

/-- Whatever an operand is, it gets one pair of parentheses or none. -/
theorem eq_or_eq_of_parenthesize {symbol : String} {side : Side} {node : Node}
    {form form' : Expression} (h : parenthesize symbol side node form = .ok form') :
    form' = form ∨ form' = .parentheses form := by
  unfold parenthesize at h
  split at h
  · split at h
    · cases h
      exact .inl rfl
    · obtain ⟨inner, -, h⟩ := bind_eq_ok_iff.mp h
      obtain ⟨outer, -, h⟩ := bind_eq_ok_iff.mp h
      split at h
      · cases h
        exact .inr rfl
      · cases h
        exact .inl rfl
  · cases h
    exact .inl rfl

/-- The operands of a power get no parentheses. -/
theorem emitOperand_power (side : Side) {node : Node} {form : Expression}
    (h : emitExpression node = .ok form) :
    emitOperand Operator.power.text side node = .ok form := by
  rw [emitOperand, h, ok_bind]
  unfold parenthesize
  split
  next => rw [if_pos rfl]
  next => rfl

theorem joined_power (left right : Expression) :
    joined Operator.power.text left right = .power left right :=
  if_pos rfl

theorem joined_binary (op : BinaryOperator) (left right : Expression) :
    joined op.val.text left right = .binary op.val.text left right :=
  if_neg op.text_ne_power

/-! ### What is emitted -/

/-- An operand of an operator between its operands is written like a term that fits there. -/
theorem exists_emitOperand {op : BinaryOperator} (side : Side) {node : Node} {form : Expression}
    {a : Term} (hemit : emitExpression node = .ok form) (hwrites : Writes form a)
    (hgrouped : a.Grouped) (hlevel : HasLevelOf node a) :
    ∃ form' a', emitOperand op.val.text side node = .ok form' ∧ Writes form' a' ∧ a'.Grouped ∧
      a'.bare = a.bare ∧ FitsOperand op side a' := by
  rw [emitOperand, hemit, ok_bind, parenthesize_eq hlevel]
  by_cases hfits : FitsOperand op side a
  · exact ⟨form, a, by rw [if_pos hfits], hwrites, hgrouped, rfl, hfits⟩
  · exact ⟨.parentheses form, .parentheses a, by rw [if_neg hfits], hwrites.parentheses, hgrouped,
      rfl, fitsOperand_of_level side rfl⟩

theorem ofNumeral_isPrimary (text : String) :
    (Term.ofNumeral text).IsPrimary ∧ (Term.ofNumeral text).bare = .ofNumeral text := by
  unfold Term.ofNumeral
  split <;> exact ⟨⟨rfl, trivial⟩, rfl⟩

theorem ofScalar_isPrimary (value : Scalar) :
    (Term.ofScalar value).IsPrimary ∧ (Term.ofScalar value).bare = .ofScalar value := by
  cases value with
  | integer value => exact ofNumeral_isPrimary _
  | decimal value => exact ofNumeral_isPrimary _
  | _ => exact ⟨⟨rfl, trivial⟩, rfl⟩

theorem isNull_eq_false {node : Node} {tree : Term} (h : Denotes node tree) :
    node.isNull = false := by
  cases h <;> rfl

mutual

/-- The Java form of an expression is written like a term that keeps to the precedences and is the
tree, up to parentheses. -/
theorem exists_emitExpression {node : Node} {tree : Term} : Denotes node tree →
    ∃ form a, emitExpression node = .ok form ∧ Writes form a ∧ a.Grouped ∧ a.bare = tree ∧
      HasLevelOf node a
  | .literal value type => by
    obtain ⟨⟨hlevel, hgrouped⟩, hbare⟩ := ofScalar_isPrimary value
    exact ⟨.literal value, .ofScalar value, rfl, .literal value, hgrouped, hbare, hlevel⟩
  | .group type h => by
    obtain ⟨form, a, hemit, hwrites, hgrouped, hbare, -⟩ := exists_emitExpression h
    exact ⟨.parentheses form, .parentheses a, by rw [emitExpression, hemit]; rfl,
      hwrites.parentheses, hgrouped, hbare, rfl⟩
  | .binary op type hleft hright => by
    obtain ⟨form, a, hemit, hwrites, hgrouped, hbare, hlevel⟩ := exists_emitExpression hleft
    obtain ⟨l, a', hl, hlWrites, hlGrouped, hlBare, hlFits⟩ :=
      exists_emitOperand .left hemit hwrites hgrouped hlevel
    obtain ⟨form, b, hemit, hwrites, hgrouped, hbare', hlevel⟩ := exists_emitExpression hright
    obtain ⟨r, b', hr, hrWrites, hrGrouped, hrBare, hrFits⟩ :=
      exists_emitOperand .right hemit hwrites hgrouped hlevel
    refine ⟨_, .binary op a' b', emitExpression_binary hl hr type, ?_,
      ⟨hlFits, hrFits, hlGrouped, hrGrouped⟩, ?_, precedenceOf_text op.val⟩
    · rw [joined_binary]
      exact hlWrites.binary op hrWrites
    · rw [Term.bare, hlBare, hrBare, hbare, hbare']
  | .power type hbase hexponent => by
    obtain ⟨l, a, hl, hlWrites, hlGrouped, hlBare, -⟩ := exists_emitExpression hbase
    obtain ⟨r, b, hr, hrWrites, hrGrouped, hrBare, -⟩ := exists_emitExpression hexponent
    refine ⟨_, .cast "Math.pow" [a, b],
      emitExpression_binary (emitOperand_power .left hl) (emitOperand_power .right hr) type, ?_,
      ⟨hlGrouped, hrGrouped, trivial⟩, ?_, precedenceOf_text .power⟩
    · rw [joined_power]
      exact hlWrites.power hrWrites
    · simp only [Term.bare, Term.bareAll, hlBare, hrBare]
  | .name name type binding =>
    ⟨.name binding.name, .word binding.name, rfl, .name _, trivial, rfl, rfl⟩
  | .element name type binding h => by
    obtain ⟨form, a, hemit, hwrites, hgrouped, hbare, -⟩ := exists_emitExpression h
    refine ⟨.element binding.name form, .element binding.name a, ?_, hwrites.element _, hgrouped, ?_,
      rfl⟩
    · simp only [emitExpression, Emission.present, ok_bind, isNull_eq_false h, hemit]
      rfl
    · rw [Term.bare, hbare]
  | .call name type callee h => by
    obtain ⟨forms, arguments, hemit, hwrites, hgrouped, hbare⟩ := exists_emitAll h
    refine ⟨.call callee.javaName forms, .call callee.javaName arguments, ?_, .call _ hwrites,
      hgrouped, ?_, rfl⟩
    · rw [emitExpression, hemit]
      rfl
    · rw [Term.bare, hbare]

theorem exists_emitAll {nodes : List Node} {trees : List Term} : DenoteAll nodes trees →
    ∃ forms arguments, emitAll nodes = .ok forms ∧ WriteAll forms arguments ∧
      Term.GroupedAll arguments ∧ Term.bareAll arguments = trees
  | .nil => ⟨[], [], rfl, .nil, trivial, rfl⟩
  | .cons h hrest => by
    obtain ⟨form, a, hemit, hwrites, hgrouped, hbare, -⟩ := exists_emitExpression h
    obtain ⟨forms, arguments, hemitRest, hwritesRest, hgroupedRest, hbareRest⟩ :=
      exists_emitAll hrest
    refine ⟨form :: forms, a :: arguments, ?_, .cons hwrites hwritesRest, ⟨hgrouped, hgroupedRest⟩,
      ?_⟩
    · rw [emitAll, hemit, hemitRest]
      rfl
    · rw [Term.bareAll, hbare, hbareRest]

end

/-- An operand of any operator is written like a term that is the operand's tree, up to
parentheses. -/
theorem exists_of_emitOperand {symbol : String} {side : Side} {node : Node} {tree : Term}
    {form : Expression} (h : Denotes node tree) (hemit : emitOperand symbol side node = .ok form) :
    ∃ a, Writes form a ∧ a.bare = tree := by
  obtain ⟨form', a, hemit', hwrites, -, hbare, -⟩ := exists_emitExpression h
  rw [emitOperand, hemit', ok_bind] at hemit
  obtain rfl | rfl := eq_or_eq_of_parenthesize hemit
  · exact ⟨a, hwrites, hbare⟩
  · exact ⟨.parentheses a, hwrites.parentheses, hbare⟩

/-! ### Leaving parentheses out -/

mutual

/-- The Java forms of an expression in which one pair of parentheses is left out that an operand has
got, anywhere in the expression. -/
inductive LeavesOut : Node → Expression → Prop
  | group {inner form} (type) : LeavesOut inner form →
      LeavesOut (.group inner type) (.parentheses form)
  | left {symbol left right l r} (type) : emitExpression left = .ok l →
      emitOperand symbol .left left = .ok (.parentheses l) →
      emitOperand symbol .right right = .ok r →
      LeavesOut (.binary symbol left right type) (joined symbol l r)
  | right {symbol left right l r} (type) : emitOperand symbol .left left = .ok l →
      emitExpression right = .ok r → emitOperand symbol .right right = .ok (.parentheses r) →
      LeavesOut (.binary symbol left right type) (joined symbol l r)
  | insideLeft {symbol left right form l r} (type) : LeavesOut left form →
      parenthesize symbol .left left form = .ok l → emitOperand symbol .right right = .ok r →
      LeavesOut (.binary symbol left right type) (joined symbol l r)
  | insideRight {symbol left right form l r} (type) : emitOperand symbol .left left = .ok l →
      LeavesOut right form → parenthesize symbol .right right form = .ok r →
      LeavesOut (.binary symbol left right type) (joined symbol l r)
  | element {offset form} (name type) (binding : Binding) : LeavesOut offset form →
      LeavesOut (.access name offset type (some binding)) (.element binding.name form)
  | call {arguments forms} (name type) (callee : Signature) : OneLeavesOut arguments forms →
      LeavesOut (.call name arguments type (some callee)) (.call callee.javaName forms)

/-- The Java forms of several expressions in one of which a pair of parentheses is left out. -/
inductive OneLeavesOut : List Node → List Expression → Prop
  | head {node rest form forms} : LeavesOut node form → emitAll rest = .ok forms →
      OneLeavesOut (node :: rest) (form :: forms)
  | tail {node rest form forms} : emitExpression node = .ok form → OneLeavesOut rest forms →
      OneLeavesOut (node :: rest) (form :: forms)

end

/-- What an operation is written like if its operands are written like terms. -/
theorem exists_of_joined {symbol : String} {left right : Node} {type : Option Ty} {tree : Term} :
    Denotes (.binary symbol left right type) tree →
    ∃ x y, Denotes left x ∧ Denotes right y ∧
      (symbol = Operator.power.text ∨ ∃ op : BinaryOperator, symbol = op.val.text) ∧
      ∀ {l r a b}, Writes l a → Writes r b → a.bare = x → b.bare = y →
        ∃ c, Writes (joined symbol l r) c ∧ c.bare = tree ∧ (c.Grouped → a.Grouped ∧ b.Grouped ∧
          ∀ op : BinaryOperator, symbol = op.val.text →
            FitsOperand op .left a ∧ FitsOperand op .right b)
  | .binary op type hleft hright => by
    refine ⟨_, _, hleft, hright, .inr ⟨op, rfl⟩, fun {l r a b} hl hr ha hb =>
      ⟨.binary op a b, ?_, ?_, ?_⟩⟩
    · rw [joined_binary]
      exact hl.binary op hr
    · rw [Term.bare, ha, hb]
    · rintro ⟨hfitsLeft, hfitsRight, haGrouped, hbGrouped⟩
      refine ⟨haGrouped, hbGrouped, fun op' hop => ?_⟩
      rw [← BinaryOperator.eq_of_text_eq hop]
      exact ⟨hfitsLeft, hfitsRight⟩
  | .power type hleft hright => by
    refine ⟨_, _, hleft, hright, .inl rfl, fun {l r a b} hl hr ha hb =>
      ⟨.cast "Math.pow" [a, b], ?_, ?_, ?_⟩⟩
    · rw [joined_power]
      exact hl.power hr
    · simp only [Term.bare, Term.bareAll, ha, hb]
    · rintro ⟨haGrouped, hbGrouped, -⟩
      exact ⟨haGrouped, hbGrouped, fun op hop => (op.text_ne_power hop.symm).elim⟩

/-- An operand that gets parentheses is written like a term that does not fit. -/
theorem exists_of_parentheses {symbol : String} {side : Side} {node : Node} {tree : Term}
    {form : Expression}
    (hsymbol : symbol = Operator.power.text ∨ ∃ op : BinaryOperator, symbol = op.val.text)
    (h : Denotes node tree) (hemit : emitExpression node = .ok form)
    (hoperand : emitOperand symbol side node = .ok (.parentheses form)) :
    ∃ (op : BinaryOperator) (a : Term), symbol = op.val.text ∧ Writes form a ∧ a.bare = tree ∧
      ¬FitsOperand op side a := by
  have hne : form ≠ .parentheses form := fun heq => by
    have hsize := congrArg sizeOf heq
    rw [Expression.parentheses.sizeOf_spec] at hsize
    omega
  obtain ⟨form', a, hemit', hwrites, -, hbare, hlevel⟩ := exists_emitExpression h
  cases hemit.symm.trans hemit'
  obtain rfl | ⟨op, rfl⟩ := hsymbol
  · rw [emitOperand_power side hemit] at hoperand
    exact (hne (Except.ok.inj hoperand)).elim
  · refine ⟨op, a, rfl, hwrites, hbare, fun hfits => ?_⟩
    rw [emitOperand, hemit, ok_bind, parenthesize_eq hlevel, if_pos hfits] at hoperand
    exact hne (Except.ok.inj hoperand)

/-- With or without parentheses around it, a term does not keep to the precedences if it did not. -/
theorem exists_of_parenthesize {symbol : String} {side : Side} {node : Node}
    {form form' : Expression} {a : Term} (hwrites : Writes form a) (ha : ¬a.Grouped)
    (h : parenthesize symbol side node form = .ok form') :
    ∃ a', Writes form' a' ∧ ¬a'.Grouped ∧ a'.bare = a.bare := by
  obtain rfl | rfl := eq_or_eq_of_parenthesize h
  · exact ⟨a, hwrites, ha, rfl⟩
  · exact ⟨.parentheses a, hwrites.parentheses, ha, rfl⟩

mutual

/-- A form that lacks one pair of parentheses is written like a term that is the tree, up to
parentheses, but does not keep to the precedences. -/
theorem exists_of_leavesOut {node : Node} {other : Expression} : LeavesOut node other →
    ∀ {tree : Term}, Denotes node tree → ∃ a, Writes other a ∧ ¬a.Grouped ∧ a.bare = tree
  | .group type h, tree, htree => by
    cases htree with
    | group _ htree =>
      obtain ⟨a, hwrites, ha, hbare⟩ := exists_of_leavesOut h htree
      exact ⟨.parentheses a, hwrites.parentheses, ha, hbare⟩
  | .left type hemit hoperand hright, tree, htree => by
    obtain ⟨x, y, hx, hy, hsymbol, hjoined⟩ := exists_of_joined htree
    obtain ⟨op, a, hop, hwrites, hbare, hfits⟩ := exists_of_parentheses hsymbol hx hemit hoperand
    obtain ⟨b, hrWrites, hrBare⟩ := exists_of_emitOperand hy hright
    obtain ⟨c, hcWrites, hcBare, hc⟩ := hjoined hwrites hrWrites hbare hrBare
    exact ⟨c, hcWrites, fun hgrouped => hfits ((hc hgrouped).2.2 op hop).1, hcBare⟩
  | .right type hleft hemit hoperand, tree, htree => by
    obtain ⟨x, y, hx, hy, hsymbol, hjoined⟩ := exists_of_joined htree
    obtain ⟨op, b, hop, hwrites, hbare, hfits⟩ := exists_of_parentheses hsymbol hy hemit hoperand
    obtain ⟨a, hlWrites, hlBare⟩ := exists_of_emitOperand hx hleft
    obtain ⟨c, hcWrites, hcBare, hc⟩ := hjoined hlWrites hwrites hlBare hbare
    exact ⟨c, hcWrites, fun hgrouped => hfits ((hc hgrouped).2.2 op hop).2, hcBare⟩
  | .insideLeft type hother hleft hright, tree, htree => by
    obtain ⟨x, y, hx, hy, -, hjoined⟩ := exists_of_joined htree
    obtain ⟨a, hwrites, ha, hbare⟩ := exists_of_leavesOut hother hx
    obtain ⟨a', hlWrites, ha', hlBare⟩ := exists_of_parenthesize hwrites ha hleft
    obtain ⟨b, hrWrites, hrBare⟩ := exists_of_emitOperand hy hright
    obtain ⟨c, hcWrites, hcBare, hc⟩ := hjoined hlWrites hrWrites (hlBare.trans hbare) hrBare
    exact ⟨c, hcWrites, fun hgrouped => ha' (hc hgrouped).1, hcBare⟩
  | .insideRight type hleft hother hright, tree, htree => by
    obtain ⟨x, y, hx, hy, -, hjoined⟩ := exists_of_joined htree
    obtain ⟨b, hwrites, hb, hbare⟩ := exists_of_leavesOut hother hy
    obtain ⟨b', hrWrites, hb', hrBare⟩ := exists_of_parenthesize hwrites hb hright
    obtain ⟨a, hlWrites, hlBare⟩ := exists_of_emitOperand hx hleft
    obtain ⟨c, hcWrites, hcBare, hc⟩ := hjoined hlWrites hrWrites hlBare (hrBare.trans hbare)
    exact ⟨c, hcWrites, fun hgrouped => hb' (hc hgrouped).2.1, hcBare⟩
  | .element name type binding h, tree, htree => by
    cases htree with
    | name => cases h
    | element _ _ _ htree =>
      obtain ⟨a, hwrites, ha, hbare⟩ := exists_of_leavesOut h htree
      exact ⟨.element binding.name a, hwrites.element _, ha, by rw [Term.bare, hbare]⟩
  | .call name type callee h, tree, htree => by
    cases htree with
    | call _ _ _ htrees =>
      obtain ⟨arguments, hwrites, hgrouped, hbare⟩ := exists_of_oneLeavesOut h htrees
      exact ⟨.call callee.javaName arguments, .call _ hwrites, hgrouped, by rw [Term.bare, hbare]⟩

theorem exists_of_oneLeavesOut {nodes : List Node} {forms : List Expression} :
    OneLeavesOut nodes forms → ∀ {trees : List Term}, DenoteAll nodes trees →
    ∃ arguments, WriteAll forms arguments ∧ ¬Term.GroupedAll arguments ∧
      Term.bareAll arguments = trees
  | .head h hemit, trees, htrees => by
    cases htrees with
    | cons htree hrest =>
      obtain ⟨a, hwrites, ha, hbare⟩ := exists_of_leavesOut h htree
      obtain ⟨forms', arguments, hemit', hwritesRest, -, hbareRest⟩ := exists_emitAll hrest
      cases hemit.symm.trans hemit'
      exact ⟨a :: arguments, .cons hwrites hwritesRest, fun hgrouped => ha hgrouped.1,
        by rw [Term.bareAll, hbare, hbareRest]⟩
  | .tail hemit h, trees, htrees => by
    cases htrees with
    | cons htree hrest =>
      obtain ⟨form', a, hemit', hwrites, -, hbare, -⟩ := exists_emitExpression htree
      obtain ⟨arguments, hwritesRest, hgrouped, hbareRest⟩ := exists_of_oneLeavesOut h hrest
      cases hemit.symm.trans hemit'
      exact ⟨a :: arguments, .cons hwrites hwritesRest, fun h => hgrouped h.2,
        by rw [Term.bareAll, hbare, hbareRest]⟩

end

/-- A variable of a given name, as the analysis leaves it. -/
def variableNode (name : String) : Node :=
  .access name .null none
    (some { number := 0, name, type := some .integer, mutable := true, isList := false })

/-- A tree with a looser operator on the left, and one that binds equally on the right. -/
def mixedOperation : Node :=
  .binary "&&" (.binary "||" (variableNode "a") (variableNode "b") none)
    (.binary "<" (.binary "-" (variableNode "i") (.binary "-" (variableNode "j")
      (.literal (.integer 3) none) none) none)
      (.binary "^" (variableNode "i") (variableNode "j") none) none) none

/-- The operation gets two pairs of parentheses. -/
example : (emitExpression mixedOperation).toOption.map Expression.text =
    some "(a || b) && i - (j - 3) < (int) Math.pow(i, j)" := by
  rfl

theorem leavesOut_mixedOperation : LeavesOut mixedOperation
    (.binary "&&" (.binary "||" (.name "a") (.name "b"))
      (.binary "<" (.binary "-" (.name "i")
        (.parentheses (.binary "-" (.name "j") (.literal (.integer 3)))))
        (.power (.name "i") (.name "j")))) :=
  .left none rfl rfl rfl

end BlockScript.Java
