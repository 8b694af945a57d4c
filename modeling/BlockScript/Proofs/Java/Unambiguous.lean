import BlockScript.Proofs.Java.Grammar
/-!
# Java expressions are unambiguous

A term is a first operand with operators and more operands behind it, and the operands are primary.
Where an operand ends can be told from what follows it: an operator, or something that ends the
whole expression. So lexemes determine the operands and the operators between them. How these are
grouped is determined by the precedences, because the operator that binds everything together is
the last among those that bind loosest.

## Main definitions

* `Java.Term.first`, `Java.Term.rest` — the operands of a term, with the operators
* `Java.Term.IsSeparate`, `Java.Term.IsOperand` — a term and an operand whose end can be told

## Main results

* `Java.Term.eq_of_lexemes_eq` — terms that keep to the precedences differ in their lexemes
-/

namespace BlockScript.Java

theorem BinaryOperator.eq_of_text_eq {op other : BinaryOperator}
    (h : op.val.text = other.val.text) : op = other := by
  have hop := Operator.ofText?_text op.val
  rw [h, Operator.ofText?_text] at hop
  exact Subtype.ext (Option.some.inj hop).symm

/-! ### What follows an expression -/

/-- Whether a lexeme ends an expression in front of it. -/
def Lexeme.IsEnd : Lexeme → Prop
  | comma | closing | closingBracket => True
  | _ => False

/-- Whether a lexeme ends an operand in front of it. -/
def Lexeme.IsBehindOperand : Lexeme → Prop
  | operator _ | comma | closing | closingBracket => True
  | _ => False

/-- Lexemes that do not go on an expression in front of them. -/
def Stops (lexemes : List Lexeme) : Prop :=
  ∀ lexeme ∈ lexemes.head?, lexeme.IsEnd

/-- Lexemes that do not go on an operand in front of them. -/
def Follows (lexemes : List Lexeme) : Prop :=
  ∀ lexeme ∈ lexemes.head?, lexeme.IsBehindOperand

theorem stops_nil : Stops [] := by
  simp [Stops]

theorem stops_cons {lexeme : Lexeme} {lexemes : List Lexeme} :
    Stops (lexeme :: lexemes) ↔ lexeme.IsEnd := by
  simp [Stops]

theorem stops_closing (lexemes : List Lexeme) : Stops (.closing :: lexemes) :=
  stops_cons.mpr trivial

theorem stops_closingBracket (lexemes : List Lexeme) : Stops (.closingBracket :: lexemes) :=
  stops_cons.mpr trivial

theorem follows_cons {lexeme : Lexeme} {lexemes : List Lexeme} :
    Follows (lexeme :: lexemes) ↔ lexeme.IsBehindOperand := by
  simp [Follows]

theorem Stops.follows {lexemes : List Lexeme} (h : Stops lexemes) : Follows lexemes := by
  intro lexeme hhead
  have hend := h lexeme hhead
  cases lexeme <;> first | exact hend.elim | trivial

namespace Term

/-! ### Operands -/

/-- The first operand of a term, which is the term itself if it is primary. -/
def first : Term → Term
  | binary _ left _ => left.first
  | other => other

/-- The other operands of a term, each with the operator in front of it. -/
def rest : Term → List (BinaryOperator × Term)
  | binary op left right => left.rest ++ (op, right.first) :: right.rest
  | _ => []

/-- The lexemes of operands with operators in front of them. -/
def lexemesBehind (operands : List (BinaryOperator × Term)) : List Lexeme :=
  operands.flatMap fun (op, operand) => .operator op.val.text :: operand.lexemes

@[simp]
theorem lexemesBehind_cons (op : BinaryOperator) (operand : Term)
    (operands : List (BinaryOperator × Term)) :
    lexemesBehind ((op, operand) :: operands) =
      .operator op.val.text :: (operand.lexemes ++ lexemesBehind operands) :=
  rfl

theorem binary_or_primary (a : Term) :
    (∃ op left right, a = binary op left right) ∨ (a.first = a ∧ a.rest = [] ∧ a.level = 7) := by
  cases a <;> simp [first, rest, level]

theorem lexemes_eq : ∀ a : Term, a.lexemes = a.first.lexemes ++ lexemesBehind a.rest
  | binary op left right => by
    simp only [lexemes, first, rest, lexemes_eq left, lexemes_eq right, lexemesBehind,
      List.flatMap_append, List.flatMap_cons, List.append_assoc, List.cons_append]
  | word _ | numeral _ | quoted _ | negative _ | element _ _ | call _ _ | cast _ _
  | parentheses _ => (List.append_nil _).symm

/-- A primary term that keeps to the precedences. -/
def IsPrimary (a : Term) : Prop :=
  a.level = 7 ∧ a.Grouped

theorem isPrimary_operands : ∀ {a : Term}, a.Grouped →
    a.first.IsPrimary ∧ ∀ operand ∈ a.rest, operand.2.IsPrimary
  | binary op left right, ⟨_, _, hleft, hright⟩ => by
    obtain ⟨hfirst, hleftRest⟩ := isPrimary_operands hleft
    obtain ⟨hnext, hrightRest⟩ := isPrimary_operands hright
    refine ⟨hfirst, fun operand hmem => ?_⟩
    rcases List.mem_append.mp hmem with hmem | hmem
    · exact hleftRest operand hmem
    rcases List.mem_cons.mp hmem with rfl | hmem
    · exact hnext
    · exact hrightRest operand hmem
  | word _, h | numeral _, h | quoted _, h | negative _, h | element _ _, h | call _ _, h
  | cast _ _, h | parentheses _, h => ⟨⟨rfl, h⟩, by simp [rest]⟩

/-! ### Precedences determine the grouping -/

/-- No operator of a term binds looser than the term holds together. -/
theorem level_le_precedence : ∀ {a : Term}, a.Grouped →
    ∀ operand ∈ a.rest, a.level ≤ operand.1.precedence
  | binary op left right, ⟨hleftLevel, hrightLevel, hleft, hright⟩ => by
    intro operand hmem
    rcases List.mem_append.mp hmem with hmem | hmem
    · exact Nat.le_trans hleftLevel (level_le_precedence hleft operand hmem)
    rcases List.mem_cons.mp hmem with rfl | hmem
    · exact Nat.le_refl _
    · exact Nat.le_trans (Nat.le_of_lt hrightLevel) (level_le_precedence hright operand hmem)
  | word _, _ | numeral _, _ | quoted _, _ | negative _, _ | element _ _, _ | call _ _, _
  | cast _ _, _ | parentheses _, _ => by simp [rest]

/-- The operator of a term cannot stand among those of a left operand of the other term: it would
bind at least as tight as the other operator there, and looser than it on the right. -/
theorem not_append_cons {op op' : BinaryOperator} {left right left' right' : Term}
    (h : (binary op left right).Grouped) (h' : (binary op' left' right').Grouped)
    {between : List (BinaryOperator × Term)}
    (hleft : left'.rest = left.rest ++ (op, right.first) :: between)
    (hright : right.rest = between ++ (op', right'.first) :: right'.rest) : False := by
  obtain ⟨-, hrightLevel, -, hrightGrouped⟩ := h
  obtain ⟨hleftLevel, -, hleftGrouped, -⟩ := h'
  have hle := level_le_precedence hleftGrouped (op, right.first) (by simp [hleft])
  have hlt := level_le_precedence hrightGrouped (op', right'.first) (by simp [hright])
  dsimp only at hle hlt
  omega

/-- Terms with the same operands and operators are the same if they keep to the precedences. -/
theorem eq_of_operands_eq : ∀ {a b : Term}, a.Grouped → b.Grouped → a.first = b.first →
    a.rest = b.rest → a = b := by
  intro a b ha hb hfirst hrest
  induction hn : a.rest.length using Nat.strongRecOn generalizing a b with
  | ind n ih =>
  subst hn
  obtain ⟨op, left, right, rfl⟩ | ⟨ha', hnil, -⟩ := binary_or_primary a
  · obtain ⟨op', left', right', rfl⟩ | ⟨-, hnil, -⟩ := binary_or_primary b
    · have hsplit : left.rest = left'.rest ∧ (op, right.first) :: right.rest =
          (op', right'.first) :: right'.rest := by
        -- otherwise one of the operators stands among the operators of an operand of the other
        rcases List.append_eq_append_iff.mp hrest with ⟨between, hleft, hright⟩ |
          ⟨between, hleft, hright⟩
        · cases between with
          | nil => exact ⟨by simpa using hleft.symm, by simpa using hright⟩
          | cons operand between =>
            obtain ⟨rfl, hbehind⟩ := List.cons.inj hright
            exact (not_append_cons ha hb hleft hbehind).elim
        · cases between with
          | nil => exact ⟨by simpa using hleft, by simpa using hright.symm⟩
          | cons operand between =>
            obtain ⟨rfl, hbehind⟩ := List.cons.inj hright
            exact (not_append_cons hb ha hleft hbehind).elim
      obtain ⟨hleft, hcons⟩ := hsplit
      obtain ⟨hop, hright⟩ := List.cons.inj hcons
      obtain ⟨rfl, hnext⟩ := Prod.mk.inj hop
      obtain ⟨-, -, haLeft, haRight⟩ := ha
      obtain ⟨-, -, hbLeft, hbRight⟩ := hb
      have hshorter : left.rest.length < (binary op left right).rest.length ∧
          right.rest.length < (binary op left right).rest.length := by
        simp only [rest, List.length_append, List.length_cons]
        omega
      rw [ih _ hshorter.1 haLeft hbLeft hfirst hleft rfl,
        ih _ hshorter.2 haRight hbRight hnext hright rfl]
    · simp [rest, hnil] at hrest
  · obtain ⟨op', left', right', rfl⟩ | ⟨hb', -, -⟩ := binary_or_primary b
    · simp [rest, hnil] at hrest
    · rw [← ha', ← hb', hfirst]

/-! ### Lexemes determine the operands -/

/-- An operand whose end can be told from what follows. -/
def IsOperand (p : Term) : Prop :=
  ∀ ⦃q : Term⦄ ⦃x y : List Lexeme⦄, q.IsPrimary → Follows x → Follows y →
    p.lexemes ++ x = q.lexemes ++ y → p = q ∧ x = y

/-- A term whose end can be told from what follows. -/
def IsSeparate (a : Term) : Prop :=
  ∀ ⦃b : Term⦄ ⦃x y : List Lexeme⦄, b.Grouped → Stops x → Stops y →
    a.lexemes ++ x = b.lexemes ++ y → a = b ∧ x = y

/-- More operands behind an operand do not go on that operand. -/
theorem follows_lexemesBehind {operands : List (BinaryOperator × Term)} {x : List Lexeme}
    (hx : Stops x) : Follows (lexemesBehind operands ++ x) := by
  cases operands with
  | nil => exact hx.follows
  | cons operand operands => exact follows_cons.mpr trivial

/-- Several operands with operators in front of them are told apart one after the other. -/
theorem eq_of_lexemesBehind_append {operands : List (BinaryOperator × Term)}
    (hoperands : ∀ operand ∈ operands, operand.2.IsOperand) :
    ∀ {others : List (BinaryOperator × Term)} {x y : List Lexeme},
      (∀ operand ∈ others, operand.2.IsPrimary) → Stops x → Stops y →
      lexemesBehind operands ++ x = lexemesBehind others ++ y → operands = others ∧ x = y := by
  induction operands with
  | nil =>
    intro others x y _ hx _ h
    cases others with
    | nil => exact ⟨rfl, h⟩
    | cons other others =>
      subst h
      exact (stops_cons.mp hx).elim
  | cons operand operands ih =>
    intro others x y hothers hx hy h
    obtain ⟨hp, hmore⟩ := List.forall_mem_cons.mp hoperands
    cases others with
    | nil =>
      subst h
      exact (stops_cons.mp hy).elim
    | cons other others =>
      obtain ⟨op, p⟩ := operand
      obtain ⟨op', q⟩ := other
      obtain ⟨hq, hmoreOthers⟩ := List.forall_mem_cons.mp hothers
      simp only [lexemesBehind_cons, List.cons_append, List.append_assoc, List.cons.injEq,
        Lexeme.operator.injEq] at h
      obtain ⟨htext, h⟩ := h
      obtain ⟨heq, hbehind⟩ := hp hq (follows_lexemesBehind hx) (follows_lexemesBehind hy) h
      obtain ⟨hmoreEq, hxy⟩ := ih hmore hmoreOthers hx hy hbehind
      dsimp only at heq
      exact ⟨by rw [BinaryOperator.eq_of_text_eq htext, heq, hmoreEq], hxy⟩

/-- The end of a term can be told if the ends of its operands can. -/
theorem isSeparate_of_operands {a : Term} (ha : a.Grouped)
    (h : a.first.IsOperand ∧ ∀ operand ∈ a.rest, operand.2.IsOperand) : a.IsSeparate := by
  intro b x y hb hx hy heq
  obtain ⟨hfirst, hrest⟩ := isPrimary_operands hb
  rw [lexemes_eq a, lexemes_eq b, List.append_assoc, List.append_assoc] at heq
  obtain ⟨hfirstEq, heq⟩ := h.1 hfirst (follows_lexemesBehind hx) (follows_lexemesBehind hy) heq
  obtain ⟨hrestEq, hxy⟩ := eq_of_lexemesBehind_append h.2 hrest hx hy heq
  exact ⟨eq_of_operands_eq ha hb hfirstEq hrestEq, hxy⟩

/-- No term begins with what closes others. -/
theorem lexemes_append_ne_closing : ∀ (a : Term) (x y : List Lexeme),
    a.lexemes ++ x ≠ .closing :: y
  | binary op left right, x, y => by
    rw [lexemes, List.append_assoc]
    exact lexemes_append_ne_closing left _ y
  | word _, _, _ | numeral _, _, _ | quoted _, _, _ | negative _, _, _ | element _ _, _, _
  | call _ _, _, _ | cast _ _, _, _ | parentheses _, _, _ => by simp [lexemes]

/-- Terms with commas in front of them are told apart one after the other, up to what closes
them. -/
theorem eq_of_commas_append {arguments : List Term} (harguments : ∀ a ∈ arguments, a.IsSeparate) :
    ∀ {others : List Term} {x y : List Lexeme}, GroupedAll others →
      (lexemesOf arguments).flatMap (.comma :: ·) ++ .closing :: x =
        (lexemesOf others).flatMap (.comma :: ·) ++ .closing :: y → arguments = others ∧ x = y := by
  have hstops : ∀ {arguments : List Term} {x : List Lexeme},
      Stops ((lexemesOf arguments).flatMap (.comma :: ·) ++ .closing :: x) := by
    intro arguments x
    cases arguments <;> exact stops_cons.mpr trivial
  induction arguments with
  | nil =>
    intro others x y _ h
    cases others with
    | nil => exact ⟨rfl, (List.cons.inj h).2⟩
    | cons b others => simp [lexemesOf] at h
  | cons a arguments ih =>
    intro others x y hothers h
    cases others with
    | nil => simp [lexemesOf] at h
    | cons b others =>
      obtain ⟨ha, harguments⟩ := List.forall_mem_cons.mp harguments
      simp only [lexemesOf, List.flatMap_cons, List.cons_append, List.append_assoc,
        List.cons.injEq, true_and] at h
      obtain ⟨rfl, hbehind⟩ := ha hothers.1 hstops hstops h
      obtain ⟨rfl, hxy⟩ := ih harguments hothers.2 hbehind
      exact ⟨rfl, hxy⟩

/-- Terms with commas between them are told apart likewise. -/
theorem eq_of_separated_append {arguments others : List Term}
    (harguments : ∀ a ∈ arguments, a.IsSeparate) (hothers : GroupedAll others)
    {x y : List Lexeme} (h : separated (lexemesOf arguments) ++ .closing :: x =
      separated (lexemesOf others) ++ .closing :: y) : arguments = others ∧ x = y := by
  cases arguments with
  | nil =>
    cases others with
    | nil => exact ⟨rfl, (List.cons.inj h).2⟩
    | cons b others =>
      rw [lexemesOf, lexemesOf, separated, separated, List.append_assoc] at h
      exact (lexemes_append_ne_closing b _ x h.symm).elim
  | cons a arguments =>
    cases others with
    | nil =>
      rw [lexemesOf, lexemesOf, separated, separated, List.append_assoc] at h
      exact (lexemes_append_ne_closing a _ y h).elim
    | cons b others =>
      -- both begin with a term, so that commas may stand in front of these as well
      refine eq_of_commas_append harguments hothers ?_
      simp only [lexemesOf, List.flatMap_cons, List.cons_append, List.append_assoc]
      simp only [lexemesOf, separated, List.append_assoc] at h
      rw [h]

/-! ### One operand after the other -/

theorem not_isPrimary_binary {op : BinaryOperator} {left right : Term} :
    ¬(binary op left right).IsPrimary :=
  fun h => absurd h.1 (Nat.ne_of_lt op.precedence_lt)

theorem isOperand_word (text : String) : (word text).IsOperand := by
  intro q x y hq hx hy h
  cases q with
  | word other => simpa [lexemes] using h
  -- what makes the word an array or a function does not follow an operand
  | element array index =>
    obtain ⟨-, rfl⟩ : text = array ∧ _ := by simpa [lexemes] using h
    exact (follows_cons.mp hx).elim
  | call function arguments =>
    obtain ⟨-, rfl⟩ : text = function ∧ _ := by simpa [lexemes] using h
    exact (follows_cons.mp hx).elim
  | binary op left right => exact (not_isPrimary_binary hq).elim
  | _ => simp [lexemes] at h

/-- Whether a term is a literal, with or without a minus sign. -/
def IsLiteral : Term → Prop
  | numeral _ | quoted _ | negative _ => True
  | _ => False

/-- The first lexemes of a literal tell that it has no others. -/
theorem isOperand_literal {p : Term} (hp : p.IsLiteral) : p.IsOperand := by
  intro q x y hq hx hy h
  cases q with
  | binary op left right => exact (not_isPrimary_binary hq).elim
  | _ => cases p <;> simp_all [lexemes, IsLiteral]

theorem isOperand_element {array : String} {index : Term} (hindex : index.IsSeparate) :
    (element array index).IsOperand := by
  intro q x y hq hx hy h
  cases q with
  | element array' index' =>
    obtain ⟨rfl, hinside⟩ : array = array' ∧ index.lexemes ++ .closingBracket :: x =
      index'.lexemes ++ .closingBracket :: y := by simpa [lexemes] using h
    have hgrouped : index'.Grouped := hq.2
    obtain ⟨rfl, htail⟩ := hindex hgrouped (stops_closingBracket _) (stops_closingBracket _) hinside
    exact ⟨rfl, (List.cons.inj htail).2⟩
  | word text =>
    obtain ⟨-, rfl⟩ : array = text ∧ _ := by simpa [lexemes] using h
    exact (follows_cons.mp hy).elim
  | binary op left right => exact (not_isPrimary_binary hq).elim
  | _ => simp [lexemes] at h

theorem isOperand_call {function : String} {arguments : List Term}
    (harguments : ∀ a ∈ arguments, a.IsSeparate) : (call function arguments).IsOperand := by
  intro q x y hq hx hy h
  cases q with
  | call function' arguments' =>
    obtain ⟨rfl, hinside⟩ : function = function' ∧
      separated (lexemesOf arguments) ++ .closing :: x =
        separated (lexemesOf arguments') ++ .closing :: y := by simpa [lexemes] using h
    obtain ⟨rfl, hxy⟩ := eq_of_separated_append harguments hq.2 hinside
    exact ⟨rfl, hxy⟩
  | word text =>
    obtain ⟨-, rfl⟩ : function = text ∧ _ := by simpa [lexemes] using h
    exact (follows_cons.mp hy).elim
  | binary op left right => exact (not_isPrimary_binary hq).elim
  | _ => simp [lexemes] at h

/-- A word in parentheses is not followed by another word, as a cast is. -/
theorem lexemes_append_ne_cast {inner : Term} (hinner : inner.Grouped) {type function : String}
    {x y : List Lexeme} (hx : Follows x) :
    inner.lexemes ++ .closing :: x ≠ .word type :: .closing :: .word function :: y := by
  intro h
  have hword : (word type).IsSeparate :=
    isSeparate_of_operands (a := word type) trivial ⟨isOperand_word type, by simp [rest]⟩
  obtain ⟨-, htail⟩ := hword hinner (stops_closing _) (stops_closing _) h.symm
  rw [← (List.cons.inj htail).2] at hx
  exact (follows_cons.mp hx).elim

theorem isOperand_cast {function : String} {arguments : List Term}
    (harguments : ∀ a ∈ arguments, a.IsSeparate) : (cast function arguments).IsOperand := by
  intro q x y hq hx hy h
  cases q with
  | cast function' arguments' =>
    obtain ⟨rfl, hinside⟩ : function = function' ∧
      separated (lexemesOf arguments) ++ .closing :: x =
        separated (lexemesOf arguments') ++ .closing :: y := by simpa [lexemes] using h
    obtain ⟨rfl, hxy⟩ := eq_of_separated_append harguments hq.2 hinside
    exact ⟨rfl, hxy⟩
  | parentheses inner =>
    have hinside : inner.lexemes ++ .closing :: y = .word "int" :: .closing :: .word function ::
        .opening :: (separated (lexemesOf arguments) ++ .closing :: x) := by
      simpa [lexemes] using h.symm
    have hgrouped : inner.Grouped := hq.2
    exact (lexemes_append_ne_cast hgrouped hy hinside).elim
  | binary op left right => exact (not_isPrimary_binary hq).elim
  | _ => simp [lexemes] at h

theorem isOperand_parentheses {inner : Term} (hgrouped : inner.Grouped)
    (hinner : inner.IsSeparate) : (parentheses inner).IsOperand := by
  intro q x y hq hx hy h
  cases q with
  | parentheses inner' =>
    have hinside : inner.lexemes ++ .closing :: x = inner'.lexemes ++ .closing :: y := by
      simpa [lexemes] using h
    have hgrouped' : inner'.Grouped := hq.2
    obtain ⟨rfl, htail⟩ := hinner hgrouped' (stops_closing _) (stops_closing _) hinside
    exact ⟨rfl, (List.cons.inj htail).2⟩
  | cast function arguments =>
    have hinside : inner.lexemes ++ .closing :: x = .word "int" :: .closing :: .word function ::
        .opening :: (separated (lexemesOf arguments) ++ .closing :: y) := by
      simpa [lexemes] using h
    exact (lexemes_append_ne_cast hgrouped hx hinside).elim
  | binary op left right => exact (not_isPrimary_binary hq).elim
  | _ => simp [lexemes] at h

/-! ### Whole terms -/

mutual

theorem isOperand_operands : ∀ {a : Term}, a.Grouped →
    a.first.IsOperand ∧ ∀ operand ∈ a.rest, operand.2.IsOperand
  | word text, _ => ⟨isOperand_word text, by simp [rest]⟩
  | numeral _, _ | quoted _, _ | negative _, _ => ⟨isOperand_literal trivial, by simp [rest]⟩
  | element array index, h =>
    have hindex : index.IsSeparate := isSeparate_of_operands h (isOperand_operands h)
    ⟨isOperand_element hindex, by simp [rest]⟩
  | call function arguments, h => ⟨isOperand_call (isSeparate_arguments h), by simp [rest]⟩
  | cast function arguments, h => ⟨isOperand_cast (isSeparate_arguments h), by simp [rest]⟩
  | parentheses inner, h =>
    have hinner : inner.IsSeparate := isSeparate_of_operands h (isOperand_operands h)
    ⟨isOperand_parentheses h hinner, by simp [rest]⟩
  | binary op left right, ⟨_, _, hleft, hright⟩ => by
    obtain ⟨hfirst, hleftRest⟩ := isOperand_operands hleft
    obtain ⟨hnext, hrightRest⟩ := isOperand_operands hright
    refine ⟨hfirst, fun operand hmem => ?_⟩
    rcases List.mem_append.mp hmem with hmem | hmem
    · exact hleftRest operand hmem
    rcases List.mem_cons.mp hmem with rfl | hmem
    · exact hnext
    · exact hrightRest operand hmem

theorem isSeparate_arguments : ∀ {arguments : List Term}, GroupedAll arguments →
    ∀ a ∈ arguments, a.IsSeparate
  | [], _ => by simp
  | a :: others, ⟨ha, hothers⟩ =>
    List.forall_mem_cons.mpr
      ⟨isSeparate_of_operands ha (isOperand_operands ha), isSeparate_arguments hothers⟩

end

/-- Terms that keep to the precedences differ in their lexemes. -/
theorem eq_of_lexemes_eq {a b : Term} (ha : a.Grouped) (hb : b.Grouped)
    (h : a.lexemes = b.lexemes) : a = b := by
  have hseparate := isSeparate_of_operands ha (isOperand_operands ha)
  exact (hseparate hb stops_nil stops_nil (by rw [h])).1

end Term

/-- The grammar derives from the lexemes of a term that keeps to the precedences no other term. -/
theorem derives_lexemes_iff {a b : Term} (ha : a.Grouped) : Derives 1 a.lexemes b ↔ b = a := by
  rw [derives_iff]
  constructor
  · rintro ⟨-, hb, hlexemes⟩
    exact Term.eq_of_lexemes_eq hb ha hlexemes.symm
  · rintro rfl
    exact ⟨b.one_le_level, ha, rfl⟩

end BlockScript.Java
