import BlockScript.Proofs.Java.Unambiguous
/-!
# Grouping by precedence

The lexemes of any term can be read, also those of a term that does not keep to the precedences:
they are those of another term that does. Such a term arises when parentheses are left out that were
needed. That they were needed shows in the tree: a term that is grouped in another way than it is
read differs from what is read in more than parentheses.

## Main definitions

* `Java.Term.regroup` — the term that is read from the lexemes of a term
* `Java.Term.weight` — the number of operands, those in parentheses included

## Main results

* `Java.isReadAs_regroup` — what is read from the lexemes of a term
* `Java.Term.regroup_eq_of_bare_eq` — what differs differs in more than parentheses
-/

namespace BlockScript.Java

namespace Term

/-- A term with an operator and an operand behind it. The operator takes as its left operand what
stands to the right of all looser operators. -/
def attach : Term → BinaryOperator → Term → Term
  | binary op' left right, op, operand =>
    if op'.precedence < op.precedence then binary op' left (attach right op operand)
    else binary op (binary op' left right) operand
  | a, op, operand => binary op a operand

/-- A term with an operator and another term behind it, operand by operand. -/
def join (a : Term) (op : BinaryOperator) : Term → Term
  | binary op' left right => (join a op left).attach op' right
  | b => a.attach op b

mutual

/-- The term that is read from the lexemes of a term. -/
def regroup : Term → Term
  | word text => word text
  | numeral text => numeral text
  | quoted text => quoted text
  | negative text => negative text
  | element array index => element array index.regroup
  | call function arguments => call function (regroupAll arguments)
  | cast function arguments => cast function (regroupAll arguments)
  | binary op left right => left.regroup.join op right.regroup
  | parentheses inner => parentheses inner.regroup

/-- The terms that are read from the lexemes of several terms. -/
def regroupAll : List Term → List Term
  | [] => []
  | a :: others => a.regroup :: regroupAll others

end

/-! ### Regrouping keeps the lexemes -/

theorem lexemes_attach (op : BinaryOperator) (operand : Term) : ∀ a : Term,
    (a.attach op operand).lexemes = a.lexemes ++ .operator op.val.text :: operand.lexemes
  | binary op' left right => by
    rw [attach]
    split
    · simp only [lexemes, lexemes_attach op operand right, List.append_assoc, List.cons_append]
    · simp only [lexemes]
  | word _ | numeral _ | quoted _ | negative _ | element _ _ | call _ _ | cast _ _
  | parentheses _ => rfl

theorem lexemes_join (a : Term) (op : BinaryOperator) : ∀ b : Term,
    (a.join op b).lexemes = a.lexemes ++ .operator op.val.text :: b.lexemes
  | binary op' left right => by
    simp only [join, lexemes_attach, lexemes_join a op left, lexemes, List.append_assoc,
      List.cons_append]
  | word _ | numeral _ | quoted _ | negative _ | element _ _ | call _ _ | cast _ _
  | parentheses _ => lexemes_attach op _ a

mutual

theorem lexemes_regroup : ∀ a : Term, a.regroup.lexemes = a.lexemes
  | binary op left right => by
    rw [regroup, lexemes_join, lexemes_regroup left, lexemes_regroup right, lexemes]
  | element array index => by rw [regroup, lexemes, lexemes_regroup index, lexemes]
  | call function arguments => by rw [regroup, lexemes, lexemesOf_regroupAll arguments, lexemes]
  | cast function arguments => by rw [regroup, lexemes, lexemesOf_regroupAll arguments, lexemes]
  | parentheses inner => by rw [regroup, lexemes, lexemes_regroup inner, lexemes]
  | word _ | numeral _ | quoted _ | negative _ => rfl

theorem lexemesOf_regroupAll : ∀ arguments : List Term,
    lexemesOf (regroupAll arguments) = lexemesOf arguments
  | [] => rfl
  | a :: others => by
    rw [regroupAll, lexemesOf, lexemes_regroup a, lexemesOf_regroupAll others, lexemesOf]

end

/-! ### Regrouped terms keep to the precedences -/

theorem grouped_attach {op : BinaryOperator} {operand : Term}
    (hlevel : op.precedence < operand.level) (hoperand : operand.Grouped) : ∀ {a : Term},
    a.Grouped → (a.attach op operand).Grouped ∧
      (a.attach op operand).level = min a.level op.precedence
  | binary op' left right, h => by
    rw [attach]
    split
    next hlt =>
      obtain ⟨hleftLevel, hrightLevel, hleft, hright⟩ := h
      obtain ⟨hattached, hattachedLevel⟩ := grouped_attach hlevel hoperand hright
      refine ⟨⟨hleftLevel, ?_, hleft, hattached⟩, ?_⟩
      · rw [hattachedLevel]
        exact Nat.lt_min.mpr ⟨hrightLevel, hlt⟩
      · exact (Nat.min_eq_left (Nat.le_of_lt hlt)).symm
    next hle =>
      have hle := Nat.not_lt.mp hle
      exact ⟨⟨hle, hlevel, h, hoperand⟩, (Nat.min_eq_right hle).symm⟩
  | word _, h | numeral _, h | quoted _, h | negative _, h | element _ _, h | call _ _, h
  | cast _ _, h | parentheses _, h =>
    have hle := Nat.le_of_lt op.precedence_lt
    ⟨⟨hle, hlevel, h, hoperand⟩, (Nat.min_eq_right hle).symm⟩

theorem grouped_join {a : Term} {op : BinaryOperator} (ha : a.Grouped) : ∀ {b : Term},
    b.Grouped → (a.join op b).Grouped
  | binary _ _ _, ⟨_, hright, hleftGrouped, hrightGrouped⟩ =>
    (grouped_attach hright hrightGrouped (grouped_join ha hleftGrouped)).1
  | word _, h | numeral _, h | quoted _, h | negative _, h | element _ _, h | call _ _, h
  | cast _ _, h | parentheses _, h => (grouped_attach op.precedence_lt h ha).1

mutual

theorem grouped_regroup : ∀ a : Term, a.regroup.Grouped
  | binary _ left right => grouped_join (grouped_regroup left) (grouped_regroup right)
  | element _ index => grouped_regroup index
  | call _ arguments => groupedAll_regroupAll arguments
  | cast _ arguments => groupedAll_regroupAll arguments
  | parentheses inner => grouped_regroup inner
  | word _ | numeral _ | quoted _ | negative _ => trivial

theorem groupedAll_regroupAll : ∀ arguments : List Term, GroupedAll (regroupAll arguments)
  | [] => trivial
  | a :: others => ⟨grouped_regroup a, groupedAll_regroupAll others⟩

end

/-! ### Another grouping is another tree -/

/-- The number of operands of a term, those in parentheses included. -/
def weight : Term → Nat
  | binary _ left right => left.weight + right.weight
  | parentheses inner => inner.weight
  | _ => 1

theorem weight_pos : ∀ a : Term, 0 < a.weight
  | binary _ left right => Nat.add_pos_left (weight_pos left) right.weight
  | parentheses inner => weight_pos inner
  | word _ | numeral _ | quoted _ | negative _ | element _ _ | call _ _ | cast _ _ =>
    Nat.one_pos

theorem weight_bare : ∀ a : Term, a.bare.weight = a.weight
  | binary _ left right => by rw [bare, weight, weight_bare left, weight_bare right, weight]
  | parentheses inner => by rw [bare, weight_bare inner, weight]
  | word _ | numeral _ | quoted _ | negative _ | element _ _ | call _ _ | cast _ _ => rfl

theorem weight_attach (op : BinaryOperator) (operand : Term) : ∀ a : Term,
    (a.attach op operand).weight = a.weight + operand.weight
  | binary op' left right => by
    rw [attach]
    split
    · simp only [weight, weight_attach op operand right, Nat.add_assoc]
    · simp only [weight]
  | word _ | numeral _ | quoted _ | negative _ | element _ _ | call _ _ | cast _ _
  | parentheses _ => rfl

theorem weight_join (a : Term) (op : BinaryOperator) : ∀ b : Term,
    (a.join op b).weight = a.weight + b.weight
  | binary op' left right => by
    simp only [join, weight_attach, weight_join a op left, weight, Nat.add_assoc]
  | word _ | numeral _ | quoted _ | negative _ | element _ _ | call _ _ | cast _ _
  | parentheses _ => weight_attach op _ a

theorem weight_regroup : ∀ a : Term, a.regroup.weight = a.weight
  | binary op left right => by
    rw [regroup, weight_join, weight_regroup left, weight_regroup right, weight]
  | parentheses inner => by rw [regroup, weight, weight_regroup inner, weight]
  | word _ | numeral _ | quoted _ | negative _ | element _ _ | call _ _ | cast _ _ => rfl

/-- An operator that is not put at the root goes to the right of the operator there. -/
theorem attach_cases (a : Term) (op : BinaryOperator) (operand : Term) :
    a.attach op operand = binary op a operand ∨
      ∃ op' left right, a = binary op' left right ∧
        a.attach op operand = binary op' left (right.attach op operand) := by
  cases a with
  | binary op' left right =>
    by_cases h : op'.precedence < op.precedence
    · exact .inr ⟨op', left, right, rfl, by rw [attach, if_pos h]⟩
    · exact .inl (by rw [attach, if_neg h])
  | _ => exact .inl rfl

theorem attach_of_le {op : BinaryOperator} {a : Term} (h : op.precedence ≤ a.level)
    (operand : Term) : a.attach op operand = binary op a operand := by
  cases a with
  | binary op' left right =>
    have hle : ¬op'.precedence < op.precedence := Nat.not_lt.mpr h
    rw [attach, if_neg hle]
  | _ => rfl

/-- Whether a term has another number of operands to the left of its root than there are in `a`. -/
def IsDivided (a b : Term) : Prop :=
  ∃ op left right, b = binary op left right ∧ left.weight ≠ a.weight

theorem attach_divided (a : Term) (op : BinaryOperator) (operand : Term) :
    a.attach op operand = binary op a operand ∨ a.IsDivided (a.attach op operand) := by
  obtain hroot | ⟨op', left, right, rfl, hroot⟩ := attach_cases a op operand
  · exact .inl hroot
  · refine .inr ⟨op', left, _, hroot, ?_⟩
    have := right.weight_pos
    rw [weight]
    omega

/-- Two terms that are joined keep their grouping, or they are divided elsewhere. -/
theorem join_divided (a : Term) (op : BinaryOperator) : ∀ {b : Term}, b.Grouped →
    a.join op b = binary op a b ∨ a.IsDivided (a.join op b)
  | binary op' left right, ⟨hlevel, _, hleft, _⟩ => by
    rw [join]
    obtain hroot | ⟨_, _, _, hjoin, hroot⟩ := attach_cases (a.join op left) op' right
    · refine .inr ⟨op', _, right, hroot, ?_⟩
      have := left.weight_pos
      rw [weight_join]
      omega
    · obtain hkept | ⟨_, _, _, hother, hweight⟩ := join_divided a op hleft
      · -- the root is still the operator in question, and its right operand is grouped already
        rw [hkept] at hjoin
        cases hjoin
        rw [hroot, attach_of_le hlevel right]
        exact .inl rfl
      · rw [hother] at hjoin
        cases hjoin
        exact .inr ⟨_, _, _, hroot, hweight⟩
  | word _, _ | numeral _, _ | quoted _, _ | negative _, _ | element _ _, _ | call _ _, _
  | cast _ _, _ | parentheses _, _ => attach_divided a op _

mutual

/-- A term that is the same tree as what is read from its lexemes is what is read. -/
theorem regroup_eq_of_bare_eq : ∀ {a : Term}, a.regroup.bare = a.bare → a.regroup = a
  | binary op left right, h => by
    rw [regroup] at h ⊢
    obtain hkept | ⟨_, _, _, hother, hweight⟩ :=
      join_divided left.regroup op (grouped_regroup right)
    · rw [hkept, bare, bare] at h
      obtain ⟨-, hleft, hright⟩ := binary.inj h
      rw [hkept, regroup_eq_of_bare_eq hleft, regroup_eq_of_bare_eq hright]
    · rw [hother, bare, bare] at h
      obtain ⟨-, hleft, -⟩ := binary.inj h
      have heq := congrArg weight hleft
      rw [weight_bare, weight_bare, ← weight_regroup left] at heq
      exact absurd heq hweight
  | element array index, h => by rw [regroup, regroup_eq_of_bare_eq (element.inj h).2]
  | call function arguments, h => by rw [regroup, regroupAll_eq_of_bareAll_eq (call.inj h).2]
  | cast function arguments, h => by rw [regroup, regroupAll_eq_of_bareAll_eq (cast.inj h).2]
  | parentheses inner, h => by rw [regroup, regroup_eq_of_bare_eq (a := inner) h]
  | word _, _ | numeral _, _ | quoted _, _ | negative _, _ => rfl

theorem regroupAll_eq_of_bareAll_eq : ∀ {arguments : List Term},
    bareAll (regroupAll arguments) = bareAll arguments → regroupAll arguments = arguments
  | [], _ => rfl
  | a :: others, h => by
    obtain ⟨ha, hothers⟩ := List.cons.inj h
    rw [regroupAll, regroup_eq_of_bare_eq ha, regroupAll_eq_of_bareAll_eq hothers]

end

end Term

/-- From the lexemes of a term its regrouping is read, and nothing else. -/
theorem isReadAs_regroup (a : Term) : IsReadAs a.lexemes a.regroup.bare := by
  refine ⟨a.regroup, fun other => ?_, rfl⟩
  rw [← Term.lexemes_regroup a]
  exact derives_lexemes_iff (Term.grouped_regroup a)

/-- From the lexemes of a term that keeps to the precedences the term is read. -/
theorem isReadAs_bare {a : Term} (h : a.Grouped) : IsReadAs a.lexemes a.bare :=
  ⟨a, fun _ => derives_lexemes_iff h, rfl⟩

/-- From the lexemes of a term that does not keep to the precedences another tree is read. -/
theorem exists_isReadAs_ne {a : Term} (h : ¬a.Grouped) :
    ∃ tree, tree ≠ a.bare ∧ IsReadAs a.lexemes tree := by
  refine ⟨a.regroup.bare, fun heq => ?_, isReadAs_regroup a⟩
  rw [← Term.regroup_eq_of_bare_eq heq] at h
  exact h (Term.grouped_regroup a)

end BlockScript.Java
