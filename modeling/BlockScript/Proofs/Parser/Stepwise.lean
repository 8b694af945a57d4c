import BlockScript.Proofs.Parser.Reading
/-!
# Parsers that go step by step

All parsers are put together from a few steps: to look at the kind and the text of the current
token, to go on to the next token, and to give up. What every such step keeps, every parser keeps.

## Main definitions

* `Parser.Stepwise` — parsers that are put together from these steps

## Main results

* `stepwise_program` — the parser of programs goes step by step
-/

namespace BlockScript.Parser

/-- Parsers that are put together from steps. -/
inductive Stepwise : {α : Type} → Parser α → Prop
  | pure {α : Type} (a : α) : Stepwise (Pure.pure a : Parser α)
  | miss {α : Type} (expected : Expectation) : Stepwise (Parser.miss expected : Parser α)
  | advance : Stepwise Parser.advance
  /-- What follows depends on the current token, but not on the token's index. -/
  | look {α : Type} {next : Option Token → Parser α} :
      (∀ token index, next (some { token with index }) = next (some token)) →
      (∀ seen, Stepwise (next seen)) → Stepwise (peek >>= next)
  | bind {α β : Type} {parser : Parser α} {next : α → Parser β} :
      Stepwise parser → (∀ a, Stepwise (next a)) → Stepwise (parser >>= next)

namespace Stepwise

variable {α : Type}

theorem sees (texts : List String) : Stepwise (Parser.sees texts) :=
  look (fun _ _ => rfl) fun _ => .pure _

theorem accept (text : String) : Stepwise (Parser.accept text) := by
  refine (sees [text]).bind fun seen => ?_
  split
  · exact advance.bind fun _ => .pure _
  · exact .pure _

theorem expect (text : String) (expected : Expectation) :
    Stepwise (Parser.expect text expected) := by
  refine (accept text).bind fun found => ?_
  cases found
  · exact .miss expected
  · exact .pure _

/-- What a parser returns does not matter for the tokens that it takes. -/
theorem discard {parser : Parser α} (h : Stepwise parser) :
    Stepwise (Functor.discard parser) := by
  rw [Functor.discard, LawfulFunctor.map_const, Function.comp_apply, map_eq_pure_bind]
  exact h.bind fun _ => .pure _

theorem name (expected : Expectation) : Stepwise (Parser.name expected) := by
  refine look (fun _ _ => rfl) fun seen => ?_
  cases seen with
  | none => exact .miss expected
  | some token =>
    simp only
    split
    · exact advance.bind fun _ => .pure _
    · exact .miss expected

theorem typeSuffix : Stepwise Parser.typeSuffix := by
  refine (accept ":").bind fun found => ?_
  split
  · exact (name .typeName).bind fun _ => .pure _
  · exact .pure _

theorem operatorOf (tier : Tier) : Stepwise (Parser.operatorOf tier) := by
  refine look (fun _ _ => rfl) fun seen => ?_
  cases seen with
  | none => exact .pure _
  | some token =>
    simp only
    split
    · exact advance.bind fun _ => .pure _
    · exact .pure _

end Stepwise

/-! ### Expressions -/

mutual

theorem stepwise_tier : ∀ (fuel : Nat) (t : Tier), Stepwise (tier fuel t)
  | 0, _ => .miss _
  | fuel + 1, t => by
    rw [tier]
    exact (stepwise_operand fuel t).bind fun first => stepwise_tierRest fuel t first

theorem stepwise_operand : ∀ (fuel : Nat) (t : Tier), Stepwise (operand fuel t)
  | 0, _ => .miss _
  | fuel + 1, t => by
    rw [operand]
    split
    · exact stepwise_tier fuel _
    · exact stepwise_primary fuel

theorem stepwise_tierRest : ∀ (fuel : Nat) (t : Tier) (left : Node),
    Stepwise (tierRest fuel t left)
  | 0, _, _ => .miss _
  | fuel + 1, t, left => by
    rw [tierRest]
    refine (Stepwise.operatorOf t).bind fun found => ?_
    cases found with
    | none => exact .pure _
    | some symbol =>
      exact (stepwise_operand fuel t).bind fun right => stepwise_tierRest fuel t _

theorem stepwise_primary : ∀ fuel : Nat, Stepwise (primary fuel)
  | 0 => .miss _
  | fuel + 1 => by
    rw [primary]
    refine Stepwise.look (fun _ _ => rfl) fun seen => ?_
    cases seen with
    | none => exact .miss _
    | some token =>
      simp only
      split
      · exact Stepwise.advance.bind fun _ => .pure _
      · split
        · refine Stepwise.advance.bind fun _ => ?_
          refine (stepwise_tier fuel .logical).bind fun inner => ?_
          exact (Stepwise.expect _ _).bind fun _ => .pure _
        · split
          · refine Stepwise.advance.bind fun _ => ?_
            refine (Stepwise.accept "(").bind fun isCall => ?_
            split
            · exact (stepwise_arguments fuel).bind fun arguments => .pure _
            · refine (Stepwise.accept "[").bind fun isElement => ?_
              split
              · refine (stepwise_tier fuel .logical).bind fun offset => ?_
                exact (Stepwise.expect _ _).bind fun _ => .pure _
              · exact .pure _
          · exact .miss _

theorem stepwise_arguments : ∀ fuel : Nat, Stepwise (arguments fuel)
  | 0 => .miss _
  | fuel + 1 => by
    rw [arguments]
    refine (Stepwise.accept ")").bind fun closed => ?_
    split
    · exact .pure _
    · refine (stepwise_expressions fuel).bind fun values => ?_
      exact (Stepwise.expect _ _).bind fun _ => .pure _

theorem stepwise_expressions : ∀ fuel : Nat, Stepwise (expressions fuel)
  | 0 => .miss _
  | fuel + 1 => by
    rw [expressions]
    refine (stepwise_tier fuel .logical).bind fun first => ?_
    refine (Stepwise.accept ",").bind fun more => ?_
    split
    · exact (stepwise_expressions fuel).bind fun rest => .pure _
    · exact .pure _

end

theorem stepwise_expression (fuel : Nat) : Stepwise (expression fuel) :=
  stepwise_tier fuel .logical

theorem stepwise_initializer (fuel : Nat) : Stepwise (initializer fuel) := by
  refine (Stepwise.accept "=").bind fun present => ?_
  split
  · exact stepwise_expression fuel
  · exact .pure _

/-! ### Statements -/

theorem stepwise_declaration (fuel : Nat) : Stepwise (declaration fuel) := by
  refine (Stepwise.name _).bind fun name => ?_
  refine Stepwise.typeSuffix.bind fun type => ?_
  refine (stepwise_initializer fuel).bind fun value => ?_
  exact (Stepwise.expect _ _).bind fun _ => .pure _

theorem stepwise_returned (fuel : Nat) : Stepwise (returned fuel) := by
  refine (stepwise_expression fuel).bind fun value => ?_
  exact (Stepwise.expect _ _).bind fun _ => .pure _

theorem stepwise_expressionStatement (fuel : Nat) :
    Stepwise (expressionStatement fuel) := by
  refine (stepwise_expression fuel).bind fun receiver => ?_
  refine (Stepwise.accept "=").bind fun assigns => ?_
  split
  · refine (stepwise_expression fuel).bind fun value => ?_
    exact (Stepwise.expect _ _).bind fun _ => .pure _
  · exact (Stepwise.expect _ _).bind fun _ => .pure _

mutual

theorem stepwise_statement : ∀ fuel : Nat, Stepwise (statement fuel)
  | 0 => .miss _
  | fuel + 1 => by
    rw [statement]
    refine (Stepwise.accept "LET").bind fun found => ?_
    split
    · exact stepwise_declaration fuel
    refine (Stepwise.accept "SWITCH").bind fun found => ?_
    split
    · exact stepwise_switch fuel
    refine (Stepwise.accept "IF").bind fun found => ?_
    split
    · exact stepwise_branch fuel
    refine (Stepwise.accept "WHILE").bind fun found => ?_
    split
    · exact stepwise_loop fuel
    refine (Stepwise.accept "RETURN").bind fun found => ?_
    split
    · exact stepwise_returned fuel
    exact stepwise_expressionStatement fuel

theorem stepwise_block : ∀ fuel : Nat, Stepwise (block fuel)
  | 0 => .miss _
  | fuel + 1 => by
    rw [block]
    refine Stepwise.look (fun _ _ => rfl) fun seen => ?_
    refine (Stepwise.sees blockEnds).bind fun ends => ?_
    split
    · exact .pure _
    · refine (stepwise_statement fuel).bind fun first => ?_
      exact (stepwise_block fuel).bind fun rest => .pure _

theorem stepwise_branch : ∀ fuel : Nat, Stepwise (branch fuel)
  | 0 => .miss _
  | fuel + 1 => by
    rw [branch]
    refine (stepwise_expression fuel).bind fun condition => ?_
    refine (Stepwise.expect _ _).bind fun _ => ?_
    refine (stepwise_block fuel).bind fun thenBody => ?_
    refine (Stepwise.accept "ELSE").bind fun hasElse => ?_
    have hend : ∀ elseBody, Stepwise (do
        expect "END" .ifEnd
        return Node.branch condition thenBody elseBody) :=
      fun _ => (Stepwise.expect _ _).bind fun _ => .pure _
    split
    · exact (stepwise_block fuel).bind hend
    · exact (Stepwise.pure []).bind hend

theorem stepwise_switch : ∀ fuel : Nat, Stepwise (switch fuel)
  | 0 => .miss _
  | fuel + 1 => by
    rw [switch]
    refine (stepwise_expression fuel).bind fun condition => ?_
    refine (stepwise_cases fuel).bind fun cases => ?_
    refine (Stepwise.expect _ _).bind fun _ => ?_
    refine (Stepwise.accept ":").discard.bind fun _ => ?_
    refine (stepwise_block fuel).bind fun body => ?_
    exact (Stepwise.expect _ _).bind fun _ => .pure _

theorem stepwise_cases : ∀ fuel : Nat, Stepwise (cases fuel)
  | 0 => .miss _
  | fuel + 1 => by
    rw [cases]
    refine (Stepwise.accept "CASE").bind fun found => ?_
    split
    · refine (stepwise_expression fuel).bind fun value => ?_
      refine (Stepwise.expect _ _).bind fun _ => ?_
      refine (stepwise_block fuel).bind fun body => ?_
      exact (stepwise_cases fuel).bind fun rest => .pure _
    · exact .pure _

theorem stepwise_loop : ∀ fuel : Nat, Stepwise (loop fuel)
  | 0 => .miss _
  | fuel + 1 => by
    rw [loop]
    refine (stepwise_expression fuel).bind fun condition => ?_
    refine (Stepwise.expect _ _).bind fun _ => ?_
    refine (stepwise_block fuel).bind fun body => ?_
    exact (Stepwise.expect _ _).bind fun _ => .pure _

end

/-! ### Programs -/

theorem stepwise_listGlobal (fuel : Nat) : Stepwise (listGlobal fuel) := by
  refine (Stepwise.name _).bind fun name => ?_
  refine Stepwise.typeSuffix.bind fun type => ?_
  refine (Stepwise.expect _ _).bind fun _ => ?_
  refine (Stepwise.expect _ _).bind fun _ => ?_
  refine (stepwise_expressions fuel).bind fun values => ?_
  refine (Stepwise.expect _ _).bind fun _ => ?_
  exact (Stepwise.expect _ _).bind fun _ => .pure _

theorem stepwise_mutableGlobal (fuel : Nat) : Stepwise (mutableGlobal fuel) := by
  refine (Stepwise.name _).bind fun name => ?_
  refine Stepwise.typeSuffix.bind fun type => ?_
  refine (stepwise_initializer fuel).bind fun value => ?_
  exact (Stepwise.expect _ _).bind fun _ => .pure _

theorem stepwise_constantGlobal (fuel : Nat) : Stepwise (constantGlobal fuel) := by
  refine (Stepwise.name _).bind fun name => ?_
  refine Stepwise.typeSuffix.bind fun type => ?_
  refine (Stepwise.expect _ _).bind fun _ => ?_
  refine (stepwise_expression fuel).bind fun value => ?_
  exact (Stepwise.expect _ _).bind fun _ => .pure _

theorem stepwise_globals : ∀ fuel : Nat, Stepwise (globals fuel)
  | 0 => .miss _
  | fuel + 1 => by
    have hrest : ∀ node, Stepwise (do return node :: (← globals fuel)) :=
      fun _ => (stepwise_globals fuel).bind fun _ => .pure _
    rw [globals]
    refine (Stepwise.accept "LIST").bind fun found => ?_
    split
    · exact (stepwise_listGlobal fuel).bind hrest
    refine (Stepwise.accept "VAR").bind fun found => ?_
    split
    · exact (stepwise_mutableGlobal fuel).bind hrest
    refine (Stepwise.accept "VAL").bind fun found => ?_
    split
    · exact (stepwise_constantGlobal fuel).bind hrest
    exact .pure _

theorem stepwise_parameters : ∀ fuel : Nat, Stepwise (parameters fuel)
  | 0 => .miss _
  | fuel + 1 => by
    rw [parameters]
    refine (Stepwise.name _).bind fun name => ?_
    refine Stepwise.typeSuffix.bind fun type => ?_
    refine (Stepwise.accept ",").bind fun more => ?_
    split
    · exact (stepwise_parameters fuel).bind fun rest => .pure _
    · exact .pure _

theorem stepwise_function (fuel : Nat) : Stepwise (function fuel) := by
  refine (Stepwise.name _).bind fun name => ?_
  refine (Stepwise.expect _ _).bind fun _ => ?_
  refine (Stepwise.sees _).bind fun empty => ?_
  have hrest : ∀ params : List (String × Option String), Stepwise (do
      expect ")" .parametersEnd
      let resultType ← typeSuffix
      expect "DO" .doKeyword
      let body ← block fuel
      expect "END" .functionEnd
      return Node.function name (params.map Prod.fst) (params.map Prod.snd) resultType body
        none) := by
    intro params
    refine (Stepwise.expect _ _).bind fun _ => ?_
    refine Stepwise.typeSuffix.bind fun type => ?_
    refine (Stepwise.expect _ _).bind fun _ => ?_
    refine (stepwise_block fuel).bind fun body => ?_
    exact (Stepwise.expect _ _).bind fun _ => .pure _
  split
  · exact (Stepwise.pure []).bind hrest
  · exact (stepwise_parameters fuel).bind hrest

theorem stepwise_functions : ∀ fuel : Nat, Stepwise (functions fuel)
  | 0 => .miss _
  | fuel + 1 => by
    rw [functions]
    refine (Stepwise.accept "FUN").bind fun found => ?_
    split
    · refine (stepwise_function fuel).bind fun node => ?_
      exact (stepwise_functions fuel).bind fun rest => .pure _
    · exact .pure _

/-- The parser of programs goes step by step. -/
theorem stepwise_program (fuel : Nat) : Stepwise (program fuel) := by
  refine (stepwise_globals fuel).bind fun globals => ?_
  refine (stepwise_functions fuel).bind fun functions => ?_
  refine Stepwise.look (fun _ _ => rfl) fun seen => ?_
  cases seen with
  | none => exact .pure _
  | some token =>
    simp only
    split
    · exact .miss _
    · exact .miss _

end BlockScript.Parser
