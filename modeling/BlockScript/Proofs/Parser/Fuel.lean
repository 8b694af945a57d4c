import BlockScript.Proofs.Parser.Lookahead
import Mathlib.Order.Basic
/-!
# Fuel

The fuel that a parser gets from `fuelFor` is never used up: with more fuel the parser does the same
with the same tokens. For every parser there is a bound of the fuel that it needs for some number of
tokens, sixteen units for each token and a few units more. A parser that calls another one at the
same place spends one of the few, and a parser that has taken a token has sixteen new ones.

## Main definitions

* `Parser.Consumes` — a parser takes at least one token when it succeeds
* `Parser.AgreeUpTo` — two parsers do the same with no more than some number of tokens

## Main results

* `AgreeUpTo.bind`, `AgreeUpTo.accept` — steps of parsers that agree
* `program_of_fuelFor_le` — more fuel than `fuelFor` gives makes no difference
-/

namespace BlockScript.Parser

open Grammar

variable {α β : Type}

/-- A parser that takes at least one token when it succeeds. -/
def Consumes (parser : Parser α) : Prop :=
  ∀ tokens a rest, parser tokens = .ok (a, rest) → rest.length < tokens.length

namespace Consumes

theorem length_le {parser : Parser α} (hparser : Stepwise parser) {tokens rest : List Token}
    {a : α} (h : parser tokens = .ok (a, rest)) : rest.length ≤ tokens.length := by
  have hsuffix : rest <:+ tokens := by simpa [h, left] using hparser.predictive.suffix tokens
  exact hsuffix.length_le

/-- The second parser takes a token. -/
theorem after {parser : Parser α} {next : α → Parser β} (hparser : Stepwise parser)
    (hnext : ∀ a, Consumes (next a)) : Consumes (parser >>= next) := by
  intro tokens b rest h
  rw [bind_apply] at h
  cases hrun : parser tokens with
  | error missed =>
    rw [hrun] at h
    cases h
  | ok result =>
    rw [hrun] at h
    exact (hnext result.1 _ _ _ h).trans_le (length_le hparser hrun)

/-- A token is taken if it is there, or else the parser takes one. -/
theorem accept {text : String} {yes no : Parser α} (hyes : Stepwise yes) (hno : Consumes no) :
    Consumes (Parser.accept text >>= fun found => if found = true then yes else no) := by
  intro tokens a rest h
  cases tokens with
  | nil => exact hno _ _ _ h
  | cons token others =>
    rw [bind_apply] at h
    by_cases htext : token.text = text
    · rw [accept_of_text_eq others htext] at h
      exact Nat.lt_succ_of_le (length_le hyes h)
    · rw [accept_of_text_ne others htext] at h
      exact hno _ _ _ h

theorem expect {text : String} {expected : Expectation} {next : Unit → Parser α}
    (hnext : ∀ a, Stepwise (next a)) : Consumes (Parser.expect text expected >>= next) := by
  intro tokens a rest h
  rw [Parser.expect, bind_assoc] at h
  cases tokens with
  | nil => cases h
  | cons token others =>
    rw [bind_apply] at h
    by_cases htext : token.text = text
    · rw [accept_of_text_eq others htext] at h
      exact Nat.lt_succ_of_le (length_le (hnext ()) h)
    · rw [accept_of_text_ne others htext] at h
      cases h

end Consumes

/-- Two parsers do the same with all lists of at most `n` tokens. -/
def AgreeUpTo (n : Nat) (first second : Parser α) : Prop :=
  ∀ tokens, tokens.length ≤ n → first tokens = second tokens

namespace AgreeUpTo

variable {n : Nat}

theorem refl (parser : Parser α) : AgreeUpTo n parser parser :=
  fun _ _ => rfl

/-- One parser after another; the second one has no more tokens than the first one. -/
theorem bind {first second : Parser α} {next next' : α → Parser β}
    (h : AgreeUpTo n first second) (hfirst : Stepwise first)
    (hnext : ∀ a, AgreeUpTo n (next a) (next' a)) :
    AgreeUpTo n (first >>= next) (second >>= next') := by
  intro tokens hlength
  rw [bind_apply, bind_apply, ← h tokens hlength]
  cases hrun : first tokens with
  | error missed => rfl
  | ok result =>
    obtain ⟨used, rfl⟩ : result.2 <:+ tokens := by
      simpa [hrun, left] using hfirst.predictive.suffix tokens
    exact hnext result.1 result.2 (by simp at hlength; omega)

/-- The same parser first in both. -/
theorem after {parser : Parser α} {next next' : α → Parser β} (hparser : Stepwise parser)
    (hnext : ∀ a, AgreeUpTo n (next a) (next' a)) :
    AgreeUpTo n (parser >>= next) (parser >>= next') :=
  (refl parser).bind hparser hnext

/-- A look at the current token takes nothing. -/
theorem look {next next' : Option Token → Parser α}
    (hnext : ∀ seen, AgreeUpTo n (next seen) (next' seen)) :
    AgreeUpTo n (peek >>= next) (peek >>= next') :=
  fun tokens => hnext tokens.head? tokens

/-- Behind a token there is one token less. -/
theorem accept {text : String} {next next' : Bool → Parser α}
    (hyes : ∀ m, m + 1 = n → AgreeUpTo m (next true) (next' true))
    (hno : AgreeUpTo n (next false) (next' false)) :
    AgreeUpTo n (Parser.accept text >>= next) (Parser.accept text >>= next') := by
  intro tokens hlength
  rw [bind_apply, bind_apply]
  cases tokens with
  | nil => exact hno _ hlength
  | cons token rest =>
    rw [List.length_cons] at hlength
    obtain ⟨m, rfl⟩ : ∃ m, n = m + 1 := ⟨n - 1, by omega⟩
    by_cases h : token.text = text
    · rw [accept_of_text_eq rest h]
      exact hyes m rfl rest (by omega)
    · rw [accept_of_text_ne rest h]
      exact hno _ hlength

/-- An operator, as any token, leaves one token less. -/
theorem operatorOf {tier : Tier} {next next' : Option String → Parser α}
    (hsome : ∀ m symbol, m + 1 = n → AgreeUpTo m (next (some symbol)) (next' (some symbol)))
    (hnone : AgreeUpTo n (next none) (next' none)) :
    AgreeUpTo n (Parser.operatorOf tier >>= next) (Parser.operatorOf tier >>= next') := by
  intro tokens hlength
  cases tokens with
  | nil => exact hnone _ hlength
  | cons token rest =>
    rw [List.length_cons] at hlength
    obtain ⟨m, rfl⟩ : ∃ m, n = m + 1 := ⟨n - 1, by omega⟩
    rw [bind_apply, bind_apply]
    by_cases h : token.text ∈ tier.symbols
    · rw [operatorOf_of_mem rest h]
      exact hsome m _ rfl rest (by omega)
    · rw [operatorOf_of_notMem rest h]
      exact hnone _ hlength

end AgreeUpTo

/-! ### Expressions -/

/-- The fuel for an expression of a tier, besides the fuel for tokens. -/
def Tier.depth : Tier → Nat
  | .logical => 9
  | .comparing => 7
  | .adding => 5
  | .multiplying => 3

theorem Tier.depth_tighter {t next : Tier} (h : t.tighter? = some next) :
    next.depth + 2 = t.depth := by
  cases t <;> cases h <;> rfl

theorem Tier.three_le_depth (t : Tier) : 3 ≤ t.depth ∧ t.depth ≤ 9 := by
  cases t <;> decide

mutual

theorem agree_tier : ∀ (fuel n : Nat) (t : Tier), 16 * n + t.depth ≤ fuel →
    AgreeUpTo n (tier fuel t) (tier (fuel + 1) t)
  | 0, n, t, h => by
    have := t.three_le_depth
    omega
  | fuel + 1, n, t, h => by
    have := t.three_le_depth
    rw [tier, tier]
    refine (agree_operand fuel n t (by omega)).bind (stepwise_operand fuel t) fun first => ?_
    exact agree_tierRest fuel n t first (by omega)

theorem agree_operand : ∀ (fuel n : Nat) (t : Tier), 16 * n + t.depth ≤ fuel + 1 →
    AgreeUpTo n (operand fuel t) (operand (fuel + 1) t)
  | 0, n, t, h => by
    have := t.three_le_depth
    omega
  | fuel + 1, n, t, h => by
    have := t.three_le_depth
    rw [operand, operand]
    cases htighter : t.tighter? with
    | some next =>
      -- a tighter tier is two units deeper, one for the operand and one for the tier
      have := Tier.depth_tighter htighter
      exact agree_tier fuel n next (by omega)
    | none => exact agree_primary fuel n (by omega)

theorem agree_tierRest : ∀ (fuel n : Nat) (t : Tier) (left : Node), 16 * n + 1 ≤ fuel →
    AgreeUpTo n (tierRest fuel t left) (tierRest (fuel + 1) t left)
  | 0, n, t, left, h => by omega
  | fuel + 1, n, t, left, h => by
    have := t.three_le_depth
    rw [tierRest, tierRest]
    -- behind an operator there are sixteen units more, enough for any tier
    refine .operatorOf (fun m symbol hm => ?_) (.refl _)
    refine (agree_operand fuel m t (by omega)).bind (stepwise_operand fuel t) fun right => ?_
    exact agree_tierRest fuel m t _ (by omega)

theorem agree_primary : ∀ fuel n : Nat, 16 * n + 1 ≤ fuel →
    AgreeUpTo n (primary fuel) (primary (fuel + 1))
  | 0, n, h => by omega
  | fuel + 1, n, h => by
    intro tokens hlength
    rw [primary, primary]
    cases tokens with
    | nil => rfl
    | cons token rest =>
      rw [List.length_cons] at hlength
      obtain ⟨m, rfl⟩ : ∃ m, n = m + 1 := ⟨n - 1, by omega⟩
      rw [peek_bind_cons, peek_bind_cons]
      simp only
      cases literal? token with
      | some value => rfl
      | none =>
        simp only
        split
        · rw [advance_bind_cons, advance_bind_cons]
          refine AgreeUpTo.bind (agree_tier fuel m .logical (by simp only [Tier.depth]; omega))
            (stepwise_tier fuel _) (fun _ => .refl _) rest (by omega)
        · split
          · rw [advance_bind_cons, advance_bind_cons]
            refine AgreeUpTo.accept (fun k hk => ?_) ?_ rest (Nat.le_of_lt_succ hlength)
            · exact (agree_arguments fuel k (by omega)).bind (stepwise_arguments fuel)
                fun _ => .refl _
            · refine .accept (fun k hk => ?_) (.refl _)
              exact (agree_tier fuel k .logical (by simp only [Tier.depth]; omega)).bind
                (stepwise_tier fuel _) fun _ => .refl _
          · rfl

theorem agree_arguments : ∀ fuel n : Nat, 16 * n + 11 ≤ fuel →
    AgreeUpTo n (arguments fuel) (arguments (fuel + 1))
  | 0, n, h => by omega
  | fuel + 1, n, h => by
    rw [arguments, arguments]
    refine .accept (fun _ _ => .refl _) ?_
    exact (agree_expressions fuel n (by omega)).bind (stepwise_expressions fuel) fun _ => .refl _

theorem agree_expressions : ∀ fuel n : Nat, 16 * n + 10 ≤ fuel →
    AgreeUpTo n (expressions fuel) (expressions (fuel + 1))
  | 0, n, h => by omega
  | fuel + 1, n, h => by
    rw [expressions, expressions]
    refine (agree_tier fuel n .logical (by simp only [Tier.depth]; omega)).bind
      (stepwise_tier fuel _) fun first => ?_
    refine .accept (fun m hm => ?_) (.refl (pure [_]))
    exact (agree_expressions fuel m (by omega)).bind (stepwise_expressions fuel) fun _ => .refl _

end

theorem agree_expression {fuel n : Nat} (h : 16 * n + 9 ≤ fuel) :
    AgreeUpTo n (expression fuel) (expression (fuel + 1)) :=
  agree_tier fuel n .logical h

theorem agree_initializer {fuel n : Nat} (h : 16 * n + 9 ≤ fuel) :
    AgreeUpTo n (initializer fuel) (initializer (fuel + 1)) :=
  .accept (fun _ _ => agree_expression (by omega)) (.refl _)

/-! ### Statements -/

theorem agree_declaration {fuel n : Nat} (h : 16 * n + 9 ≤ fuel) :
    AgreeUpTo n (declaration fuel) (declaration (fuel + 1)) := by
  refine .after (.name _) fun name => .after .typeSuffix fun type => ?_
  exact (agree_initializer h).bind (stepwise_initializer fuel) fun value => .refl _

theorem agree_returned {fuel n : Nat} (h : 16 * n + 9 ≤ fuel) :
    AgreeUpTo n (returned fuel) (returned (fuel + 1)) :=
  (agree_expression h).bind (stepwise_expression fuel) fun _ => .refl _

theorem agree_expressionStatement {fuel n : Nat} (h : 16 * n + 9 ≤ fuel) :
    AgreeUpTo n (expressionStatement fuel) (expressionStatement (fuel + 1)) := by
  refine (agree_expression h).bind (stepwise_expression fuel) fun receiver => ?_
  refine .accept (fun m hm => ?_) (.refl _)
  exact (agree_expression (by omega)).bind (stepwise_expression fuel) fun value => .refl _

theorem consumes_expressionStatement (fuel : Nat) : Consumes (expressionStatement fuel) := by
  refine Consumes.after (stepwise_expression fuel) fun receiver => .accept ?_ ?_
  · refine (stepwise_expression fuel).bind fun value => ?_
    exact (Stepwise.expect _ _).bind fun _ => .pure _
  · exact .expect fun _ => .pure _

/-- A statement has at least one token. -/
theorem consumes_statement (fuel : Nat) : Consumes (statement fuel) := by
  cases fuel with
  | zero =>
    intro _ _ _ h
    cases h
  | succ fuel =>
    rw [statement]
    refine .accept (stepwise_declaration fuel) (.accept (stepwise_switch fuel) ?_)
    refine .accept (stepwise_branch fuel) (.accept (stepwise_loop fuel) ?_)
    exact .accept (stepwise_returned fuel) (consumes_expressionStatement fuel)

mutual

theorem agree_statement : ∀ fuel n : Nat, 16 * n + 10 ≤ fuel →
    AgreeUpTo n (statement fuel) (statement (fuel + 1))
  | 0, n, h => by omega
  | fuel + 1, n, h => by
    rw [statement, statement]
    refine .accept (fun m hm => agree_declaration (by omega)) ?_
    refine .accept (fun m hm => agree_switch fuel m (by omega)) ?_
    refine .accept (fun m hm => agree_branch fuel m (by omega)) ?_
    refine .accept (fun m hm => agree_loop fuel m (by omega)) ?_
    refine .accept (fun m hm => agree_returned (by omega)) ?_
    exact agree_expressionStatement (by omega)

/-- A block reads on behind a statement, which has taken a token. -/
theorem agree_block : ∀ fuel n : Nat, 16 * n + 11 ≤ fuel →
    AgreeUpTo n (block fuel) (block (fuel + 1))
  | 0, n, h => by omega
  | fuel + 1, n, h => by
    rw [block, block]
    refine .look fun seen => .after (.sees _) fun ends => ?_
    split
    · exact .refl _
    · intro tokens hlength
      rw [bind_apply, bind_apply, ← agree_statement fuel n (by omega) tokens hlength]
      cases hrun : statement fuel tokens with
      | error missed => rfl
      | ok result =>
        -- the statement took a token, which pays for the rest of the block
        have hless := consumes_statement fuel _ _ _ hrun
        exact AgreeUpTo.bind (agree_block fuel (n - 1) (by omega)) (stepwise_block fuel)
          (fun _ => .refl _) result.2 (by omega)

theorem agree_branch : ∀ fuel n : Nat, 16 * n + 12 ≤ fuel →
    AgreeUpTo n (branch fuel) (branch (fuel + 1))
  | 0, n, h => by omega
  | fuel + 1, n, h => by
    rw [branch, branch]
    refine (agree_expression (by omega)).bind (stepwise_expression fuel) fun condition => ?_
    refine .after (.expect _ _) fun _ => ?_
    refine (agree_block fuel n (by omega)).bind (stepwise_block fuel) fun thenBody => ?_
    refine .accept (fun m hm => ?_) ?_
    · exact (agree_block fuel m (by omega)).bind (stepwise_block fuel) fun elseBody => .refl _
    · simp only [Bool.false_eq_true, if_false]
      exact .refl _

theorem agree_switch : ∀ fuel n : Nat, 16 * n + 12 ≤ fuel →
    AgreeUpTo n (switch fuel) (switch (fuel + 1))
  | 0, n, h => by omega
  | fuel + 1, n, h => by
    rw [switch, switch]
    refine (agree_expression (by omega)).bind (stepwise_expression fuel) fun condition => ?_
    refine (agree_cases fuel n (by omega)).bind (stepwise_cases fuel) fun cases => ?_
    refine .after (.expect _ _) fun _ => .after (.discard (.accept _)) fun _ => ?_
    exact (agree_block fuel n (by omega)).bind (stepwise_block fuel) fun body => .refl _

theorem agree_cases : ∀ fuel n : Nat, 16 * n + 1 ≤ fuel →
    AgreeUpTo n (cases fuel) (cases (fuel + 1))
  | 0, n, h => by omega
  | fuel + 1, n, h => by
    rw [cases, cases]
    refine .accept (fun m hm => ?_) (.refl (pure []))
    refine (agree_expression (by omega)).bind (stepwise_expression fuel) fun value => ?_
    refine .after (.expect _ _) fun _ => ?_
    refine (agree_block fuel m (by omega)).bind (stepwise_block fuel) fun body => ?_
    exact (agree_cases fuel m (by omega)).bind (stepwise_cases fuel) fun rest => .refl _

theorem agree_loop : ∀ fuel n : Nat, 16 * n + 12 ≤ fuel →
    AgreeUpTo n (loop fuel) (loop (fuel + 1))
  | 0, n, h => by omega
  | fuel + 1, n, h => by
    rw [loop, loop]
    refine (agree_expression (by omega)).bind (stepwise_expression fuel) fun condition => ?_
    refine .after (.expect _ _) fun _ => ?_
    exact (agree_block fuel n (by omega)).bind (stepwise_block fuel) fun body => .refl _

end

/-! ### Programs -/

theorem agree_listGlobal {fuel n : Nat} (h : 16 * n + 10 ≤ fuel) :
    AgreeUpTo n (listGlobal fuel) (listGlobal (fuel + 1)) := by
  refine .after (.name _) fun name => .after .typeSuffix fun type => ?_
  refine .after (.expect _ _) fun _ => .after (.expect _ _) fun _ => ?_
  exact (agree_expressions fuel n h).bind (stepwise_expressions fuel) fun values => .refl _

theorem agree_mutableGlobal {fuel n : Nat} (h : 16 * n + 9 ≤ fuel) :
    AgreeUpTo n (mutableGlobal fuel) (mutableGlobal (fuel + 1)) := by
  refine .after (.name _) fun name => .after .typeSuffix fun type => ?_
  exact (agree_initializer h).bind (stepwise_initializer fuel) fun value => .refl _

theorem agree_constantGlobal {fuel n : Nat} (h : 16 * n + 9 ≤ fuel) :
    AgreeUpTo n (constantGlobal fuel) (constantGlobal (fuel + 1)) := by
  refine .after (.name _) fun name => .after .typeSuffix fun type => ?_
  refine .after (.expect _ _) fun _ => ?_
  exact (agree_expression h).bind (stepwise_expression fuel) fun value => .refl _

theorem agree_globals : ∀ fuel n : Nat, 16 * n + 1 ≤ fuel →
    AgreeUpTo n (globals fuel) (globals (fuel + 1))
  | 0, n, h => by omega
  | fuel + 1, n, h => by
    have hrest : ∀ (m : Nat) (node : Node), m + 1 = n → AgreeUpTo m
        (do return node :: (← globals fuel)) (do return node :: (← globals (fuel + 1))) :=
      fun m _ hm => (agree_globals fuel m (by omega)).bind (stepwise_globals fuel)
        fun _ => .refl _
    rw [globals, globals]
    refine .accept (fun m hm => ?_) ?_
    · exact (agree_listGlobal (by omega)).bind (stepwise_listGlobal fuel) fun _ => hrest m _ hm
    refine .accept (fun m hm => ?_) ?_
    · exact (agree_mutableGlobal (by omega)).bind (stepwise_mutableGlobal fuel)
        fun _ => hrest m _ hm
    refine .accept (fun m hm => ?_) (.refl (pure []))
    exact (agree_constantGlobal (by omega)).bind (stepwise_constantGlobal fuel)
      fun _ => hrest m _ hm

theorem agree_parameters : ∀ fuel n : Nat, 16 * n + 1 ≤ fuel →
    AgreeUpTo n (parameters fuel) (parameters (fuel + 1))
  | 0, n, h => by omega
  | fuel + 1, n, h => by
    rw [parameters, parameters]
    refine .after (.name _) fun name => .after .typeSuffix fun type => ?_
    refine .accept (fun m hm => ?_) (.refl (pure [_]))
    exact (agree_parameters fuel m (by omega)).bind (stepwise_parameters fuel) fun _ => .refl _

theorem agree_function {fuel n : Nat} (h : 16 * n + 11 ≤ fuel) :
    AgreeUpTo n (function fuel) (function (fuel + 1)) := by
  refine .after (.name _) fun name => .after (.expect _ _) fun _ => .after (.sees _) fun empty => ?_
  have hrest : ∀ params : List (String × Option String), AgreeUpTo n (do
      expect ")" .parametersEnd
      let resultType ← typeSuffix
      expect "DO" .doKeyword
      let body ← block fuel
      expect "END" .functionEnd
      return Node.function name (params.map Prod.fst) (params.map Prod.snd) resultType body none)
      (do
      expect ")" .parametersEnd
      let resultType ← typeSuffix
      expect "DO" .doKeyword
      let body ← block (fuel + 1)
      expect "END" .functionEnd
      return Node.function name (params.map Prod.fst) (params.map Prod.snd) resultType body
        none) := by
    intro params
    refine .after (.expect _ _) fun _ => .after .typeSuffix fun type => .after (.expect _ _) ?_
    exact fun _ => (agree_block fuel n h).bind (stepwise_block fuel) fun _ => .refl _
  split
  · exact .after (.pure []) hrest
  · exact (agree_parameters fuel n (by omega)).bind (stepwise_parameters fuel) hrest

theorem agree_functions : ∀ fuel n : Nat, 16 * n + 1 ≤ fuel →
    AgreeUpTo n (functions fuel) (functions (fuel + 1))
  | 0, n, h => by omega
  | fuel + 1, n, h => by
    rw [functions, functions]
    refine .accept (fun m hm => ?_) (.refl (pure []))
    refine (agree_function (by omega)).bind (stepwise_function fuel) fun node => ?_
    exact (agree_functions fuel m (by omega)).bind (stepwise_functions fuel) fun _ => .refl _

theorem agree_program {fuel n : Nat} (h : 16 * n + 1 ≤ fuel) :
    AgreeUpTo n (program fuel) (program (fuel + 1)) := by
  refine (agree_globals fuel n h).bind (stepwise_globals fuel) fun globals => ?_
  exact (agree_functions fuel n h).bind (stepwise_functions fuel) fun functions => .refl _

/-- More fuel than `fuelFor` gives makes no difference to a parser of this kind. -/
theorem eq_of_fuelFor_le (parser : Nat → Parser α)
    (hagree : ∀ fuel n : Nat, 16 * n + 16 ≤ fuel →
      AgreeUpTo n (parser fuel) (parser (fuel + 1)))
    {tokens : List Token} {fuel : Nat} (h : fuelFor tokens ≤ fuel) :
    parser fuel tokens = parser (fuelFor tokens) tokens := by
  induction fuel, h using Nat.le_induction with
  | base => rfl
  | succ fuel h ih =>
    rw [← hagree fuel tokens.length (by rw [fuelFor] at h; omega) tokens le_rfl, ih]

/-- More fuel than `fuelFor` gives makes no difference to the parser of programs. -/
theorem program_of_fuelFor_le {tokens : List Token} {fuel : Nat}
    (h : fuelFor tokens ≤ fuel) : program fuel tokens = program (fuelFor tokens) tokens :=
  eq_of_fuelFor_le program (fun _ _ h => agree_program (by omega)) h

end BlockScript.Parser
