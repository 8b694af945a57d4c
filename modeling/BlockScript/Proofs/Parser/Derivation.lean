import BlockScript.Proofs.Literal
import BlockScript.Proofs.Parser.Completeness.Program
/-!
# The parser accepts the grammar

The parser of programs accepts exactly the lists of tokens that the grammar derives, and returns the
tree of the derivation. So no list has two trees, although nothing in the grammar says so.

## Main results

* `program_eq_ok_iff` — programs with the fuel that they get
* `run_expression_of_derives` — expressions up to the end of the tokens
* `run_program_iff_derives` — the tokens of a source text
-/

namespace BlockScript.Parser

open Grammar

/-- The parser of programs returns a tree only if it has taken all tokens. -/
theorem rest_of_program {fuel : Nat} {tokens rest : List Token} {node : Node}
    (h : program fuel tokens = .ok (node, rest)) : rest = [] := by
  rw [program, bind_apply] at h
  cases hglobals : globals fuel tokens with
  | error missed =>
    rw [hglobals] at h
    cases h
  | ok result =>
    rw [hglobals] at h
    simp only at h
    rw [bind_apply] at h
    cases hfunctions : functions fuel result.2 with
    | error missed =>
      rw [hfunctions] at h
      cases h
    | ok result =>
      obtain ⟨functions, after⟩ := result
      rw [hfunctions] at h
      cases after with
      | nil =>
        cases h
        rfl
      | cons token others =>
        simp only at h
        rw [peek_bind_cons] at h
        simp only at h
        split at h <;> cases h

/-- Parsing a program succeeds with a tree exactly if the grammar derives the tree. -/
theorem program_eq_ok_iff {tokens : List Token} (htokens : AllLexed tokens) {node : Node} :
    program (fuelFor tokens) tokens = .ok (node, []) ↔ Program tokens node := by
  constructor
  · intro h
    obtain ⟨used, hused, hprogram⟩ := (reads_program _ tokens htokens).sound h
    rw [List.append_nil] at hused
    rwa [hused]
  · exact fun h => program_of_derives h htokens

theorem run_program_eq_ok_iff {tokens : List Token} (htokens : AllLexed tokens) {node : Node}
    {taken : Nat} :
    run program tokens = .ok (node, taken) ↔ Program tokens node ∧ taken = tokens.length := by
  rw [← program_eq_ok_iff htokens, run]
  cases hrun : program (fuelFor tokens) tokens with
  | error missed => simp
  | ok result =>
    obtain ⟨tree, rest⟩ := result
    obtain rfl := rest_of_program hrun
    simp [eq_comm]

/-- The tree of a source text is the tree of its tokens. -/
theorem exists_tokens_of_parseProgram {source : String} {node : Node}
    (h : parseProgram source = .ok node) :
    ∃ tokens, tokenize source = .ok tokens ∧ Program tokens node := by
  rw [parseProgram, runText] at h
  cases htokens : tokenize source with
  | error e =>
    rw [htokens] at h
    cases h
  | ok tokens =>
    rw [htokens] at h
    simp only at h
    cases hrun : run program tokens with
    | error e =>
      rw [hrun] at h
      cases h
    | ok result =>
      rw [hrun] at h
      cases h
      have hlexed : AllLexed tokens := Token.lexed_of_tokenize htokens
      exact ⟨tokens, rfl, ((run_program_eq_ok_iff hlexed).mp hrun).1⟩

theorem exists_program_of_parseProgram {source : String} {node : Node}
    (h : parseProgram source = .ok node) : ∃ tokens, AllLexed tokens ∧ Program tokens node := by
  obtain ⟨tokens, htokens, hprogram⟩ := exists_tokens_of_parseProgram h
  exact ⟨tokens, Token.lexed_of_tokenize htokens, hprogram⟩

/-- What a parser of phrases takes from the front of some tokens is a phrase. -/
theorem derives_of_run {α : Type} {parser : Nat → Parser α} {phrase : List Token → α → Prop}
    (hreads : ∀ fuel, Reads (parser fuel) phrase) {tokens : List Token} (htokens : AllLexed tokens)
    {a : α} {taken : Nat} (h : run parser tokens = .ok (a, taken)) :
    taken ≤ tokens.length ∧ phrase (tokens.take taken) a := by
  rw [run] at h
  cases hrun : parser (fuelFor tokens) tokens with
  | error missed =>
    rw [hrun] at h
    cases h
  | ok result =>
    rw [hrun] at h
    obtain ⟨used, hused, hphrase⟩ := (hreads _ tokens htokens).sound hrun
    cases h
    -- the number of tokens taken is counted from those that are left
    have hlength : tokens.length - result.2.length = used.length := by
      rw [hused, List.length_append, Nat.add_sub_cancel]
    have htake : tokens.take used.length = used := by
      rw [hused, List.take_left]
    refine ⟨Nat.sub_le _ _, ?_⟩
    rwa [hlength, htake]

/-- A literal is an expression. -/
theorem expression_of_literal {token : Token} {value : Scalar} (h : Literal token value) :
    Expression .logical [token] (.literal value none) := by
  have hmultiplying : Expression .multiplying [token] (.literal value none) :=
    .operand (.primary rfl (.literal h))
  have hadding : Expression .adding [token] (.literal value none) :=
    .operand (.tighter rfl hmultiplying)
  have hcomparing : Expression .comparing [token] (.literal value none) :=
    .operand (.tighter rfl hadding)
  exact .operand (.tighter rfl hcomparing)

/-- Tokens that are an expression are taken as one, with the fuel that the parser gets. -/
theorem run_expression_of_derives {tokens : List Token} {node : Node} (htokens : AllLexed tokens)
    (h : Expression .logical tokens node) : run expression tokens = .ok (node, tokens.length) := by
  obtain ⟨enough, htakes⟩ := takes_expression h htokens
  have hagree : ∀ fuel n : Nat, 16 * n + 16 ≤ fuel →
      AgreeUpTo n (expression fuel) (expression (fuel + 1)) :=
    fun _ _ hfuel => agree_expression (by omega)
  have hfuel := eq_of_fuelFor_le expression hagree (Nat.le_add_right (fuelFor tokens) enough)
  have hrun := htakes (fuelFor tokens + enough) (Nat.le_add_left _ _) [] (.nil _)
  rw [List.append_nil, hfuel] at hrun
  rw [run, hrun]
  rfl

/-- The tokens of a source text are a program exactly if the grammar derives them, and then the
tree is the only one that the grammar gives them. What is taken as an expression, a statement or a
block by itself is one. -/
theorem run_program_iff_derives {source : String} {tokens : List Token}
    (htokens : tokenize source = .ok tokens) :
    (∀ node taken, run program tokens = .ok (node, taken) ↔
      Program tokens node ∧ taken = tokens.length) ∧
    (∀ node other, Program tokens node → Program tokens other → node = other) ∧
    (∀ node taken, run expression tokens = .ok (node, taken) →
      taken ≤ tokens.length ∧ Expression .logical (tokens.take taken) node) ∧
    (∀ node taken, run statement tokens = .ok (node, taken) →
      taken ≤ tokens.length ∧ Statement (tokens.take taken) node) ∧
    (∀ nodes taken, run block tokens = .ok (nodes, taken) →
      taken ≤ tokens.length ∧ Block (tokens.take taken) nodes) ∧
    ∀ token ∈ tokens, token.kind ∈ [.integer, .decimal, .character, .string] →
      ∃ value, Literal token value := by
  have hlexed : AllLexed tokens := Token.lexed_of_tokenize htokens
  refine ⟨fun node taken => run_program_eq_ok_iff hlexed, ?_, ?_, ?_, ?_, ?_⟩
  -- the parser has one answer, and it is the tree of both derivations
  · intro node other hnode hother
    have hrun := (program_eq_ok_iff hlexed).mpr hnode
    rw [(program_eq_ok_iff hlexed).mpr hother] at hrun
    cases hrun
    rfl
  · exact fun node taken h => derives_of_run reads_expression hlexed h
  · exact fun node taken h => derives_of_run reads_statement hlexed h
  · exact fun nodes taken h => derives_of_run reads_block hlexed h
  · exact fun token htoken hkind => exists_literal (hlexed token htoken) hkind

/-- The tokens of `VAR x = 1; FUN f() DO END`. -/
def sampleProgram : List Token :=
  [⟨.identifier, "VAR", 0⟩, ⟨.identifier, "x", 4⟩, ⟨.operator, "=", 6⟩, ⟨.integer, "1", 8⟩,
    ⟨.operator, ";", 9⟩, ⟨.identifier, "FUN", 11⟩, ⟨.identifier, "f", 15⟩, ⟨.operator, "(", 16⟩,
    ⟨.operator, ")", 17⟩, ⟨.identifier, "DO", 19⟩, ⟨.identifier, "END", 22⟩]

theorem derives_sampleProgram :
    tokenize "VAR x = 1; FUN f() DO END" = .ok sampleProgram ∧
      Program sampleProgram (.program
        [.global "x" true none (.literal (.integer 1) none) false none]
        [.function "f" [] [] none [] none]) := by
  have htokens : tokenize "VAR x = 1; FUN f() DO END" = .ok sampleProgram := rfl
  have hrun := ((run_program_iff_derives htokens).1 (.program
    [.global "x" true none (.literal (.integer 1) none) false none]
    [.function "f" [] [] none [] none]) 11).mp rfl
  exact ⟨htokens, hrun.1⟩

end BlockScript.Parser
