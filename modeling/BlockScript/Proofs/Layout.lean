import BlockScript.CommandLine
import BlockScript.Proofs.Compilation
import BlockScript.Proofs.Parser.Placement
import BlockScript.Proofs.Token.Layout
/-!
# Layout is free

What stands between tokens says where one token ends and the next one begins, and nothing else. The
tokens of a text with a gap are those in front of the gap and those behind it, and with other gaps,
or with gaps where there were none, the tokens are spelled as before. So are the trees that they are
parsed as, and everything that is done with the trees.

## Main results

* `Parser.runText_unplaced_eq` — parsers give the same answer for every layout
* `layout_is_free` — layout in tokens, trees, compilations and calls of the program
-/

namespace BlockScript

open Relation (ReflTransGen)

section

variable {source source' : String} {tokens tokens' : List Token}

/-- Texts whose tokens are spelled alike get the same answer of a parser, but for the place of an
error. -/
theorem Parser.runText_unplaced_eq {α : Type} {parser : Nat → Parser α}
    (h : ∀ fuel, Stepwise (parser fuel)) (htokens : tokenize source = .ok tokens)
    (htokens' : tokenize source' = .ok tokens')
    (hsame : tokens'.map Token.spelling = tokens.map Token.spelling) :
    (runText parser source').mapError SyntaxError.unplaced =
      (runText parser source).mapError SyntaxError.unplaced := by
  rw [runText, runText, htokens, htokens']
  exact Stepwise.run_unplaced_eq h hsame

theorem parseProgram_unplaced_eq (htokens : tokenize source = .ok tokens)
    (htokens' : tokenize source' = .ok tokens')
    (hsame : tokens'.map Token.spelling = tokens.map Token.spelling) :
    (parseProgram source').mapError SyntaxError.unplaced =
      (parseProgram source).mapError SyntaxError.unplaced := by
  have hrun := Parser.runText_unplaced_eq Parser.stepwise_program htokens htokens' hsame
  rw [parseProgram, parseProgram]
  cases h : Parser.runText Parser.program source <;>
    cases h' : Parser.runText Parser.program source' <;>
    rw [h, h'] at hrun <;> simp_all [Except.mapError, Except.map]

/-- Errors without their places are errors, and trees stay. -/
theorem parseProgram_eq_ok (htokens : tokenize source = .ok tokens)
    (htokens' : tokenize source' = .ok tokens')
    (hsame : tokens'.map Token.spelling = tokens.map Token.spelling) {program : Node}
    (h : parseProgram source = .ok program) : parseProgram source' = .ok program := by
  have hparse := parseProgram_unplaced_eq htokens htokens' hsame
  rw [h] at hparse
  cases h' : parseProgram source' with
  | error e =>
    rw [h'] at hparse
    cases hparse
  | ok other =>
    rw [h'] at hparse
    exact hparse

/-- A text is parsed as the grammar derives what it spells. -/
theorem HasSpelling.parseProgram_eq (h : HasSpelling source (tokens.map Token.spelling))
    {program : Node} (hprogram : Grammar.Program tokens program) :
    parseProgram source = .ok program := by
  have hrun : Parser.run Parser.program tokens = .ok (program, tokens.length) :=
    (Parser.run_program_eq_ok_iff h.allLexed).mpr ⟨hprogram, rfl⟩
  obtain ⟨tokens', htokens', hsame⟩ := h
  have hunplaced := Parser.Stepwise.run_unplaced_eq Parser.stepwise_program hsame
  cases hrun' : Parser.run Parser.program tokens' with
  | ok result =>
    rw [hrun, hrun'] at hunplaced
    cases hunplaced
    rw [parseProgram, Parser.runText, htokens']
    exact congrArg (Except.map Prod.fst) hrun'
  | error e =>
    rw [hrun, hrun'] at hunplaced
    cases hunplaced

/-- What the grammar derives from tokens of source texts is the tree of a source text. -/
theorem exists_source_of_derives (htokens : Parser.AllLexed tokens) {program : Node}
    (h : Grammar.Program tokens program) : ∃ source, parseProgram source = .ok program := by
  obtain ⟨source, hsource⟩ := exists_source_of_lexed htokens
  exact ⟨source, hsource.parseProgram_eq h⟩

/-- A call of the program works on the tree of a source text, whatever the text looks like. -/
theorem CommandLine.performOn_eq_of_parseProgram {program : Node}
    (h : parseProgram source = .ok program) (h' : parseProgram source' = .ok program)
    (verbosity : Nat) {mode : CommandLine.Mode} (hmode : mode ≠ .runTree) (path : String) :
    performOn verbosity mode path source' = performOn verbosity mode path source := by
  cases mode with
  | runTree => exact absurd rfl hmode
  | run | check | java | emitTree => simp only [performOn, h, h']

end

/-- A text with a gap has the tokens in front of the gap and those behind it, the latter moved, and
it has the lexical error of what is behind the gap. With other gaps, and with gaps at more places
between tokens, the tokens of a text are spelled alike; so they are parsed alike, compiled alike,
and a call that reads the text as a source does the same. -/
theorem layout_is_free :
    (∀ front gap back tokens, tokenize front = .ok tokens → gap ≠ "" → IsBlank gap →
      (∀ more, tokenize back = .ok more → tokenize (front ++ gap ++ back) =
        .ok (tokens ++ more.map (Token.moved (front ++ gap).length))) ∧
      ∀ e, tokenize back = .error e →
        tokenize (front ++ gap ++ back) = .error (e.moved (front ++ gap).length)) ∧
    ∀ source source' tokens, tokenize source = .ok tokens → ReflTransGen Relays source source' →
      (∃ tokens', tokenize source' = .ok tokens' ∧
        tokens'.map Token.spelling = tokens.map Token.spelling) ∧
      (parseExpression source').mapError SyntaxError.unplaced =
        (parseExpression source).mapError SyntaxError.unplaced ∧
      (parseStatement source').mapError SyntaxError.unplaced =
        (parseStatement source).mapError SyntaxError.unplaced ∧
      (parseBlock source').mapError SyntaxError.unplaced =
        (parseBlock source).mapError SyntaxError.unplaced ∧
      (parseProgram source').mapError SyntaxError.unplaced =
        (parseProgram source).mapError SyntaxError.unplaced ∧
      ∀ program, parseProgram source = .ok program →
        parseProgram source' = .ok program ∧ compile source' = compile source ∧
        ∀ verbosity mode path, mode ≠ .runTree →
          CommandLine.performOn verbosity mode path source' =
            CommandLine.performOn verbosity mode path source := by
  constructor
  · intro front gap back tokens htokens hgap hblank
    refine ⟨fun more hmore => ?_, fun e he => ?_⟩
    · rw [tokenize_gap back htokens hgap hblank, hmore]
      rfl
    · rw [tokenize_gap back htokens hgap hblank, he]
      rfl
  · intro source source' tokens htokens hrelays
    obtain ⟨tokens', htokens', hsame⟩ := spelling_eq_of_relays hrelays htokens
    refine ⟨⟨tokens', htokens', hsame⟩,
      Parser.runText_unplaced_eq Parser.stepwise_expression htokens htokens' hsame,
      Parser.runText_unplaced_eq Parser.stepwise_statement htokens htokens' hsame,
      Parser.runText_unplaced_eq Parser.stepwise_block htokens htokens' hsame,
      parseProgram_unplaced_eq htokens htokens' hsame, fun program hprogram => ?_⟩
    have hprogram' := parseProgram_eq_ok htokens htokens' hsame hprogram
    refine ⟨hprogram', ?_, fun verbosity mode path hmode =>
      CommandLine.performOn_eq_of_parseProgram hprogram hprogram' verbosity hmode path⟩
    rw [compile, compile, hprogram, hprogram']

/-- The tokens of a source without gaps where there need not be any. -/
theorem tokenize_declaration : tokenize "VAR x=1;" = .ok
    [⟨.identifier, "VAR", 0⟩, ⟨.identifier, "x", 4⟩, ⟨.operator, "=", 5⟩, ⟨.integer, "1", 6⟩,
      ⟨.operator, ";", 7⟩] := by
  cbv

theorem parseProgram_declaration : parseProgram "VAR x=1;" =
    .ok (.program [.global "x" true none (.literal (.integer 1) none) false none] []) := by
  cbv

/-- Another gap behind the keyword, and one more in front of the operator. -/
theorem relays_declaration : ReflTransGen Relays "VAR x=1;" "VAR\n\tx =1;" := by
  have hmiddle : tokenize ("VAR\n\tx" ++ "" ++ "=1;") = .ok
      [⟨.identifier, "VAR", 0⟩, ⟨.identifier, "x", 5⟩, ⟨.operator, "=", 6⟩, ⟨.integer, "1", 7⟩,
        ⟨.operator, ";", 8⟩] := by
    cbv
  have hfirst : Relays ("VAR" ++ " " ++ "x=1;") ("VAR" ++ "\n\t" ++ "x=1;") :=
    .intro tokenize_declaration (by decide) (by decide) (by decide) (by decide)
  have hsecond : Relays ("VAR\n\tx" ++ "" ++ "=1;") ("VAR\n\tx" ++ " " ++ "=1;") :=
    .intro hmiddle (by decide) (by decide) (by decide) (by decide)
  exact .tail (.single hfirst) hsecond

/-- The gaps of a declaration, and a quote behind a gap that begins no token. -/
theorem layout_is_free_declaration :
    tokenize ("VAR x" ++ " " ++ "'") = .error { character := '\'', index := 6 } ∧
    compile "VAR\n\tx =1;" = compile "VAR x=1;" := by
  have hfront : tokenize "VAR x" = .ok [⟨.identifier, "VAR", 0⟩, ⟨.identifier, "x", 4⟩] := by
    cbv
  -- a quote alone is not the head of a character
  have hback : tokenize "'" = .error ⟨'\'', 0⟩ := by
    rw [tokenize_eq_iff_reads]
    refine .stuck rfl ⟨?_, ?_⟩
    · rintro _ ⟨⟩
      decide
    · rw [← Terminal.tokenAt?_eq_none_iff]
      rfl
  refine ⟨(layout_is_free.1 "VAR x" " " "'" _ hfront (by decide) (by decide)).2 _ hback, ?_⟩
  obtain ⟨-, -, -, -, -, htree⟩ := layout_is_free.2 _ _ _ tokenize_declaration relays_declaration
  exact (htree _ parseProgram_declaration).2.1

end BlockScript
