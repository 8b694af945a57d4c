import BlockScript.Proofs.Parser.Derivation
/-!
# Errors point to the first token out of place

A syntax error names the first token that cannot stand where it stands: the tokens before it begin a
program, and with it they do not, whatever follows. If the tokens end too early, all of them begin a
program. What follows the token of an error has no part in the error.

## Main definitions

* `Parser.Viable` — tokens that begin a program
* `Parser.BlamesToken`, `Parser.BlamesEnd` — errors that point to the first token out of place, or
  to the end of tokens that are all in place

## Main results

* `viable_of_program_error` — the tokens before an error begin a program
* `program_error_append` — a parser never gets beyond the token of an error
* `run_program_error` — errors as they are reported
-/

namespace BlockScript.Parser

open Grammar

/-- What can be accepted with some tokens behind it. -/
def Viable (tokens : List Token) : Prop :=
  ∃ more node, AllLexed more ∧
    run program (tokens ++ more) = .ok (node, (tokens ++ more).length)

/-- The tokens before an error begin a program. -/
theorem viable_of_program_error {tokens : List Token} (htokens : AllLexed tokens) {missed : Miss}
    (h : program (fuelFor tokens) tokens = .error missed) :
    ∃ used, tokens = used ++ missed.rest ∧ Viable used := by
  obtain ⟨used, hused, more, node, hmore, hprogram⟩ := (reads_program _ tokens htokens).viable h
  rw [hused] at htokens
  refine ⟨used, hused, more, node, hmore, ?_⟩
  exact (run_program_eq_ok_iff (htokens.left.append hmore)).mpr ⟨hprogram, rfl⟩

/-- The token of an error makes the same error with any tokens behind it. -/
theorem program_error_append {used rest : List Token} {token : Token} {expected : Expectation}
    (h : program (fuelFor (used ++ token :: rest)) (used ++ token :: rest) =
      .error ⟨expected, token :: rest⟩) (other : List Token) :
    program (fuelFor (used ++ token :: other)) (used ++ token :: other) =
      .error ⟨expected, token :: other⟩ := by
  -- both lists are parsed with the same fuel, so that lookahead can be compared
  have hfuel : ∃ fuel, fuelFor (used ++ token :: rest) ≤ fuel ∧
      fuelFor (used ++ token :: other) ≤ fuel := ⟨_, le_max_left _ _, le_max_right _ _⟩
  obtain ⟨fuel, hrest, hother⟩ := hfuel
  rw [← program_of_fuelFor_le hrest] at h
  rw [← program_of_fuelFor_le hother]
  have hstable := (stepwise_program fuel).predictive.stable other (by rw [h]; rfl)
  rw [hstable, h]
  rfl

/-- An error points to a token before which all is in place, and with which no program begins; what
stands behind the token does not matter. -/
def BlamesToken (tokens : List Token) (e : SyntaxError) : Prop :=
  ∃ before token after expected, tokens = before ++ token :: after ∧
    e = .grammar expected (some token.text) token.index ∧ Viable before ∧
    (∀ other result, run program (before ++ token :: other) ≠ .ok result) ∧
    ∀ other, run program (before ++ token :: other) = .error e

/-- An error points to the end of the last token, up to which all is in place. -/
def BlamesEnd (tokens : List Token) (e : SyntaxError) : Prop :=
  ∃ before last expected, tokens = before ++ [last] ∧
    e = .grammar expected none (last.index + last.text.length) ∧ Viable tokens

/-- A syntax error in a list of tokens points to the first one that is out of place, or else to the
end of the list if the list begins a program. -/
theorem run_program_error {tokens : List Token} (htokens : AllLexed tokens) {e : SyntaxError}
    (h : run program tokens = .error e) : BlamesToken tokens e ∨ BlamesEnd tokens e := by
  rw [run] at h
  cases hrun : program (fuelFor tokens) tokens with
  | ok result =>
    rw [hrun] at h
    cases h
  | error missed =>
    obtain ⟨expected, rest⟩ := missed
    obtain ⟨used, hused, hviable⟩ := viable_of_program_error htokens hrun
    simp only at hused
    rw [hrun] at h
    cases h
    -- the error is met at a token or at the end of the tokens
    cases rest with
    | cons token after =>
      subst hused
      have herror : ∀ other, run program (used ++ token :: other) =
          .error (.grammar expected (some token.text) token.index) := by
        intro other
        rw [run, program_error_append hrun other]
        rfl
      refine .inl ⟨used, token, after, expected, rfl, rfl, hviable, ?_, herror⟩
      intro other result hresult
      rw [herror other] at hresult
      cases hresult
    | nil =>
      rw [List.append_nil] at hused
      subst hused
      rcases List.eq_nil_or_concat tokens with rfl | ⟨before, last, rfl⟩
      -- without any tokens there is a program, the empty one
      · cases hrun
      · refine .inr ⟨before, last, expected, by simp, ?_, hviable⟩
        simp [errorOf, endIndex, Token.stop]

/-- A name is missing behind the keyword. -/
theorem run_program_error_missing_name :
    BlamesToken [⟨.identifier, "VAR", 0⟩, ⟨.operator, "=", 4⟩]
      (.grammar .identifier (some "=") 4) := by
  have hlexed : AllLexed [⟨.identifier, "VAR", 0⟩, ⟨.operator, "=", 4⟩] := by decide
  refine (run_program_error hlexed rfl).resolve_right ?_
  rintro ⟨before, last, expected, -, he, -⟩
  cases he

end BlockScript.Parser
