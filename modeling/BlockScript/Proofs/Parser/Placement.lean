import BlockScript.Proofs.Parser.Stepwise
/-!
# Where tokens stand

A parser looks at the kinds and the texts of tokens, and never at their indices. With tokens of the
same spelling it comes to the same result, or misses the same thing in front of the same tokens. Only
the place that an error is reported at is taken from the indices.

## Main definitions

* `SyntaxError.unplaced` — an error without its place

## Main results

* `Stepwise.spelled_eq` — what a parser does depends on the spelling of the tokens
* `Stepwise.run_unplaced_eq` — the same for the answer of a parser
-/

namespace BlockScript

/-- The error without its place. -/
def SyntaxError.unplaced : SyntaxError → SyntaxError
  | lexical e => lexical { e with index := 0 }
  | grammar expected found _ => grammar expected found 0

namespace Parser

variable {α : Type} {tokens tokens' : List Token}

/-- What a parser does, with the tokens left as they are spelled. -/
def spelled : Except Miss (α × List Token) →
    Except (Expectation × List (TokenKind × String)) (α × List (TokenKind × String))
  | .ok (a, rest) => .ok (a, rest.map Token.spelling)
  | .error missed => .error (missed.expected, missed.rest.map Token.spelling)

/-- What follows a look at the current token depends on the spelling of that token. -/
theorem look_congr {next : Option Token → Parser α}
    (hnext : ∀ token index, next (some { token with index }) = next (some token))
    (hsame : tokens.map Token.spelling = tokens'.map Token.spelling) :
    next tokens.head? = next tokens'.head? := by
  cases tokens with
  | nil =>
    obtain rfl : tokens' = [] := by simpa using hsame.symm
    rfl
  | cons token rest =>
    cases tokens' with
    | nil => cases hsame
    | cons token' rest' =>
      simp only [List.map_cons, List.cons.injEq, Token.spelling, Prod.mk.injEq] at hsame
      obtain ⟨⟨hkind, htext⟩, -⟩ := hsame
      have hmoved : { token with index := token'.index } = token' := by
        rw [hkind, htext]
      rw [List.head?_cons, List.head?_cons, ← hnext token token'.index, hmoved]

/-- What a parser does depends on the spelling of the tokens only. -/
theorem Stepwise.spelled_eq {parser : Parser α} (h : Stepwise parser)
    (hsame : tokens.map Token.spelling = tokens'.map Token.spelling) :
    spelled (parser tokens) = spelled (parser tokens') := by
  induction h generalizing tokens tokens' with
  | pure a => simp [spelled, pure_apply, hsame]
  | miss expected => simp [spelled, Parser.miss, hsame]
  | advance => simp [spelled, Parser.advance, List.map_tail, hsame]
  | look hnext _ ih =>
    rw [bind_apply, bind_apply]
    simp only [peek]
    rw [look_congr hnext hsame]
    exact ih _ hsame
  | bind _ _ ih ihnext =>
    have hfirst := ih hsame
    rw [bind_apply, bind_apply]
    -- the first parsers have the same result, and leave tokens of the same spelling
    split <;> rename_i hrun <;> split <;> rename_i hrun' <;> rw [hrun, hrun'] at hfirst
    · simp only [spelled, Except.ok.injEq, Prod.mk.injEq] at hfirst
      obtain ⟨rfl, hrest⟩ := hfirst
      exact ihnext _ hrest
    · cases hfirst
    · cases hfirst
    · simpa only [spelled, Except.error.injEq] using hfirst

/-- The error for something missed is the same but for its place. -/
theorem unplaced_errorOf {missed missed' : Miss} (hexpected : missed.expected = missed'.expected)
    (hrest : missed.rest.map Token.spelling = missed'.rest.map Token.spelling) :
    (errorOf tokens missed).unplaced = (errorOf tokens' missed').unplaced := by
  obtain ⟨expected, rest⟩ := missed
  obtain ⟨expected', rest'⟩ := missed'
  obtain rfl : expected = expected' := hexpected
  cases rest with
  | nil =>
    obtain rfl : rest' = [] := by simpa using hrest.symm
    rfl
  | cons token rest =>
    cases rest' with
    | nil => cases hrest
    | cons token' rest' =>
      have htext : token.text = token'.text := by
        simp only [List.map_cons, List.cons.injEq, Token.spelling, Prod.mk.injEq] at hrest
        exact hrest.1.2
      simp [errorOf, SyntaxError.unplaced, htext]

/-- The answer of a parser depends on the spelling of the tokens only, but for the place of an
error. -/
theorem Stepwise.run_unplaced_eq {parser : Nat → Parser α} (h : ∀ fuel, Stepwise (parser fuel))
    (hsame : tokens.map Token.spelling = tokens'.map Token.spelling) :
    (run parser tokens).mapError SyntaxError.unplaced =
      (run parser tokens').mapError SyntaxError.unplaced := by
  have hlength : tokens.length = tokens'.length := by simpa using congrArg List.length hsame
  have hfuel : fuelFor tokens = fuelFor tokens' := by rw [fuelFor, fuelFor, hlength]
  have hspelled := (h (fuelFor tokens)).spelled_eq hsame
  rw [run, run, ← hfuel]
  split <;> rename_i hrun <;> split <;> rename_i hrun' <;> rw [hrun, hrun'] at hspelled
  · simp only [spelled, Except.ok.injEq, Prod.mk.injEq] at hspelled
    obtain ⟨rfl, hrest⟩ := hspelled
    have hleft := congrArg List.length hrest
    simp only [List.length_map] at hleft
    rw [hlength, hleft]
  · cases hspelled
  · cases hspelled
  · simp only [spelled, Except.error.injEq, Prod.mk.injEq] at hspelled
    exact congrArg Except.error (unplaced_errorOf hspelled.1 hspelled.2)

end Parser

end BlockScript
