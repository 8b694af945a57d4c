import BlockScript.Proofs.Parser.Stepwise
/-!
# One token of lookahead

A parser decides what to do by the token at the current place and never looks further. So its
result stays the same, with the same tokens left in front, when the tokens behind the first one that
it left are replaced by others.

## Main definitions

* `Parser.left`, `Parser.withLeft` — the tokens that a parser leaves, and other tokens instead
* `Parser.Predictive` — a parser that looks at one token

## Main results

* `Predictive.bind` — one parser after another
* `Stepwise.predictive` — parsers that go step by step look at one token
-/

namespace BlockScript.Parser

variable {α β : Type}

/-- The tokens left by a parser, whether it succeeded or failed. -/
def left : Except Miss (α × List Token) → List Token
  | .ok (_, rest) => rest
  | .error missed => missed.rest

/-- The same result with other tokens left. -/
def withLeft (tokens : List Token) : Except Miss (α × List Token) → Except Miss (α × List Token)
  | .ok (a, _) => .ok (a, tokens)
  | .error missed => .error { missed with rest := tokens }

/-- A parser that takes tokens from the front only, and looks no further than the first one that it
leaves. -/
structure Predictive (parser : Parser α) : Prop where
  /-- The tokens left are the last ones of those given. -/
  suffix : ∀ tokens, left (parser tokens) <:+ tokens
  /-- What stands behind the first token left does not matter. -/
  stable : ∀ {used token rest} (other), left (parser (used ++ token :: rest)) = token :: rest →
    parser (used ++ token :: other) =
      withLeft (token :: other) (parser (used ++ token :: rest))

namespace Predictive

theorem pure (a : α) : Predictive (Pure.pure a : Parser α) where
  suffix _ := List.suffix_rfl
  stable {used token rest} other h := by
    obtain rfl : used = [] := by simpa [left, pure_apply] using h
    rfl

theorem miss (expected : Expectation) : Predictive (Parser.miss expected : Parser α) where
  suffix _ := List.suffix_rfl
  stable {used token rest} other h := by
    obtain rfl : used = [] := by simpa [left, Parser.miss] using h
    rfl

theorem peek : Predictive Parser.peek where
  suffix _ := List.suffix_rfl
  stable {used token rest} other h := by
    obtain rfl : used = [] := by simpa [left, Parser.peek] using h
    rfl

theorem advance : Predictive Parser.advance where
  suffix tokens := List.tail_suffix tokens
  stable {used token rest} other h := by
    -- the token that is left is the second one
    obtain ⟨first, rfl⟩ : ∃ first, used = [first] := by
      have hlength := congrArg List.length h
      simp only [left, Parser.advance, List.length_tail, List.length_append,
        List.length_cons] at hlength
      exact List.length_eq_one_iff.mp (by omega)
    rfl

/-- One parser after another looks no further than each of them. -/
theorem bind {parser : Parser α} {next : α → Parser β} (h : Predictive parser)
    (hnext : ∀ a, Predictive (next a)) : Predictive (parser >>= next) := by
  constructor
  · intro tokens
    have hfirst := h.suffix tokens
    rw [bind_apply]
    cases hrun : parser tokens with
    | error missed => rwa [hrun] at hfirst
    | ok result =>
      rw [hrun] at hfirst
      exact ((hnext result.1).suffix result.2).trans hfirst
  · intro used token rest other hleft
    rw [bind_apply] at hleft ⊢
    rw [bind_apply]
    cases hrun : parser (used ++ token :: rest) with
    | error missed =>
      rw [hrun] at hleft
      rw [h.stable other (by rw [hrun]; exact hleft), hrun]
      rfl
    | ok result =>
      obtain ⟨a, middle⟩ := result
      rw [hrun] at hleft
      simp only at hleft ⊢
      -- the second parser leaves the end of what the first one left
      obtain ⟨second, hsecond⟩ := (hnext a).suffix middle
      rw [hleft] at hsecond
      subst hsecond
      obtain ⟨first, hfirst⟩ := h.suffix (used ++ token :: rest)
      rw [hrun] at hfirst
      obtain rfl : first ++ second = used := by
        rw [left, ← List.append_assoc] at hfirst
        exact List.append_cancel_right hfirst
      -- if the second parser takes nothing, the first one left the token that counts
      cases second with
      | nil =>
        rw [h.stable other (by rw [hrun]; rfl), hrun]
        exact (hnext a).stable other hleft
      | cons head second =>
        simp only [List.append_assoc, List.cons_append] at hrun ⊢
        rw [h.stable (second ++ token :: other) (by rw [hrun]; rfl), hrun]
        exact (hnext a).stable other hleft

end Predictive

/-- Parsers that go step by step look at one token: each step does. -/
theorem Stepwise.predictive {parser : Parser α} (h : Stepwise parser) : Predictive parser := by
  induction h with
  | pure a => exact .pure a
  | miss expected => exact .miss expected
  | advance => exact .advance
  | look _ _ ih => exact Predictive.peek.bind ih
  | bind _ _ ih ihnext => exact ih.bind ihnext

end BlockScript.Parser
