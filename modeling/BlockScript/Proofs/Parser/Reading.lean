import BlockScript.Proofs.Grammar
import BlockScript.Proofs.Lexeme
/-!
# What parsers read

A parser reads phrases of some kind if the tokens that it takes form such a phrase whenever it
succeeds, and if the tokens that it takes before it fails begin some phrase. The second part is what
makes an error point to the first token that is out of place.

The rules below go through a parser step by step. Behind each step the phrase that is still to be
read is what the whole phrase needs after the tokens taken so far.

## Main definitions

* `Parser.Reads` — a parser reads phrases of some kind
* `Parser.ReadsAt` — the same on one list of tokens

## Main results

* `Reads.bind`, `Reads.pure`, `Reads.miss` — steps of any kind
* `Reads.accept`, `Reads.expect`, `Reads.name` — steps that take tokens
-/

namespace BlockScript.Parser

variable {α β : Type}

/-- Kinds and texts of all tokens of a list go together. -/
def AllLexed (tokens : List Token) : Prop :=
  ∀ token ∈ tokens, token.Lexed

instance : DecidablePred AllLexed :=
  fun tokens => inferInstanceAs (Decidable (∀ token ∈ tokens, token.Lexed))

namespace AllLexed

variable {tokens rest : List Token} {token : Token}

theorem nil : AllLexed [] := by
  simp [AllLexed]

theorem cons (h : token.Lexed) (hrest : AllLexed rest) : AllLexed (token :: rest) :=
  List.forall_mem_cons.mpr ⟨h, hrest⟩

theorem head (h : AllLexed (token :: rest)) : token.Lexed :=
  h token List.mem_cons_self

theorem tail (h : AllLexed (token :: rest)) : AllLexed rest :=
  (List.forall_mem_cons.mp h).2

theorem append (h : AllLexed tokens) (hrest : AllLexed rest) : AllLexed (tokens ++ rest) :=
  List.forall_mem_append.mpr ⟨h, hrest⟩

theorem left (h : AllLexed (tokens ++ rest)) : AllLexed tokens :=
  (List.forall_mem_append.mp h).1

theorem right (h : AllLexed (tokens ++ rest)) : AllLexed rest :=
  (List.forall_mem_append.mp h).2

end AllLexed

/-- What a parser does with one list of tokens fits phrases of some kind. -/
structure ReadsAt (parser : Parser α) (phrase : List Token → α → Prop) (tokens : List Token) :
    Prop where
  /-- Success takes the tokens of a phrase. -/
  sound : ∀ {a rest}, parser tokens = .ok (a, rest) →
    ∃ used, tokens = used ++ rest ∧ phrase used a
  /-- Failure is met behind tokens that begin a phrase. -/
  viable : ∀ {missed}, parser tokens = .error missed →
    ∃ used, tokens = used ++ missed.rest ∧
      ∃ more a, AllLexed more ∧ phrase (used ++ more) a

/-- A parser takes phrases of some kind, or the beginnings of such phrases before it fails. -/
def Reads (parser : Parser α) (phrase : List Token → α → Prop) : Prop :=
  ∀ tokens, AllLexed tokens → ReadsAt parser phrase tokens

theorem bind_apply (parser : Parser α) (next : α → Parser β) (tokens : List Token) :
    (parser >>= next) tokens =
      match parser tokens with
      | .ok (a, rest) => next a rest
      | .error missed => .error missed := by
  simp only [bind, StateT.bind, Except.bind]
  cases parser tokens <;> rfl

theorem pure_apply (a : α) (tokens : List Token) : (pure a : Parser α) tokens = .ok (a, tokens) :=
  rfl

/-! ### What the smallest parsers do -/

theorem peek_bind_cons (next : Option Token → Parser α) (token : Token) (rest : List Token) :
    (peek >>= next) (token :: rest) = next (some token) (token :: rest) := rfl

theorem advance_bind_cons (next : Unit → Parser α) (token : Token) (rest : List Token) :
    (advance >>= next) (token :: rest) = next () rest := rfl

theorem accept_of_text_eq {token : Token} {text : String} (rest : List Token)
    (h : token.text = text) : accept text (token :: rest) = .ok (true, rest) := by
  subst h
  simp [accept, sees, peek, advance, bind_apply, pure_apply, -bind_pure_comp]

theorem accept_of_text_ne {token : Token} {text : String} (rest : List Token)
    (h : token.text ≠ text) : accept text (token :: rest) = .ok (false, token :: rest) := by
  simp [accept, sees, peek, bind_apply, pure_apply, h, -bind_pure_comp]

theorem expect_of_text_eq {token : Token} {text : String} (expected : Expectation)
    (rest : List Token) (h : token.text = text) :
    expect text expected (token :: rest) = .ok ((), rest) := by
  rw [expect, bind_apply, accept_of_text_eq rest h]
  rfl

theorem name_of_isName {token : Token} (expected : Expectation) (rest : List Token)
    (h : token.isName = true) : name expected (token :: rest) = .ok (token.text, rest) := by
  simp [name, peek, advance, bind_apply, pure_apply, h, -bind_pure_comp]

theorem operatorOf_of_mem {tier : Tier} {token : Token} (rest : List Token)
    (h : token.text ∈ tier.symbols) :
    operatorOf tier (token :: rest) = .ok (some token.text, rest) := by
  simp [operatorOf, peek, advance, bind_apply, pure_apply, h, -bind_pure_comp]

theorem operatorOf_of_notMem {tier : Tier} {token : Token} (rest : List Token)
    (h : token.text ∉ tier.symbols) :
    operatorOf tier (token :: rest) = .ok (none, token :: rest) := by
  simp [operatorOf, peek, bind_apply, pure_apply, h]

/-! ### Steps -/

namespace ReadsAt

variable {phrase : List Token → α → Prop} {tokens rest : List Token} {token : Token}

/-- Looking at the token at the current place. -/
theorem peek_cons {next : Option Token → Parser α}
    (h : ReadsAt (next (some token)) phrase (token :: rest)) :
    ReadsAt (peek >>= next) phrase (token :: rest) :=
  ⟨fun hok => h.sound hok, fun herror => h.viable herror⟩

theorem peek_nil {next : Option Token → Parser α} (h : ReadsAt (next none) phrase []) :
    ReadsAt (peek >>= next) phrase [] :=
  ⟨fun hok => h.sound hok, fun herror => h.viable herror⟩

/-- Taking the token at the current place. -/
theorem advance {next : Unit → Parser α}
    (h : ReadsAt (next ()) (fun used a => phrase (token :: used) a) rest) :
    ReadsAt (advance >>= next) phrase (token :: rest) where
  sound {a after} hok := by
    obtain ⟨used, rfl, hphrase⟩ := h.sound (show next () rest = _ from hok)
    exact ⟨token :: used, rfl, hphrase⟩
  viable {missed} herror := by
    obtain ⟨used, hrest, hmore⟩ := h.viable (show next () rest = _ from herror)
    exact ⟨token :: used, by rw [hrest, List.cons_append], hmore⟩

end ReadsAt

namespace Reads

variable {phrase : List Token → α → Prop}

/-- A result without a token more. -/
theorem pure {a : α} (h : phrase [] a) : Reads (Pure.pure a) phrase := by
  intro tokens _
  constructor
  · intro b rest hok
    cases hok
    exact ⟨[], rfl, h⟩
  · intro missed herror
    cases herror

/-- A failure at the current place, where some phrase could stand. -/
theorem miss {expected : Expectation} (h : ∃ used a, AllLexed used ∧ phrase used a) :
    Reads (Parser.miss expected) phrase := by
  intro tokens _
  constructor
  · intro b rest hok
    cases hok
  · intro missed herror
    cases herror
    exact ⟨[], rfl, h⟩

/-- A parser that reads phrases of some kind shows that there are such phrases. -/
theorem exists_phrase {parser : Parser α} (h : Reads parser phrase) :
    ∃ used a, AllLexed used ∧ phrase used a := by
  -- with no tokens at hand a parser takes none, so what it still wants is a whole phrase
  cases hrun : parser [] with
  | ok result =>
    obtain ⟨used, hnil, hphrase⟩ := (h [] .nil).sound hrun
    obtain ⟨rfl, -⟩ := List.append_eq_nil_iff.mp hnil.symm
    exact ⟨[], result.1, .nil, hphrase⟩
  | error missed =>
    obtain ⟨used, hnil, more, a, hlexed, hphrase⟩ := (h [] .nil).viable hrun
    obtain ⟨rfl, -⟩ := List.append_eq_nil_iff.mp hnil.symm
    exact ⟨more, a, hlexed, hphrase⟩

/-- Phrases may be weakened. -/
theorem mono {parser : Parser α} {weaker : List Token → α → Prop} (h : Reads parser phrase)
    (himp : ∀ used a, phrase used a → weaker used a) : Reads parser weaker := by
  intro tokens htokens
  constructor
  · intro a rest hok
    obtain ⟨used, hused, hphrase⟩ := (h tokens htokens).sound hok
    exact ⟨used, hused, himp _ _ hphrase⟩
  · intro missed herror
    obtain ⟨used, hused, more, a, hmore, hphrase⟩ := (h tokens htokens).viable herror
    exact ⟨used, hused, more, a, hmore, himp _ _ hphrase⟩

/-- One parser after another: the second one reads what is still missing behind the tokens that the
first one took. -/
theorem bind {parser : Parser α} {next : α → Parser β} {whole : List Token → β → Prop}
    (h : Reads parser phrase)
    (hnext : ∀ a first, phrase first a → Reads (next a) fun used b => whole (first ++ used) b) :
    Reads (parser >>= next) whole := by
  intro tokens htokens
  constructor
  · intro b rest hok
    rw [bind_apply] at hok
    cases hfirst : parser tokens with
    | error missed =>
      rw [hfirst] at hok
      cases hok
    | ok result =>
      rw [hfirst] at hok
      -- both succeed, and the phrases stand one behind the other
      obtain ⟨first, rfl, hphrase⟩ := (h tokens htokens).sound hfirst
      obtain ⟨used, hused, hwhole⟩ := (hnext _ _ hphrase _ htokens.right).sound hok
      exact ⟨first ++ used, by rw [hused, List.append_assoc], hwhole⟩
  · intro missed herror
    rw [bind_apply] at herror
    cases hfirst : parser tokens with
    | error earlier =>
      rw [hfirst] at herror
      cases herror
      -- the rest of the first phrase is followed by any rest of the whole
      obtain ⟨used, hused, more, a, hmore, hphrase⟩ := (h tokens htokens).viable hfirst
      obtain ⟨others, b, hothers, hwhole⟩ := (hnext _ _ hphrase).exists_phrase
      exact ⟨used, hused, more ++ others, b, hmore.append hothers, by
        rwa [← List.append_assoc]⟩
    | ok result =>
      rw [hfirst] at herror
      obtain ⟨first, rfl, hphrase⟩ := (h tokens htokens).sound hfirst
      -- the second parser failed, behind a phrase that the first one took
      obtain ⟨used, hused, more, b, hmore, hwhole⟩ :=
        (hnext _ _ hphrase _ htokens.right).viable herror
      exact ⟨first ++ used, by rw [hused, List.append_assoc], more, b, hmore, by
        rwa [List.append_assoc]⟩

/-- A look at the current place that does not matter for what is read. -/
theorem peek {next : Option Token → Parser α} (h : ∀ seen, Reads (next seen) phrase) :
    Reads (Parser.peek >>= next) phrase := by
  intro tokens htokens
  cases tokens with
  | nil => exact .peek_nil (h _ _ htokens)
  | cons token rest => exact .peek_cons (h _ _ htokens)

theorem sees {texts : List String} {next : Bool → Parser α}
    (h : ∀ seen, Reads (next seen) phrase) : Reads (Parser.sees texts >>= next) phrase := by
  rw [Parser.sees, bind_assoc]
  refine peek fun seen => ?_
  rw [pure_bind]
  exact h _

/-- A token that is taken if it is there. -/
private theorem accept {kind : TokenKind} {text : String} {next : Bool → Parser α}
    (htext : Token.Lexed ⟨kind, text, 0⟩)
    (hyes : ∀ token : Token, token.kind = kind → token.text = text →
      Reads (next true) fun used a => phrase (token :: used) a)
    (hno : Reads (next false) phrase) : Reads (Parser.accept text >>= next) phrase := by
  rw [Parser.accept, Parser.sees, bind_assoc, bind_assoc]
  intro tokens htokens
  cases tokens with
  | nil => exact .peek_nil (hno _ htokens)
  | cons token rest =>
    refine .peek_cons ?_
    by_cases h : token.text = text
    · have hkind : token.kind = kind := htokens.head.kind_eq htext h
      simp only [pure_bind, Option.any_some, List.contains_cons, h, BEq.rfl, Bool.true_or,
        if_true, bind_assoc]
      exact .advance (hyes token hkind h rest htokens.tail)
    · simp only [pure_bind, Option.any_some, List.contains_cons, beq_eq_false_iff_ne.mpr h,
        List.contains_nil, Bool.or_false, Bool.false_eq_true, if_false]
      exact hno _ htokens

/-- A token that must be there. -/
private theorem expect {kind : TokenKind} {text : String} {expected : Expectation}
    {next : Unit → Parser α} (htext : Token.Lexed ⟨kind, text, 0⟩)
    (h : ∀ token : Token, token.kind = kind → token.text = text →
      Reads (next ()) fun used a => phrase (token :: used) a) :
    Reads (Parser.expect text expected >>= next) phrase := by
  rw [Parser.expect, bind_assoc]
  refine accept htext ?_ ?_
  · intro token hkind htoken
    simpa using h token hkind htoken
  · obtain ⟨used, a, hused, hphrase⟩ := (h ⟨kind, text, 0⟩ rfl rfl).exists_phrase
    -- where the token is missing it could be put in, and the phrase completed behind it
    have hmiss : Reads (Parser.miss expected) fun used' (_ : Unit) =>
        ∃ token, used' = [token] ∧ token.kind = kind ∧ token.text = text :=
      miss ⟨_, (), .cons htext .nil, _, rfl, rfl, rfl⟩
    refine bind (by simpa using hmiss) ?_
    rintro _ _ ⟨token, rfl, hkind, htoken⟩
    exact h token hkind htoken

theorem acceptMark {text : String} {next : Bool → Parser α}
    (htext : Token.Lexed ⟨.operator, text, 0⟩)
    (hyes : ∀ token : Token, token.IsMark text →
      Reads (next true) fun used a => phrase (token :: used) a)
    (hno : Reads (next false) phrase) : Reads (Parser.accept text >>= next) phrase :=
  accept htext (fun token hkind htoken => hyes token ⟨hkind, htoken⟩) hno

theorem acceptWord {text : String} {next : Bool → Parser α}
    (htext : Token.Lexed ⟨.identifier, text, 0⟩)
    (hyes : ∀ token : Token, token.IsWord text →
      Reads (next true) fun used a => phrase (token :: used) a)
    (hno : Reads (next false) phrase) : Reads (Parser.accept text >>= next) phrase :=
  accept htext (fun token hkind htoken => hyes token ⟨hkind, htoken⟩) hno

theorem expectMark {text : String} {expected : Expectation} {next : Unit → Parser α}
    (htext : Token.Lexed ⟨.operator, text, 0⟩)
    (h : ∀ token : Token, token.IsMark text →
      Reads (next ()) fun used a => phrase (token :: used) a) :
    Reads (Parser.expect text expected >>= next) phrase :=
  expect htext fun token hkind htoken => h token ⟨hkind, htoken⟩

theorem expectWord {text : String} {expected : Expectation} {next : Unit → Parser α}
    (htext : Token.Lexed ⟨.identifier, text, 0⟩)
    (h : ∀ token : Token, token.IsWord text →
      Reads (next ()) fun used a => phrase (token :: used) a) :
    Reads (Parser.expect text expected >>= next) phrase :=
  expect htext fun token hkind htoken => h token ⟨hkind, htoken⟩

/-- A name. -/
theorem name {expected : Expectation} {next : String → Parser α}
    (h : ∀ token : Token, token.isName = true →
      Reads (next token.text) fun used a => phrase (token :: used) a) :
    Reads (Parser.name expected >>= next) phrase := by
  have hname : Reads (Parser.name expected) fun used text =>
      ∃ token, used = [token] ∧ token.isName = true ∧ text = token.text := by
    -- any name could be put in
    have hmiss : Reads (Parser.miss expected) fun used text =>
        ∃ token, used = [token] ∧ token.isName = true ∧ text = token.text :=
      miss ⟨[⟨.identifier, "x", 0⟩], "x", by decide, _, rfl, by decide, rfl⟩
    intro tokens htokens
    rw [Parser.name]
    cases tokens with
    | nil => exact .peek_nil (hmiss _ htokens)
    | cons token rest =>
      refine .peek_cons ?_
      by_cases hisName : token.isName
      · simp only [hisName, if_true]
        exact .advance (pure ⟨token, rfl, hisName, rfl⟩ rest htokens.tail)
      · simp only [hisName]
        exact hmiss _ htokens
  refine bind hname ?_
  rintro _ _ ⟨token, rfl, hisName, rfl⟩
  exact h token hisName

end Reads

end BlockScript.Parser
