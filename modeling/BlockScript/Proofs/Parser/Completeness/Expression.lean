import BlockScript.Proofs.Parser.Soundness
/-!
# Parsers find every expression

With enough fuel a parser takes every phrase of its rule, whatever tokens follow, as long as the
first of them could not prolong the phrase.

An expression with operators is not taken in one piece. A parser that has taken a shorter
expression of the same tier goes on from there, and so the induction says how it goes on.

## Main definitions

* `Parser.Takes` — a parser takes a phrase if what follows is fit
* `Parser.Stops` — the first of the tokens that follow has none of some texts
* `Parser.Reaches` — a parser goes on behind an expression as it does behind an operand

## Main results

* `takes_expression` — an expression is taken if no operator and no bracket follows
-/

namespace BlockScript.Parser

open Grammar
open Token (IsWord IsMark)

variable {α β : Type}

/-! ### Taking a phrase -/

/-- With enough fuel a parser takes some tokens, whatever fit tokens follow. -/
def Takes (parser : Nat → Parser α) (fits : List Token → Prop) (used : List Token) (a : α) :
    Prop :=
  ∃ enough, ∀ fuel, enough ≤ fuel → ∀ rest, fits rest →
    parser fuel (used ++ rest) = .ok (a, rest)

/-- It is enough to look at the fuel that is left behind the first call. -/
theorem Takes.of_succ {parser : Nat → Parser α} {fits : List Token → Prop} {used : List Token}
    {a : α} (enough : Nat) (h : ∀ fuel, enough ≤ fuel → ∀ rest, fits rest →
      parser (fuel + 1) (used ++ rest) = .ok (a, rest)) : Takes parser fits used a := by
  refine ⟨enough + 1, fun fuel hfuel => ?_⟩
  obtain ⟨less, rfl⟩ := Nat.exists_eq_add_of_le' hfuel
  exact h (less + enough) (by omega)

/-- The first token has none of the given texts, if there is a token. -/
def Stops (texts : List String) (tokens : List Token) : Prop :=
  ∀ token ∈ tokens.head?, token.text ∉ texts

namespace Stops

theorem nil (texts : List String) : Stops texts [] := by
  simp [Stops]

theorem cons {texts : List String} {token : Token} {rest : List Token}
    (h : token.text ∉ texts) : Stops texts (token :: rest) := by
  simpa [Stops] using h

/-- A token with one text is none with another text. -/
theorem of_text {texts : List String} {text : String} {token : Token} {rest : List Token}
    (htoken : token.text = text) (h : text ∉ texts) : Stops texts (token :: rest) :=
  cons (htoken ▸ h)

theorem mono {texts fewer : List String} {tokens : List Token} (h : Stops texts tokens)
    (hsub : fewer ⊆ texts) : Stops fewer tokens :=
  fun token htoken hmem => h token htoken (hsub hmem)

end Stops

theorem bind_of_ok {parser : Parser α} {tokens rest : List Token} {a : α}
    (next : α → Parser β) (h : parser tokens = .ok (a, rest)) :
    (parser >>= next) tokens = next a rest := by
  rw [bind_apply, h]

theorem accept_of_stops {text : String} {tokens : List Token} (h : Stops [text] tokens) :
    accept text tokens = .ok (false, tokens) := by
  cases tokens with
  | nil => rfl
  | cons token rest =>
    exact accept_of_text_ne rest fun htext => h token rfl (by simp [htext])

/-- A token that is taken if it is there decides how a parser goes on. -/
theorem bind_accept_cons (text : String) (yes no : Parser α) (token : Token) (rest : List Token) :
    (accept text >>= fun found => if found = true then yes else no) (token :: rest) =
      if token.text = text then yes rest else no (token :: rest) := by
  by_cases h : token.text = text
  · rw [bind_of_ok _ (accept_of_text_eq rest h), if_pos h]
    rfl
  · rw [bind_of_ok _ (accept_of_text_ne rest h), if_neg h]
    rfl

theorem sees_of_mem {texts : List String} {token : Token} (rest : List Token)
    (h : token.text ∈ texts) : sees texts (token :: rest) = .ok (true, token :: rest) := by
  simp [sees, peek, bind_apply, pure_apply, h, -bind_pure_comp]

theorem sees_of_stops {texts : List String} {tokens : List Token} (h : Stops texts tokens) :
    sees texts tokens = .ok (false, tokens) := by
  cases tokens with
  | nil => rfl
  | cons token rest =>
    have htext : token.text ∉ texts := h token rfl
    simp [sees, peek, bind_apply, pure_apply, htext, -bind_pure_comp]

theorem operatorOf_of_stops {tier : Tier} {tokens : List Token} (h : Stops tier.symbols tokens) :
    operatorOf tier tokens = .ok (none, tokens) := by
  cases tokens with
  | nil => rfl
  | cons token rest => exact operatorOf_of_notMem rest (h token rfl)

/-! ### First tokens -/

/-- The texts that no expression begins with, as far as a parser looks for them. -/
def unopened : List String :=
  [")", ":", "LET", "SWITCH", "IF", "WHILE", "RETURN"] ++ blockEnds

theorem unopened_lexed {text : String} (h : text ∈ unopened) :
    Token.Lexed ⟨.operator, text, 0⟩ ∨
      text ∈ keywords ∧ Token.Lexed ⟨.identifier, text, 0⟩ := by
  revert text
  decide

theorem notMem_unopened_of_isName {token : Token} (htoken : token.Lexed)
    (h : token.isName = true) : token.text ∉ unopened := by
  intro hmem
  obtain ⟨hkind, hkeyword⟩ : token.kind = .identifier ∧ token.text ∉ keywords := by
    simpa [Token.isName] using h
  -- marks are no identifiers, and keywords are no names
  rcases unopened_lexed hmem with hlexed | ⟨hmem', -⟩
  · cases hkind.symm.trans (htoken.kind_eq hlexed rfl)
  · exact hkeyword hmem'

theorem notMem_unopened_of_literal {token : Token} {value : Scalar} (htoken : token.Lexed)
    (h : Literal token value) : token.text ∉ unopened := by
  have hkinds : token.kind ≠ .operator → token.kind ≠ .identifier → token.text ∉ unopened := by
    intro hoperator hidentifier hmem
    rcases unopened_lexed hmem with hlexed | ⟨-, hlexed⟩
    · exact hoperator (htoken.kind_eq hlexed rfl)
    · exact hidentifier (htoken.kind_eq hlexed rfl)
  cases h with
  | nil hword => rw [hword.2]; decide
  | true hword => rw [hword.2]; decide
  | false hword => rw [hword.2]; decide
  | integer hkind => exact hkinds (by simp [hkind]) (by simp [hkind])
  | decimal hkind => exact hkinds (by simp [hkind]) (by simp [hkind])
  | character hkind => exact hkinds (by simp [hkind]) (by simp [hkind])
  | string hkind => exact hkinds (by simp [hkind]) (by simp [hkind])

/-- There is a first token, and it has none of the given texts. -/
def Opens (texts : List String) (tokens : List Token) : Prop :=
  ∃ token rest, tokens = token :: rest ∧ token.text ∉ texts

namespace Opens

variable {texts fewer : List String} {tokens : List Token}

theorem of_text {token : Token} {text : String} {rest : List Token} (htoken : token.text = text)
    (h : text ∉ texts) : Opens texts (token :: rest) :=
  ⟨token, rest, rfl, htoken ▸ h⟩

theorem append (h : Opens texts tokens) (rest : List Token) : Opens texts (tokens ++ rest) := by
  obtain ⟨token, others, rfl, htext⟩ := h
  exact ⟨token, others ++ rest, rfl, htext⟩

theorem mono (h : Opens texts tokens) (hsub : fewer ⊆ texts) : Opens fewer tokens := by
  obtain ⟨token, others, rfl, htext⟩ := h
  exact ⟨token, others, rfl, fun hmem => htext (hsub hmem)⟩

theorem stops (h : Opens texts tokens) : Stops texts tokens := by
  obtain ⟨token, others, rfl, htext⟩ := h
  exact .cons htext

end Opens

theorem opens_primary {used : List Token} {node : Node} (h : Primary used node)
    (hused : AllLexed used) : Opens unopened used := by
  cases h with
  | literal h => exact ⟨_, _, rfl, notMem_unopened_of_literal hused.head h⟩
  | group hopening => exact .of_text hopening.2 (by decide)
  | «variable» hname => exact ⟨_, _, rfl, notMem_unopened_of_isName hused.head hname⟩
  | element hname => exact ⟨_, _, rfl, notMem_unopened_of_isName hused.head hname⟩
  | call hname => exact ⟨_, _, rfl, notMem_unopened_of_isName hused.head hname⟩

mutual

theorem opens_expression : ∀ {tier : Tier} {used : List Token} {node : Node},
    Expression tier used node → AllLexed used → Opens unopened used
  | _, _, _, .operand h, hused => opens_operand h hused
  | _, _, _, .binary h _ _ _, hused => (opens_expression h hused.left).append _

theorem opens_operand : ∀ {tier : Tier} {used : List Token} {node : Node},
    Operand tier used node → AllLexed used → Opens unopened used
  | _, _, _, .tighter _ h, hused => opens_expression h hused
  | _, _, _, .primary _ h, hused => opens_primary h hused

end

theorem opens_expressions {used : List Token} {nodes : List Node} (h : Expressions used nodes)
    (hused : AllLexed used) : Opens unopened used := by
  cases h with
  | one h => exact opens_expression h hused
  | cons h => exact (opens_expression h hused.left).append _

/-! ### Expressions -/

/-- The texts that prolong an operand of a tier. -/
def Tier.operandBars : Tier → List String
  | .multiplying => ["(", "["]
  | .adding => Tier.multiplying.symbols ++ ["(", "["]
  | .comparing => Tier.adding.symbols ++ (Tier.multiplying.symbols ++ ["(", "["])
  | .logical =>
    Tier.comparing.symbols ++ (Tier.adding.symbols ++ (Tier.multiplying.symbols ++ ["(", "["]))

/-- The texts that prolong an expression of a tier. -/
def Tier.bars (t : Tier) : List String :=
  t.symbols ++ t.operandBars

theorem Tier.bars_tighter {t next : Tier} (h : t.tighter? = some next) :
    next.bars = t.operandBars := by
  cases t <;> cases h <;> rfl

theorem Tier.operandBars_tightest {t : Tier} (h : t.tighter? = none) :
    t.operandBars = ["(", "["] := by
  cases t <;> cases h
  rfl

/-- An operator of a tier does not prolong an operand of the tier. -/
theorem Tier.notMem_operandBars {t : Tier} {text : String} (h : text ∈ t.symbols) :
    text ∉ t.operandBars := by
  revert text
  cases t <;> decide

theorem literal?_of_literal {token : Token} {value : Scalar} (htoken : token.Lexed)
    (h : Literal token value) : literal? token = some value := by
  have hlexed : ∀ text ∈ ["NIL", "TRUE", "FALSE"], Token.Lexed ⟨.identifier, text, 0⟩ := by
    decide
  have hword : ∀ text ∈ ["NIL", "TRUE", "FALSE"], token.kind ≠ .identifier → token.text ≠ text :=
    fun text htext hkind heq => hkind (htoken.kind_eq (hlexed text htext) heq)
  have hother : token.kind ≠ .identifier → token.text ≠ "NIL" ∧ token.text ≠ "TRUE" ∧
      token.text ≠ "FALSE" :=
    fun hkind => ⟨hword _ (by simp) hkind, hword _ (by simp) hkind, hword _ (by simp) hkind⟩
  cases h with
  | nil h => simp [literal?, h.2]
  | true h => simp [literal?, h.2]
  | false h => simp [literal?, h.2]
  | integer hkind hn => simp [literal?, hkind, hother, hn]
  | decimal hkind hd => simp [literal?, hkind, hother, hd]
  | character hkind => simp [literal?, hkind, hother]
  | string hkind => simp [literal?, hkind, hother]

theorem literal?_of_isName {token : Token} (h : token.isName = true) : literal? token = none := by
  obtain ⟨hkind, hkeyword⟩ : token.kind = .identifier ∧ token.text ∉ keywords := by
    simpa [Token.isName] using h
  have hne : ∀ text ∈ keywords, token.text ≠ text := fun text htext heq => hkeyword (heq ▸ htext)
  simp [literal?, hkind, hne "NIL" (by decide), hne "TRUE" (by decide), hne "FALSE" (by decide)]

theorem literal?_of_isMark {token : Token} {text : String} (h : token.IsMark text)
    (hword : text ∉ keywords) : literal? token = none := by
  have hne : ∀ word ∈ keywords, text ≠ word := fun word hmem heq => hword (heq ▸ hmem)
  simp [literal?, h.1, h.2, hne "NIL" (by decide), hne "TRUE" (by decide),
    hne "FALSE" (by decide)]

/-- An identifier is no operator. -/
theorem text_ne_of_isName {token : Token} {text : String} (htoken : token.Lexed)
    (h : token.isName = true) (hlexed : Token.Lexed ⟨.operator, text, 0⟩) : token.text ≠ text := by
  intro htext
  have hkind : token.kind = .identifier := by
    simp only [Token.isName, Bool.and_eq_true, beq_iff_eq] at h
    exact h.1
  cases hkind.symm.trans (htoken.kind_eq hlexed htext)

/-- Behind a name, parentheses or brackets may follow. -/
theorem primary_of_isName {token : Token} (fuel : Nat) (rest : List Token) (htoken : token.Lexed)
    (h : token.isName = true) :
    primary (fuel + 1) (token :: rest) = (do
      if ← accept "(" then
        return .call token.text (← arguments fuel) none none
      else if ← accept "[" then
        let offset ← tier fuel .logical
        expect "]" .offsetEnd
        return .access token.text offset none none
      else
        return .access token.text .null none none : Parser Node) rest := by
  have hopening : token.text ≠ "(" := text_ne_of_isName htoken h (by decide)
  rw [primary, peek_bind_cons]
  simp only [literal?_of_isName h, hopening, if_false, h, if_true]
  rfl

/-- With enough fuel a parser goes on behind an expression as it does behind an operand. -/
def Reaches (t : Tier) (used : List Token) (node : Node) : Prop :=
  ∃ count enough, ∀ fuel, enough ≤ fuel → ∀ rest, Stops t.operandBars rest →
    tier (fuel + count) t (used ++ rest) = tierRest fuel t node rest

theorem Reaches.takes {t : Tier} {used : List Token} {node : Node} (h : Reaches t used node) :
    Takes (tier · t) (Stops t.bars) used node := by
  obtain ⟨count, enough, h⟩ := h
  refine ⟨enough + count + 1, fun fuel hfuel rest hrest => ?_⟩
  obtain ⟨less, rfl⟩ := Nat.exists_eq_add_of_le' hfuel
  have hreach := h (less + enough + 1) (by omega) rest
    (hrest.mono (List.subset_append_right _ _))
  -- behind the expression no operator of the tier follows, so the parser stops
  rw [show less + enough + 1 + count = less + (enough + count + 1) by omega] at hreach
  simp only
  rw [hreach, tierRest,
    bind_of_ok _ (operatorOf_of_stops (hrest.mono (List.subset_append_left _ _)))]
  rfl

mutual

theorem reaches_expression : ∀ {t : Tier} {used : List Token} {node : Node},
    Expression t used node → AllLexed used → Reaches t used node
  | t, used, node, .operand h, hused => by
    obtain ⟨enough, h⟩ := takes_operand h hused
    -- one unit of fuel goes from the tier to its first operand
    refine ⟨1, enough, fun fuel hfuel rest hrest => ?_⟩
    rw [tier, bind_of_ok _ (h fuel hfuel rest hrest)]
  | t, _, _, @Expression.binary _ left right a b op hleft hkind hop hright, hused => by
    obtain ⟨count, enough, hreach⟩ := reaches_expression hleft hused.left
    obtain ⟨enough', hoperand⟩ := takes_operand hright hused.right.tail
    refine ⟨count + 1, enough + enough', fun fuel hfuel rest hrest => ?_⟩
    -- the operator stops the left part, and is then taken with the operand behind it
    have hstops : Stops t.operandBars (op :: (right ++ rest)) :=
      .cons (Tier.notMem_operandBars hop)
    rw [List.append_assoc, List.cons_append, show fuel + (count + 1) = fuel + 1 + count by omega,
      hreach (fuel + 1) (by omega) _ hstops, tierRest,
      bind_of_ok _ (operatorOf_of_mem (right ++ rest) hop)]
    exact bind_of_ok _ (hoperand fuel (by omega) rest hrest)

theorem takes_operand : ∀ {t : Tier} {used : List Token} {node : Node},
    Operand t used node → AllLexed used → Takes (operand · t) (Stops t.operandBars) used node
  | t, used, node, .tighter hnext h, hused => by
    obtain ⟨enough, h⟩ := (reaches_expression h hused).takes
    refine .of_succ enough fun fuel hfuel rest hrest => ?_
    rw [operand, hnext]
    exact h fuel hfuel rest (Tier.bars_tighter hnext ▸ hrest)
  | t, used, node, .primary hnext h, hused => by
    obtain ⟨enough, h⟩ := takes_primary h hused
    refine .of_succ enough fun fuel hfuel rest hrest => ?_
    rw [operand, hnext]
    exact h fuel hfuel rest (Tier.operandBars_tightest hnext ▸ hrest)

theorem takes_primary : ∀ {used : List Token} {node : Node},
    Primary used node → AllLexed used → Takes primary (Stops ["(", "["]) used node
  | _, _, @Primary.literal token value h, hused => by
    refine .of_succ 0 fun fuel _ rest _ => ?_
    rw [List.singleton_append, primary, peek_bind_cons]
    simp only [literal?_of_literal hused.head h]
    rfl
  | _, _, @Primary.group opening used inner closing hopening h hclosing, hused => by
    obtain ⟨enough, h⟩ := (reaches_expression h hused.tail.left).takes
    refine .of_succ enough fun fuel hfuel rest hrest => ?_
    have hinner := h fuel hfuel (closing :: rest) (.of_text hclosing.2 (by decide))
    rw [List.cons_append, List.append_assoc, List.singleton_append, primary, peek_bind_cons]
    simp only [literal?_of_isMark hopening (by decide), hopening.2, if_true]
    rw [advance_bind_cons, bind_of_ok _ hinner,
      bind_of_ok _ (expect_of_text_eq _ rest hclosing.2)]
    rfl
  | _, _, @Primary.variable token hname, hused => by
    refine .of_succ 0 fun fuel _ rest hrest => ?_
    rw [List.singleton_append, primary_of_isName fuel rest hused.head hname,
      bind_of_ok _ (accept_of_stops (hrest.mono (by simp)))]
    simp only [Bool.false_eq_true, if_false]
    rw [bind_of_ok _ (accept_of_stops (hrest.mono (by simp)))]
    rfl
  | _, _, @Primary.element token opening used offset closing hname hopening h hclosing, hused => by
    obtain ⟨enough, h⟩ := (reaches_expression h hused.tail.tail.left).takes
    refine .of_succ enough fun fuel hfuel rest hrest => ?_
    have hoffset := h fuel hfuel (closing :: rest) (.of_text hclosing.2 (by decide))
    rw [List.cons_append, List.cons_append, List.append_assoc, List.singleton_append,
      primary_of_isName fuel _ hused.head hname,
      bind_of_ok _ (accept_of_text_ne _ (by rw [hopening.2]; decide))]
    simp only [Bool.false_eq_true, if_false]
    rw [bind_of_ok _ (accept_of_text_eq _ hopening.2)]
    simp only [if_true]
    rw [bind_of_ok _ hoffset, bind_of_ok _ (expect_of_text_eq _ rest hclosing.2)]
    rfl
  | _, _, @Primary.call token opening used nodes closing hname hopening h hclosing, hused => by
    obtain ⟨enough, h⟩ := takes_arguments h hused.tail.tail.left hclosing
    refine .of_succ enough fun fuel hfuel rest hrest => ?_
    rw [List.cons_append, List.cons_append, primary_of_isName fuel _ hused.head hname,
      bind_of_ok _ (accept_of_text_eq _ hopening.2)]
    simp only [if_true]
    rw [bind_of_ok _ (h fuel hfuel rest trivial)]
    rfl

theorem takes_arguments : ∀ {used : List Token} {nodes : List Node} {closing : Token},
    Arguments used nodes → AllLexed used → IsMark ")" closing →
      Takes arguments (fun _ => True) (used ++ [closing]) nodes
  | _, _, closing, .none, _, hclosing => by
    refine .of_succ 0 fun fuel _ rest _ => ?_
    rw [List.nil_append, List.singleton_append, arguments,
      bind_of_ok _ (accept_of_text_eq rest hclosing.2)]
    rfl
  | used, _, closing, .some h, hused, hclosing => by
    have hopens := (opens_expressions h hused).append
    obtain ⟨enough, h⟩ := takes_expressions h hused
    refine .of_succ enough fun fuel hfuel rest _ => ?_
    have hvalues := h fuel hfuel (closing :: rest) (.of_text hclosing.2 (by decide))
    rw [List.append_assoc, List.singleton_append, arguments,
      bind_of_ok _ (accept_of_stops ((hopens _).stops.mono (by decide)))]
    simp only [Bool.false_eq_true, if_false]
    rw [bind_of_ok _ hvalues, bind_of_ok _ (expect_of_text_eq _ rest hclosing.2)]
    rfl

theorem takes_expressions : ∀ {used : List Token} {nodes : List Node},
    Expressions used nodes → AllLexed used →
      Takes expressions (Stops ("," :: Tier.logical.bars)) used nodes
  | _, _, .one h, hused => by
    obtain ⟨enough, h⟩ := (reaches_expression h hused).takes
    refine .of_succ enough fun fuel hfuel rest hrest => ?_
    rw [expressions, bind_of_ok _ (h fuel hfuel rest (hrest.mono (List.subset_cons_self _ _))),
      bind_of_ok _ (accept_of_stops (hrest.mono (by simp)))]
    rfl
  | _, _, @Expressions.cons used node comma others nodes h hcomma hothers, hused => by
    obtain ⟨enough, h⟩ := (reaches_expression h hused.left).takes
    obtain ⟨enough', hothers⟩ := takes_expressions hothers hused.right.tail
    refine .of_succ (enough + enough') fun fuel hfuel rest hrest => ?_
    have hfirst := h fuel (by omega) (comma :: (others ++ rest)) (.of_text hcomma.2 (by decide))
    rw [List.append_assoc, List.cons_append, expressions, bind_of_ok _ hfirst,
      bind_of_ok _ (accept_of_text_eq _ hcomma.2)]
    simp only [if_true]
    rw [bind_of_ok _ (hothers fuel (by omega) rest hrest)]
    rfl

end

/-- An expression is taken if no operator and no bracket follows. -/
theorem takes_expression {used : List Token} {node : Node} (h : Expression .logical used node)
    (hused : AllLexed used) : Takes expression (Stops Tier.logical.bars) used node :=
  (reaches_expression h hused).takes

end BlockScript.Parser
