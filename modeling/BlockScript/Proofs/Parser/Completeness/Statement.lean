import BlockScript.Proofs.Parser.Completeness.Expression
/-!
# Parsers find every statement

A statement says where it ends, so it is taken whatever follows. A block does not: it goes on up to
a keyword that no statement begins with, and the rules that contain blocks have such a keyword
behind each of them.

## Main definitions

* `Parser.EndsBlock` — what may follow a block

## Main results

* `takes_statement` — a statement is taken whatever follows
* `takes_block` — a block is taken up to the keyword behind it
-/

namespace BlockScript.Parser

open Grammar
open Token (IsWord IsMark)

theorem typeSuffix_of_derives {used : List Token} {type : Option String}
    (h : TypeSuffix used type) {rest : List Token} (hrest : Stops [":"] rest) :
    typeSuffix (used ++ rest) = .ok (type, rest) := by
  cases h with
  | absent =>
    rw [List.nil_append, typeSuffix, bind_of_ok _ (accept_of_stops hrest)]
    rfl
  | present hcolon htype =>
    rw [List.cons_append, typeSuffix, bind_of_ok _ (accept_of_text_eq _ hcolon.2)]
    simp only [if_true]
    rw [List.singleton_append, bind_of_ok _ (name_of_isName _ rest htype)]
    rfl

theorem takes_initializer {used : List Token} {value : Node} (h : Initial used value)
    (hused : AllLexed used) :
    Takes initializer (Stops ("=" :: Tier.logical.bars)) used value := by
  cases h with
  | absent =>
    refine ⟨0, fun fuel _ rest hrest => ?_⟩
    rw [List.nil_append, initializer, bind_of_ok _ (accept_of_stops (hrest.mono (by simp)))]
    rfl
  | present hsign hvalue =>
    obtain ⟨enough, hvalue⟩ := takes_expression hvalue hused.tail
    refine ⟨enough, fun fuel hfuel rest hrest => ?_⟩
    rw [List.cons_append, initializer, bind_of_ok _ (accept_of_text_eq _ hsign.2)]
    exact hvalue fuel hfuel rest (hrest.mono (List.subset_cons_self _ _))

theorem stops_initial {initial rest : List Token} {value : Node} {texts : List String}
    (h : Initial initial value) (hsign : "=" ∉ texts) (hrest : Stops texts rest) :
    Stops texts (initial ++ rest) := by
  cases h with
  | absent => exact hrest
  | present h => exact .of_text h.2 hsign

/-- What may follow a block: nothing, or a keyword that no statement begins with. -/
def EndsBlock (tokens : List Token) : Prop :=
  ∀ token ∈ tokens.head?, token.text ∈ blockEnds

theorem EndsBlock.of_text {token : Token} {text : String} {rest : List Token}
    (htoken : token.text = text) (h : text ∈ blockEnds) : EndsBlock (token :: rest) := by
  simpa [EndsBlock, htoken] using h

theorem block_of_endsBlock (fuel : Nat) {tokens : List Token} (h : EndsBlock tokens) :
    block (fuel + 1) tokens = .ok ([], tokens) := by
  cases tokens with
  | nil => rfl
  | cons token rest =>
    have htext : blockEnds.contains token.text = true := List.contains_iff_mem.mpr (h token rfl)
    rw [block, peek_bind_cons, sees, bind_assoc, peek_bind_cons]
    simp only [Option.any_some, htext, Bool.or_true, pure_bind, if_true]
    rfl

theorem block_of_opens (fuel : Nat) {tokens : List Token} (h : Opens blockEnds tokens) :
    block (fuel + 1) tokens = (do
      let first ← statement fuel
      let rest ← block fuel
      return first :: rest : Parser (List Node)) tokens := by
  obtain ⟨token, rest, rfl, htext⟩ := h
  rw [block, peek_bind_cons, sees, bind_assoc, peek_bind_cons]
  simp only [Option.any_some, List.contains_iff_mem, htext, Bool.or_eq_true, Option.isNone_some,
    Bool.false_eq_true, or_self, pure_bind, if_false]

theorem opens_statement {used : List Token} {node : Node} (h : Statement used node)
    (hused : AllLexed used) : Opens (":" :: blockEnds) used := by
  cases h with
  | declaration hword => exact .of_text hword.2 (by decide)
  | switch hword => exact .of_text hword.2 (by decide)
  | branch hword => exact .of_text hword.2 (by decide)
  | branchElse hword => exact .of_text hword.2 (by decide)
  | loop hword => exact .of_text hword.2 (by decide)
  | ret hword => exact .of_text hword.2 (by decide)
  | assignment hreceiver =>
    exact ((opens_expression hreceiver hused.left).mono (by decide)).append _
  | discard hexpression =>
    exact ((opens_expression hexpression hused.left).mono (by decide)).append _

theorem stops_block {used rest : List Token} {nodes : List Node} (h : Block used nodes)
    (hused : AllLexed used) (hrest : Stops [":"] rest) : Stops [":"] (used ++ rest) := by
  cases h with
  | nil => exact hrest
  | cons h =>
    rw [List.append_assoc]
    exact ((opens_statement h hused.left).mono (by decide)).append _ |>.stops

section Parts

variable {used usedThen usedElse usedBody usedCases : List Token} {condition value body : Node}

theorem takes_declaration {name stop : Token} {suffix initial : List Token}
    {type : Option String} (hname : name.isName = true) (htype : TypeSuffix suffix type)
    (hvalue : Initial initial value) (hinitial : AllLexed initial) (hstop : stop.IsMark ";") :
    Takes declaration (fun _ => True) (name :: (suffix ++ (initial ++ [stop])))
      (.declaration name.text type value none) := by
  obtain ⟨enough, htakes⟩ := takes_initializer hvalue hinitial
  refine ⟨enough, fun fuel hfuel rest _ => ?_⟩
  have hfollow : Stops [":"] (initial ++ stop :: rest) :=
    stops_initial hvalue (by decide) (.of_text hstop.2 (by decide))
  rw [List.cons_append, List.append_assoc, List.append_assoc, List.singleton_append, declaration,
    bind_of_ok _ (name_of_isName _ _ hname),
    bind_of_ok _ (typeSuffix_of_derives htype hfollow),
    bind_of_ok _ (htakes fuel hfuel (stop :: rest) (.of_text hstop.2 (by decide))),
    bind_of_ok _ (expect_of_text_eq _ rest hstop.2)]
  rfl

theorem takes_returned {stop : Token}
    (hvalue : Takes expression (Stops Tier.logical.bars) used value) (hstop : stop.IsMark ";") :
    Takes returned (fun _ => True) (used ++ [stop]) (.ret value) := by
  obtain ⟨enough, hvalue⟩ := hvalue
  refine ⟨enough, fun fuel hfuel rest _ => ?_⟩
  rw [List.append_assoc, List.singleton_append, returned,
    bind_of_ok _ (hvalue fuel hfuel (stop :: rest) (.of_text hstop.2 (by decide))),
    bind_of_ok _ (expect_of_text_eq _ rest hstop.2)]
  rfl

theorem takes_assignment {usedRight : List Token} {receiver : Node} {sign stop : Token}
    (hreceiver : Takes expression (Stops Tier.logical.bars) used receiver)
    (hsign : sign.IsMark "=")
    (hvalue : Takes expression (Stops Tier.logical.bars) usedRight value)
    (hstop : stop.IsMark ";") :
    Takes expressionStatement (fun _ => True) (used ++ sign :: (usedRight ++ [stop]))
      (.assignment receiver value) := by
  obtain ⟨enough, hreceiver⟩ := hreceiver
  obtain ⟨enough', hvalue⟩ := hvalue
  refine ⟨enough + enough', fun fuel hfuel rest _ => ?_⟩
  rw [List.append_assoc, List.cons_append, List.append_assoc, List.singleton_append,
    expressionStatement,
    bind_of_ok _ (hreceiver fuel (by omega) (sign :: _) (.of_text hsign.2 (by decide))),
    bind_of_ok _ (accept_of_text_eq _ hsign.2)]
  simp only [if_true]
  rw [bind_of_ok _ (hvalue fuel (by omega) (stop :: rest) (.of_text hstop.2 (by decide))),
    bind_of_ok _ (expect_of_text_eq _ rest hstop.2)]
  rfl

theorem takes_discard {stop : Token}
    (hvalue : Takes expression (Stops Tier.logical.bars) used value) (hstop : stop.IsMark ";") :
    Takes expressionStatement (fun _ => True) (used ++ [stop]) (.discard value) := by
  obtain ⟨enough, hvalue⟩ := hvalue
  refine ⟨enough, fun fuel hfuel rest _ => ?_⟩
  rw [List.append_assoc, List.singleton_append, expressionStatement,
    bind_of_ok _ (hvalue fuel hfuel (stop :: rest) (.of_text hstop.2 (by decide))),
    bind_of_ok _ (accept_of_text_ne rest (by rw [hstop.2]; decide))]
  simp only [Bool.false_eq_true, if_false]
  rw [bind_of_ok _ (expect_of_text_eq _ rest hstop.2)]
  rfl

theorem takes_branch {doWord stop : Token} {thenBody : List Node}
    (hcondition : Takes expression (Stops Tier.logical.bars) used condition)
    (hdo : doWord.IsWord "DO") (hthen : Takes block EndsBlock usedThen thenBody)
    (hstop : stop.IsWord "END") :
    Takes branch (fun _ => True) (used ++ doWord :: (usedThen ++ [stop]))
      (.branch condition thenBody []) := by
  obtain ⟨enough, hcondition⟩ := hcondition
  obtain ⟨enough', hthen⟩ := hthen
  refine .of_succ (enough + enough') fun fuel hfuel rest _ => ?_
  rw [List.append_assoc, List.cons_append, List.append_assoc, List.singleton_append, branch,
    bind_of_ok _ (hcondition fuel (by omega) (doWord :: _) (.of_text hdo.2 (by decide))),
    bind_of_ok _ (expect_of_text_eq _ _ hdo.2),
    bind_of_ok _ (hthen fuel (by omega) (stop :: rest) (.of_text hstop.2 (by decide))),
    bind_of_ok _ (accept_of_text_ne rest (by rw [hstop.2]; decide))]
  simp only [Bool.false_eq_true, if_false, pure_bind]
  rw [bind_of_ok _ (expect_of_text_eq _ rest hstop.2)]
  rfl

theorem takes_branchElse {doWord elseWord stop : Token} {thenBody elseBody : List Node}
    (hcondition : Takes expression (Stops Tier.logical.bars) used condition)
    (hdo : doWord.IsWord "DO") (hthen : Takes block EndsBlock usedThen thenBody)
    (helse : elseWord.IsWord "ELSE") (helseBody : Takes block EndsBlock usedElse elseBody)
    (hstop : stop.IsWord "END") :
    Takes branch (fun _ => True)
      (used ++ doWord :: (usedThen ++ elseWord :: (usedElse ++ [stop])))
      (.branch condition thenBody elseBody) := by
  obtain ⟨enough, hcondition⟩ := hcondition
  obtain ⟨enough', hthen⟩ := hthen
  obtain ⟨enough'', helseBody⟩ := helseBody
  refine .of_succ (enough + enough' + enough'') fun fuel hfuel rest _ => ?_
  rw [List.append_assoc, List.cons_append, List.append_assoc, List.cons_append, List.append_assoc,
    List.singleton_append, branch,
    bind_of_ok _ (hcondition fuel (by omega) (doWord :: _) (.of_text hdo.2 (by decide))),
    bind_of_ok _ (expect_of_text_eq _ _ hdo.2),
    bind_of_ok _ (hthen fuel (by omega) (elseWord :: _) (.of_text helse.2 (by decide))),
    bind_of_ok _ (accept_of_text_eq _ helse.2)]
  simp only [if_true]
  rw [bind_of_ok _ (helseBody fuel (by omega) (stop :: rest) (.of_text hstop.2 (by decide))),
    bind_of_ok _ (expect_of_text_eq _ rest hstop.2)]
  rfl

theorem takes_loop {doWord stop : Token} {body : List Node}
    (hcondition : Takes expression (Stops Tier.logical.bars) used condition)
    (hdo : doWord.IsWord "DO") (hbody : Takes block EndsBlock usedBody body)
    (hstop : stop.IsWord "END") :
    Takes loop (fun _ => True) (used ++ doWord :: (usedBody ++ [stop])) (.loop condition body) := by
  obtain ⟨enough, hcondition⟩ := hcondition
  obtain ⟨enough', hbody⟩ := hbody
  refine .of_succ (enough + enough') fun fuel hfuel rest _ => ?_
  rw [List.append_assoc, List.cons_append, List.append_assoc, List.singleton_append, loop,
    bind_of_ok _ (hcondition fuel (by omega) (doWord :: _) (.of_text hdo.2 (by decide))),
    bind_of_ok _ (expect_of_text_eq _ _ hdo.2),
    bind_of_ok _ (hbody fuel (by omega) (stop :: rest) (.of_text hstop.2 (by decide))),
    bind_of_ok _ (expect_of_text_eq _ rest hstop.2)]
  rfl

/-- What may follow the cases of a switch that have values. -/
def EndsCases (tokens : List Token) : Prop :=
  EndsBlock tokens ∧ Stops ["CASE"] tokens

theorem EndsCases.of_default {token : Token} {rest : List Token} (h : token.IsWord "DEFAULT") :
    EndsCases (token :: rest) :=
  ⟨.of_text h.2 (by decide), .of_text h.2 (by decide)⟩

theorem colon_of_optional {colon rest : List Token} (h : OptionalColon colon ())
    (hrest : Stops [":"] rest) : discard (accept ":") (colon ++ rest) = .ok ((), rest) := by
  rw [Functor.discard, LawfulFunctor.map_const, Function.comp_apply, map_eq_pure_bind]
  obtain rfl | ⟨mark, rfl, hmark⟩ := h
  · rw [List.nil_append, bind_of_ok _ (accept_of_stops hrest)]
    rfl
  · rw [List.singleton_append, bind_of_ok _ (accept_of_text_eq rest hmark.2)]
    rfl

theorem stops_cases {rest : List Token} {nodes : List Node} (h : Cases usedCases nodes)
    {texts : List String} (hword : "CASE" ∉ texts) (hrest : Stops texts rest) :
    Stops texts (usedCases ++ rest) := by
  cases h with
  | nil => exact hrest
  | cons h => exact .of_text h.2 hword

theorem takes_switch {default stop : Token} {colon : List Token} {nodes body : List Node}
    (hcondition : Takes expression (Stops Tier.logical.bars) used condition)
    (hcases : Cases usedCases nodes) (htakes : Takes cases EndsCases usedCases nodes)
    (hdefault : default.IsWord "DEFAULT") (hcolon : OptionalColon colon ())
    (hbody : Takes block EndsBlock usedBody body)
    (hstops : ∀ rest, Stops [":"] rest → Stops [":"] (usedBody ++ rest))
    (hstop : stop.IsWord "END") :
    Takes switch (fun _ => True)
      (used ++ (usedCases ++ default :: (colon ++ (usedBody ++ [stop]))))
      (.switch condition (nodes ++ [.case .null body])) := by
  obtain ⟨enough, hcondition⟩ := hcondition
  obtain ⟨enough', htakes⟩ := htakes
  obtain ⟨enough'', hbody⟩ := hbody
  refine .of_succ (enough + enough' + enough'') fun fuel hfuel rest _ => ?_
  -- neither the first case nor the default case can prolong the condition
  have hfollow : Stops Tier.logical.bars
      (usedCases ++ default :: (colon ++ (usedBody ++ stop :: rest))) :=
    stops_cases hcases (by decide) (.of_text hdefault.2 (by decide))
  simp only [List.append_assoc, List.cons_append, List.nil_append]
  rw [switch, bind_of_ok _ (hcondition fuel (by omega) _ hfollow),
    bind_of_ok _ (htakes fuel (by omega) (default :: _) (.of_default hdefault)),
    bind_of_ok _ (expect_of_text_eq _ _ hdefault.2),
    bind_of_ok _ (colon_of_optional hcolon (hstops _ (.of_text hstop.2 (by decide)))),
    bind_of_ok _ (hbody fuel (by omega) (stop :: rest) (.of_text hstop.2 (by decide))),
    bind_of_ok _ (expect_of_text_eq _ rest hstop.2)]
  rfl

theorem takes_cases_cons {word colon : Token} {body nodes : List Node} {others : List Token}
    (hword : word.IsWord "CASE") (hvalue : Takes expression (Stops Tier.logical.bars) used value)
    (hcolon : colon.IsMark ":") (hbody : Takes block EndsBlock usedBody body)
    (hcases : Cases others nodes) (htakes : Takes cases EndsCases others nodes) :
    Takes cases EndsCases (word :: (used ++ colon :: (usedBody ++ others)))
      (.case value body :: nodes) := by
  obtain ⟨enough, hvalue⟩ := hvalue
  obtain ⟨enough', hbody⟩ := hbody
  obtain ⟨enough'', htakes⟩ := htakes
  refine .of_succ (enough + enough' + enough'') fun fuel hfuel rest hrest => ?_
  -- the body of a case ends at the next case, or where the cases end
  have hfollow : EndsBlock (others ++ rest) := by
    cases hcases with
    | nil => exact hrest.1
    | cons h => exact .of_text h.2 (by decide)
  simp only [List.append_assoc, List.cons_append]
  rw [cases, bind_of_ok _ (accept_of_text_eq _ hword.2)]
  simp only [if_true]
  rw [bind_of_ok _ (hvalue fuel (by omega) (colon :: _) (.of_text hcolon.2 (by decide))),
    bind_of_ok _ (expect_of_text_eq _ _ hcolon.2), bind_of_ok _ (hbody fuel (by omega) _ hfollow),
    bind_of_ok _ (htakes fuel (by omega) rest hrest)]
  rfl

end Parts

/-- The keyword of a statement leads to the parser of the statement. -/
theorem statement_of_word (fuel : Nat) (rest : List Token) {word : Token} {text : String}
    (hword : word.IsWord text) :
    statement (fuel + 1) (word :: rest) =
      if text = "LET" then declaration fuel rest
      else if text = "SWITCH" then switch fuel rest
      else if text = "IF" then branch fuel rest
      else if text = "WHILE" then loop fuel rest
      else if text = "RETURN" then returned fuel rest
      else expressionStatement fuel (word :: rest) := by
  obtain ⟨-, rfl⟩ := hword
  rw [statement]
  simp only [bind_accept_cons]

theorem statement_of_opens (fuel : Nat) {tokens : List Token} (h : Opens unopened tokens) :
    statement (fuel + 1) tokens = expressionStatement fuel tokens := by
  have hstops : ∀ text ∈ unopened, Stops [text] tokens :=
    fun text htext => h.stops.mono (by simpa using htext)
  rw [statement, bind_of_ok _ (accept_of_stops (hstops "LET" (by decide)))]
  simp only [Bool.false_eq_true, if_false]
  rw [bind_of_ok _ (accept_of_stops (hstops "SWITCH" (by decide)))]
  simp only [Bool.false_eq_true, if_false]
  rw [bind_of_ok _ (accept_of_stops (hstops "IF" (by decide)))]
  simp only [Bool.false_eq_true, if_false]
  rw [bind_of_ok _ (accept_of_stops (hstops "WHILE" (by decide)))]
  simp only [Bool.false_eq_true, if_false]
  rw [bind_of_ok _ (accept_of_stops (hstops "RETURN" (by decide)))]
  simp only [Bool.false_eq_true, if_false]

/-- A statement behind its keyword. -/
theorem takes_statement_of_word {parser : Nat → Parser Node} {word : Token}
    {used : List Token} {node : Node}
    (hstatement : ∀ fuel rest, statement (fuel + 1) (word :: rest) = parser fuel rest)
    (h : Takes parser (fun _ => True) used node) :
    Takes statement (fun _ => True) (word :: used) node := by
  obtain ⟨enough, h⟩ := h
  refine .of_succ enough fun fuel hfuel rest hrest => ?_
  rw [List.cons_append, hstatement]
  exact h fuel hfuel rest hrest

theorem takes_statement_of_opens {used : List Token} {node : Node} (hopens : Opens unopened used)
    (h : Takes expressionStatement (fun _ => True) used node) :
    Takes statement (fun _ => True) used node := by
  obtain ⟨enough, h⟩ := h
  refine .of_succ enough fun fuel hfuel rest hrest => ?_
  rw [statement_of_opens fuel (hopens.append rest)]
  exact h fuel hfuel rest hrest

mutual

/-- A statement is taken whatever follows. -/
theorem takes_statement : ∀ {used : List Token} {node : Node}, Statement used node →
    AllLexed used → Takes statement (fun _ => True) used node
  | _, _, .declaration hword hname htype hvalue hstop, hused =>
    takes_statement_of_word (fun fuel rest => statement_of_word fuel rest hword)
      (takes_declaration hname htype hvalue hused.tail.tail.right.left hstop)
  | _, _, .switch hword hcondition hcases hdefault hcolon hbody hstop, hused => by
    have hrest := hused.tail.right.right.tail
    refine takes_statement_of_word (fun fuel rest => statement_of_word fuel rest hword) ?_
    exact takes_switch (takes_expression hcondition hused.tail.left) hcases
      (takes_cases hcases hused.tail.right.left) hdefault hcolon
      (takes_block hbody hrest.right.left) (fun _ => stops_block hbody hrest.right.left) hstop
  | _, _, .branch hword hcondition hdo hthen hstop, hused => by
    refine takes_statement_of_word (fun fuel rest => statement_of_word fuel rest hword) ?_
    exact takes_branch (takes_expression hcondition hused.tail.left) hdo
      (takes_block hthen hused.tail.right.tail.left) hstop
  | _, _, .branchElse hword hcondition hdo hthen helse helseBody hstop, hused => by
    have hrest := hused.tail.right.tail
    refine takes_statement_of_word (fun fuel rest => statement_of_word fuel rest hword) ?_
    exact takes_branchElse (takes_expression hcondition hused.tail.left) hdo
      (takes_block hthen hrest.left) helse (takes_block helseBody hrest.right.tail.left) hstop
  | _, _, .loop hword hcondition hdo hbody hstop, hused => by
    refine takes_statement_of_word (fun fuel rest => statement_of_word fuel rest hword) ?_
    exact takes_loop (takes_expression hcondition hused.tail.left) hdo
      (takes_block hbody hused.tail.right.tail.left) hstop
  | _, _, .ret hword hvalue hstop, hused =>
    takes_statement_of_word (fun fuel rest => statement_of_word fuel rest hword)
      (takes_returned (takes_expression hvalue hused.tail.left) hstop)
  | _, _, .assignment hreceiver hsign hvalue hstop, hused =>
    takes_statement_of_opens ((opens_expression hreceiver hused.left).append _)
      (takes_assignment (takes_expression hreceiver hused.left) hsign
        (takes_expression hvalue hused.right.tail.left) hstop)
  | _, _, .discard hvalue hstop, hused =>
    takes_statement_of_opens ((opens_expression hvalue hused.left).append _)
      (takes_discard (takes_expression hvalue hused.left) hstop)

/-- A block is taken up to the keyword behind it. -/
theorem takes_block : ∀ {used : List Token} {nodes : List Node}, Block used nodes →
    AllLexed used → Takes block EndsBlock used nodes
  | _, _, .nil, _ => .of_succ 0 fun fuel _ _ hrest => block_of_endsBlock fuel hrest
  | _, _, @Block.cons used node others nodes h hothers, hused => by
    have hopens := (opens_statement h hused.left).mono (List.subset_cons_self _ _)
    obtain ⟨enough, h⟩ := takes_statement h hused.left
    obtain ⟨enough', hothers⟩ := takes_block hothers hused.right
    refine .of_succ (enough + enough') fun fuel hfuel rest hrest => ?_
    rw [List.append_assoc, block_of_opens fuel (hopens.append _),
      bind_of_ok _ (h fuel (by omega) _ trivial), bind_of_ok _ (hothers fuel (by omega) rest hrest)]
    rfl

theorem takes_cases : ∀ {used : List Token} {nodes : List Node}, Cases used nodes →
    AllLexed used → Takes cases EndsCases used nodes
  | _, _, .nil, _ => by
    refine .of_succ 0 fun fuel _ rest hrest => ?_
    rw [List.nil_append, cases, bind_of_ok _ (accept_of_stops hrest.2)]
    rfl
  | _, _, .cons hword hvalue hcolon hbody hothers, hused => by
    have hrest := hused.tail.right.tail
    exact takes_cases_cons hword (takes_expression hvalue hused.tail.left) hcolon
      (takes_block hbody hrest.left) hothers (takes_cases hothers hrest.right)

end
end BlockScript.Parser
