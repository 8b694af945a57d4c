import BlockScript.Proofs.Parser.Reading
/-!
# Parsers read the grammar

Every parser reads the phrases of its rule, whatever its fuel. A parser without fuel takes nothing
and fails, which is a way of reading too, because every rule has phrases.

## Main results

* `reads_expression`, `reads_statement`, `reads_block` — expressions, statements and blocks
* `reads_program` — programs
-/

namespace BlockScript.Parser

open Grammar

/-! ### Literals and phrases that are always there -/

theorem isWord_of_text {token : Token} {text : String} (htoken : token.Lexed)
    (htext : token.text = text) (hword : Token.Lexed ⟨.identifier, text, 0⟩) :
    token.IsWord text :=
  ⟨htoken.kind_eq hword htext, htext⟩

theorem isMark_of_text {token : Token} {text : String} (htoken : token.Lexed)
    (htext : token.text = text) (hmark : Token.Lexed ⟨.operator, text, 0⟩) :
    token.IsMark text :=
  ⟨htoken.kind_eq hmark htext, htext⟩

/-- Tokens with literal values are the literals of the grammar. -/
theorem literal_of_literal? {token : Token} {value : Scalar} (htoken : token.Lexed)
    (h : literal? token = some value) : Literal token value := by
  unfold literal? at h
  split_ifs at h with hnil htrue hfalse
  · cases h
    exact .nil (isWord_of_text htoken hnil (by decide))
  · cases h
    exact .true (isWord_of_text htoken htrue (by decide))
  · cases h
    exact .false (isWord_of_text htoken hfalse (by decide))
  · split at h
    next hkind =>
      obtain ⟨n, hn, rfl⟩ := Option.map_eq_some_iff.mp h
      exact .integer hkind hn
    next hkind =>
      obtain ⟨d, hd, rfl⟩ := Option.map_eq_some_iff.mp h
      exact .decimal hkind hd
    next hkind =>
      cases h
      exact .character hkind
    next hkind =>
      cases h
      exact .string hkind
    next => cases h

/-- The token of a variable that phrases are completed with. -/
def sampleName : Token :=
  ⟨.identifier, "x", 0⟩

theorem allLexed_sampleName : AllLexed [sampleName] := by
  decide

theorem expression_of_primary {used : List Token} {node : Node} (h : Primary used node) :
    ∀ tier, Expression tier used node := by
  have hmultiplying : Expression .multiplying used node := .operand (.primary rfl h)
  have hadding : Expression .adding used node := .operand (.tighter rfl hmultiplying)
  have hcomparing : Expression .comparing used node := .operand (.tighter rfl hadding)
  have hlogical : Expression .logical used node := .operand (.tighter rfl hcomparing)
  rintro (_ | _ | _ | _) <;> assumption

theorem operand_of_primary {used : List Token} {node : Node} (h : Primary used node)
    (tier : Tier) : Operand tier used node := by
  cases htighter : tier.tighter? with
  | none => exact .primary htighter h
  | some next => exact .tighter htighter (expression_of_primary h next)

theorem primary_sampleName : Primary [sampleName] (.access "x" .null none none) :=
  .variable (by decide)

/-! ### Expressions -/

/-- What may follow an expression of some tier that stands for `left`, so that both together are
an expression of the tier. -/
def Continues (tier : Tier) (left : Node) (used : List Token) (node : Node) : Prop :=
  ∀ first, Expression tier first left → Expression tier (first ++ used) node

theorem continues_nil (tier : Tier) (left : Node) : Continues tier left [] left := by
  intro first h
  rwa [List.append_nil]

theorem continues_operator {tier : Tier} {left right node : Node} {op : Token}
    {used rest : List Token} (hkind : op.kind = .operator) (hop : op.text ∈ tier.symbols)
    (hright : Operand tier used right)
    (h : Continues tier (.binary op.text left right none) rest node) :
    Continues tier left (op :: (used ++ rest)) node := by
  intro first hfirst
  have hnode := h _ (.binary hfirst hkind hop hright)
  rwa [List.append_assoc, List.cons_append] at hnode

/-- The arguments of a call and the closing parenthesis. -/
def ClosedArguments (used : List Token) (nodes : List Node) : Prop :=
  ∃ inside closing, used = inside ++ [closing] ∧ Arguments inside nodes ∧ closing.IsMark ")"

theorem lexed_of_mem_symbols {tier : Tier} {text : String} (h : text ∈ tier.symbols) :
    Token.Lexed ⟨.operator, text, 0⟩ := by
  cases tier <;> simp only [Tier.symbols, List.mem_cons, List.not_mem_nil, or_false] at h <;>
    rcases h with rfl | rfl | rfl | rfl <;> decide

/-- An operator of a tier, or none. -/
theorem reads_operatorOf {tier : Tier} {next : Option String → Parser Node}
    {phrase : List Token → Node → Prop}
    (hsome : ∀ op : Token, op.kind = .operator → op.text ∈ tier.symbols →
      Reads (next (some op.text)) fun used node => phrase (op :: used) node)
    (hnone : Reads (next none) phrase) : Reads (operatorOf tier >>= next) phrase := by
  intro tokens htokens
  rw [operatorOf, bind_assoc]
  cases tokens with
  | nil => exact .peek_nil (by simpa using hnone _ htokens)
  | cons op rest =>
    refine .peek_cons ?_
    by_cases hop : op.text ∈ tier.symbols
    · have hkind : op.kind = .operator :=
        htokens.head.kind_eq (lexed_of_mem_symbols hop) rfl
      simp only [List.contains_iff_mem, hop, if_true, bind_assoc, pure_bind]
      exact .advance (hsome op hkind hop rest htokens.tail)
    · simp only [List.contains_iff_mem, hop, if_false, pure_bind]
      exact hnone _ htokens

mutual

theorem reads_tier : ∀ (fuel : Nat) (t : Tier), Reads (tier fuel t) (Expression t)
  | 0, t => .miss ⟨_, _, allLexed_sampleName, expression_of_primary primary_sampleName t⟩
  | fuel + 1, t => by
    rw [tier]
    refine (reads_operand fuel t).bind fun first used hfirst => ?_
    exact (reads_tierRest fuel t first).mono fun rest node h => h used (.operand hfirst)

theorem reads_operand : ∀ (fuel : Nat) (t : Tier), Reads (operand fuel t) (Operand t)
  | 0, t => .miss ⟨_, _, allLexed_sampleName, operand_of_primary primary_sampleName t⟩
  | fuel + 1, t => by
    rw [operand]
    cases htighter : t.tighter? with
    | some next => exact (reads_tier fuel next).mono fun _ _ h => .tighter htighter h
    -- the tightest tier has primary expressions as operands
    | none => exact (reads_primary fuel).mono fun _ _ h => .primary htighter h

theorem reads_tierRest : ∀ (fuel : Nat) (t : Tier) (left : Node),
    Reads (tierRest fuel t left) (Continues t left)
  | 0, t, left => .miss ⟨[], left, .nil, continues_nil t left⟩
  -- the operator and its operand become part of the left side, which groups to the left
  | fuel + 1, t, left => by
    rw [tierRest]
    refine reads_operatorOf ?_ (.pure (continues_nil t left))
    intro op hkind hop
    refine (reads_operand fuel t).bind fun right used hright => ?_
    exact (reads_tierRest fuel t _).mono fun rest node h =>
      continues_operator hkind hop hright h

theorem reads_primary : ∀ fuel : Nat, Reads (primary fuel) Primary
  | 0 => .miss ⟨_, _, allLexed_sampleName, primary_sampleName⟩
  | fuel + 1 => by
    have hmiss : Reads (miss .expression) Primary :=
      .miss ⟨_, _, allLexed_sampleName, primary_sampleName⟩
    rw [primary]
    intro tokens htokens
    cases tokens with
    | nil => exact .peek_nil (hmiss _ htokens)
    | cons token rest =>
      refine .peek_cons ?_
      simp only
      split
      next value hvalue =>
        exact .advance (Reads.pure (.literal (literal_of_literal? htokens.head hvalue))
          rest htokens.tail)
      next hvalue =>
        -- a parenthesis, a name, or a token that begins no expression
        split_ifs with hgroup hname
        · have hopening := isMark_of_text htokens.head hgroup (by decide)
          refine .advance (Reads.bind (reads_tier fuel .logical) ?_ rest htokens.tail)
          intro inner used hinner
          refine .expectMark (by decide) fun closing hclosing => ?_
          exact .pure (.group hopening hinner hclosing)
        · refine .advance (Reads.acceptMark (by decide) ?_ ?_ rest htokens.tail)
          · intro opening hopening
            refine (reads_arguments fuel).bind fun nodes used hused => ?_
            obtain ⟨inside, closing, rfl, harguments, hclosing⟩ := hused
            exact .pure (by simpa using .call hname hopening harguments hclosing)
          · refine .acceptMark (by decide) ?_ (.pure (.variable hname))
            intro opening hopening
            refine (reads_tier fuel .logical).bind fun offset used hoffset => ?_
            refine .expectMark (by decide) fun closing hclosing => ?_
            exact .pure (.element hname hopening hoffset hclosing)
        · exact hmiss _ htokens

theorem reads_arguments : ∀ fuel : Nat, Reads (arguments fuel) ClosedArguments
  | 0 => .miss ⟨[⟨.operator, ")", 0⟩], [], by decide, [], _, rfl, .none, rfl, rfl⟩
  | fuel + 1 => by
    rw [arguments]
    refine .acceptMark (by decide) ?_ ?_
    · intro closing hclosing
      exact .pure ⟨[], closing, rfl, .none, hclosing⟩
    · refine (reads_expressions fuel).bind fun nodes used hnodes => ?_
      refine .expectMark (by decide) fun closing hclosing => ?_
      exact .pure ⟨used, closing, rfl, .some hnodes, hclosing⟩

theorem reads_expressions : ∀ fuel : Nat, Reads (expressions fuel) Expressions
  | 0 => .miss ⟨_, _, allLexed_sampleName, .one (expression_of_primary primary_sampleName _)⟩
  | fuel + 1 => by
    rw [expressions]
    refine (reads_tier fuel .logical).bind fun first used hfirst => ?_
    refine .acceptMark (by decide) ?_ ?_
    · intro comma hcomma
      refine (reads_expressions fuel).bind fun others rest hothers => ?_
      exact .pure (by simpa using .cons hfirst hcomma hothers)
    · exact .pure (by simpa using .one hfirst)

end

/-- An expression is read as the grammar says. -/
theorem reads_expression (fuel : Nat) : Reads (expression fuel) (Expression .logical) :=
  reads_tier fuel .logical

theorem expression_sampleName : Expression .logical [sampleName] (.access "x" .null none none) :=
  expression_of_primary primary_sampleName _

/-! ### Statements -/

theorem reads_typeSuffix : Reads typeSuffix TypeSuffix := by
  refine .acceptMark (by decide) ?_ (.pure .absent)
  intro colon hcolon
  exact .name fun type htype => .pure (.present hcolon htype)

theorem reads_initializer (fuel : Nat) : Reads (initializer fuel) Initial := by
  refine .acceptMark (by decide) ?_ (.pure .absent)
  intro sign hsign
  exact (reads_expression fuel).mono fun used value hvalue => .present hsign hvalue

/-- What follows the keyword of a statement. -/
def AfterWord (text : String) (used : List Token) (node : Node) : Prop :=
  ∀ word : Token, word.IsWord text → Statement (word :: used) node

theorem reads_declaration (fuel : Nat) : Reads (declaration fuel) (AfterWord "LET") := by
  refine .name fun name hname => ?_
  refine reads_typeSuffix.bind fun type suffix htype => ?_
  refine (reads_initializer fuel).bind fun value initial hvalue => ?_
  refine .expectMark (by decide) fun stop hstop => .pure fun word hword => ?_
  exact .declaration hword hname htype hvalue hstop

theorem reads_returned (fuel : Nat) : Reads (returned fuel) (AfterWord "RETURN") := by
  refine (reads_expression fuel).bind fun value used hvalue => ?_
  refine .expectMark (by decide) fun stop hstop => .pure fun word hword => ?_
  exact .ret hword hvalue hstop

theorem reads_expressionStatement (fuel : Nat) :
    Reads (expressionStatement fuel) Statement := by
  refine (reads_expression fuel).bind fun receiver left hreceiver => ?_
  refine .acceptMark (by decide) ?_ ?_
  · intro sign hsign
    refine (reads_expression fuel).bind fun value right hvalue => ?_
    refine .expectMark (by decide) fun stop hstop => .pure ?_
    exact .assignment hreceiver hsign hvalue hstop
  · refine .expectMark (by decide) fun stop hstop => .pure ?_
    exact .discard hreceiver hstop

/-- The colon behind the keyword of the default case may be left out. -/
def OptionalColon (used : List Token) (_ : Unit) : Prop :=
  used = [] ∨ ∃ mark, used = [mark] ∧ mark.IsMark ":"

theorem reads_colon : Reads (discard (accept ":")) OptionalColon := by
  rw [Functor.discard, LawfulFunctor.map_const, Function.comp_apply, map_eq_pure_bind]
  refine Reads.acceptMark (by decide) (fun mark hmark => ?_) ?_
  · exact .pure (.inr ⟨mark, rfl, hmark⟩)
  · exact .pure (.inl rfl)

/-- Any statement can be completed to this one. -/
theorem exists_statement : ∃ used node, AllLexed used ∧ Statement used node :=
  ⟨[sampleName, ⟨.operator, ";", 0⟩], _, by decide,
    .discard expression_sampleName ⟨rfl, rfl⟩⟩

mutual

theorem reads_statement : ∀ fuel : Nat, Reads (statement fuel) Statement
  | 0 => .miss exists_statement
  | fuel + 1 => by
    rw [statement]
    refine .acceptWord (by decide) (fun word hword => ?_) ?_
    · exact (reads_declaration fuel).mono fun used node h => h word hword
    refine .acceptWord (by decide) (fun word hword => ?_) ?_
    · exact (reads_switch fuel).mono fun used node h => h word hword
    refine .acceptWord (by decide) (fun word hword => ?_) ?_
    · exact (reads_branch fuel).mono fun used node h => h word hword
    refine .acceptWord (by decide) (fun word hword => ?_) ?_
    · exact (reads_loop fuel).mono fun used node h => h word hword
    refine .acceptWord (by decide) (fun word hword => ?_) ?_
    · exact (reads_returned fuel).mono fun used node h => h word hword
    exact reads_expressionStatement fuel

theorem reads_block : ∀ fuel : Nat, Reads (block fuel) Block
  | 0 => .miss ⟨[], [], .nil, .nil⟩
  | fuel + 1 => by
    rw [block]
    -- whether the block ends here is seen without taking the token
    refine .peek fun seen => .sees fun ends => ?_
    split
    · exact .pure .nil
    · refine (reads_statement fuel).bind fun first used hfirst => ?_
      refine (reads_block fuel).bind fun others rest hothers => ?_
      exact .pure (by simpa using .cons hfirst hothers)

theorem reads_branch : ∀ fuel : Nat, Reads (branch fuel) (AfterWord "IF")
  | 0 => .miss ⟨[sampleName, ⟨.identifier, "DO", 0⟩, ⟨.identifier, "END", 0⟩], _, by decide,
      fun _ hword => .branch hword expression_sampleName ⟨rfl, rfl⟩ .nil ⟨rfl, rfl⟩⟩
  | fuel + 1 => by
    rw [branch]
    refine (reads_expression fuel).bind fun condition used hcondition => ?_
    refine .expectWord (by decide) fun doWord hdo => ?_
    refine (reads_block fuel).bind fun thenBody usedThen hthen => ?_
    refine .acceptWord (by decide) (fun elseWord helse => ?_) ?_
    · refine (reads_block fuel).bind fun elseBody usedElse helseBody => ?_
      refine .expectWord (by decide) fun stop hstop => .pure fun word hword => ?_
      exact .branchElse hword hcondition hdo hthen helse helseBody hstop
    · simp only [Bool.false_eq_true, if_false, pure_bind]
      refine .expectWord (by decide) fun stop hstop => .pure fun word hword => ?_
      exact .branch hword hcondition hdo hthen hstop

theorem reads_switch : ∀ fuel : Nat, Reads (switch fuel) (AfterWord "SWITCH")
  | 0 => .miss ⟨[sampleName, ⟨.identifier, "DEFAULT", 0⟩, ⟨.identifier, "END", 0⟩], _, by decide,
      fun _ hword => .switch hword expression_sampleName .nil ⟨rfl, rfl⟩ (.inl rfl) .nil
        ⟨rfl, rfl⟩⟩
  | fuel + 1 => by
    rw [switch]
    refine (reads_expression fuel).bind fun condition used hcondition => ?_
    refine (reads_cases fuel).bind fun cases usedCases hcases => ?_
    refine .expectWord (by decide) fun default hdefault => ?_
    refine reads_colon.bind fun _ colon hcolon => ?_
    refine (reads_block fuel).bind fun body usedBody hbody => ?_
    refine .expectWord (by decide) fun stop hstop => .pure fun word hword => ?_
    exact .switch hword hcondition hcases hdefault hcolon hbody hstop

theorem reads_cases : ∀ fuel : Nat, Reads (cases fuel) Cases
  | 0 => .miss ⟨[], [], .nil, .nil⟩
  | fuel + 1 => by
    rw [cases]
    refine .acceptWord (by decide) (fun word hword => ?_) (.pure .nil)
    refine (reads_expression fuel).bind fun value used hvalue => ?_
    refine .expectMark (by decide) fun colon hcolon => ?_
    refine (reads_block fuel).bind fun body usedBody hbody => ?_
    refine (reads_cases fuel).bind fun others rest hothers => ?_
    exact .pure (by simpa using .cons hword hvalue hcolon hbody hothers)

theorem reads_loop : ∀ fuel : Nat, Reads (loop fuel) (AfterWord "WHILE")
  | 0 => .miss ⟨[sampleName, ⟨.identifier, "DO", 0⟩, ⟨.identifier, "END", 0⟩], _, by decide,
      fun _ hword => .loop hword expression_sampleName ⟨rfl, rfl⟩ .nil ⟨rfl, rfl⟩⟩
  | fuel + 1 => by
    rw [loop]
    refine (reads_expression fuel).bind fun condition used hcondition => ?_
    refine .expectWord (by decide) fun doWord hdo => ?_
    refine (reads_block fuel).bind fun body usedBody hbody => ?_
    refine .expectWord (by decide) fun stop hstop => .pure fun word hword => ?_
    exact .loop hword hcondition hdo hbody hstop

end

/-! ### Programs -/

/-- What follows the keyword of a global variable. -/
def AfterGlobalWord (text : String) (used : List Token) (node : Node) : Prop :=
  ∀ word : Token, word.IsWord text → Global (word :: used) node

theorem reads_listGlobal (fuel : Nat) : Reads (listGlobal fuel) (AfterGlobalWord "LIST") := by
  refine .name fun name hname => ?_
  refine reads_typeSuffix.bind fun type suffix htype => ?_
  refine .expectMark (by decide) fun sign hsign => ?_
  refine .expectMark (by decide) fun opening hopening => ?_
  refine (reads_expressions fuel).bind fun values used hvalues => ?_
  refine .expectMark (by decide) fun closing hclosing => ?_
  refine .expectMark (by decide) fun stop hstop => .pure fun word hword => ?_
  exact .list hword hname htype hsign hopening hvalues hclosing hstop

theorem reads_mutableGlobal (fuel : Nat) :
    Reads (mutableGlobal fuel) (AfterGlobalWord "VAR") := by
  refine .name fun name hname => ?_
  refine reads_typeSuffix.bind fun type suffix htype => ?_
  refine (reads_initializer fuel).bind fun value initial hvalue => ?_
  refine .expectMark (by decide) fun stop hstop => .pure fun word hword => ?_
  exact .mutable hword hname htype hvalue hstop

theorem reads_constantGlobal (fuel : Nat) :
    Reads (constantGlobal fuel) (AfterGlobalWord "VAL") := by
  refine .name fun name hname => ?_
  refine reads_typeSuffix.bind fun type suffix htype => ?_
  refine .expectMark (by decide) fun sign hsign => ?_
  refine (reads_expression fuel).bind fun value used hvalue => ?_
  refine .expectMark (by decide) fun stop hstop => .pure fun word hword => ?_
  exact .constant hword hname htype hsign hvalue hstop

theorem reads_globals : ∀ fuel : Nat, Reads (globals fuel) (Many Global)
  | 0 => .miss ⟨[], [], .nil, .nil⟩
  | fuel + 1 => by
    -- the three kinds differ in the first global variable only
    have hrest : ∀ node first, Global first node →
        Reads (globals fuel >>= fun others => pure (node :: others))
          fun used nodes => Many Global (first ++ used) nodes := by
      intro node first hnode
      refine (reads_globals fuel).bind fun others rest hothers => ?_
      exact .pure (by simpa using .cons hnode hothers)
    rw [globals]
    refine .acceptWord (by decide) (fun word hword => ?_) ?_
    · exact (reads_listGlobal fuel).bind fun node used h => hrest node _ (h word hword)
    refine .acceptWord (by decide) (fun word hword => ?_) ?_
    · exact (reads_mutableGlobal fuel).bind fun node used h => hrest node _ (h word hword)
    refine .acceptWord (by decide) (fun word hword => ?_) (.pure .nil)
    exact (reads_constantGlobal fuel).bind fun node used h => hrest node _ (h word hword)

theorem reads_parameters : ∀ fuel : Nat, Reads (parameters fuel) Parameters
  | 0 => .miss ⟨[sampleName], _, allLexed_sampleName, .one (by decide) .absent⟩
  | fuel + 1 => by
    rw [parameters]
    refine .name fun name hname => ?_
    refine reads_typeSuffix.bind fun type suffix htype => ?_
    refine .acceptMark (by decide) (fun comma hcomma => ?_) ?_
    · refine (reads_parameters fuel).bind fun others rest hothers => ?_
      exact .pure (by simpa using .cons hname htype hcomma hothers)
    · exact .pure (by simpa using .one hname htype)

/-- What follows the keyword of a function. -/
def AfterFun (used : List Token) (node : Node) : Prop :=
  ∀ word : Token, word.IsWord "FUN" → Function (word :: used) node

theorem reads_function (fuel : Nat) : Reads (function fuel) AfterFun := by
  refine .name fun name hname => ?_
  refine .expectMark (by decide) fun opening hopening => ?_
  -- what follows the parameters is the same with and without them
  have hrest : ∀ params used, (used = [] ∧ params = [] ∨ Parameters used params) →
      Reads (do
        expect ")" .parametersEnd
        let resultType ← typeSuffix
        expect "DO" .doKeyword
        let body ← block fuel
        expect "END" .functionEnd
        return .function name.text (params.map Prod.fst) (params.map Prod.snd) resultType body
          none) fun rest node => AfterFun (name :: opening :: (used ++ rest)) node := by
    intro params used hparams
    refine .expectMark (by decide) fun closing hclosing => ?_
    refine reads_typeSuffix.bind fun type suffix htype => ?_
    refine .expectWord (by decide) fun doWord hdo => ?_
    refine (reads_block fuel).bind fun body usedBody hbody => ?_
    refine .expectWord (by decide) fun stop hstop => .pure fun word hword => ?_
    exact .mk hword hname hopening hparams hclosing htype hdo hbody hstop
  refine .sees fun empty => ?_
  cases empty with
  | true =>
    simp only [if_true, pure_bind]
    exact hrest [] [] (.inl ⟨rfl, rfl⟩)
  | false =>
    simp only [Bool.false_eq_true, if_false]
    exact (reads_parameters fuel).bind fun params used hparams => hrest params used (.inr hparams)

theorem reads_functions : ∀ fuel : Nat, Reads (functions fuel) (Many Function)
  | 0 => .miss ⟨[], [], .nil, .nil⟩
  | fuel + 1 => by
    rw [functions]
    refine .acceptWord (by decide) (fun word hword => ?_) (.pure .nil)
    refine (reads_function fuel).bind fun node used h => ?_
    refine (reads_functions fuel).bind fun others rest hothers => ?_
    exact .pure (by simpa using .cons (h word hword) hothers)

/-- A program is read as the grammar says. -/
theorem reads_program (fuel : Nat) : Reads (program fuel) Program := by
  refine (reads_globals fuel).bind fun globals used hglobals => ?_
  refine (reads_functions fuel).bind fun functions rest hfunctions => ?_
  have hprogram : Program (used ++ (rest ++ [])) (.program globals functions) := by
    simpa using .mk hglobals hfunctions
  -- an error behind the functions could be mended by leaving the rest out
  have hmiss : ∀ expected, Reads (miss expected) fun after node =>
      Program (used ++ (rest ++ after)) node :=
    fun expected => .miss ⟨[], _, .nil, hprogram⟩
  refine .peek fun seen => ?_
  cases seen with
  | none => exact .pure hprogram
  | some token =>
    simp only
    split
    · exact hmiss _
    · exact hmiss _

end BlockScript.Parser
