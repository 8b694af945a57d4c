import BlockScript.Proofs.Parser.Derivation
/-!
# Names in parsed trees

The names in the tree of a source text are texts of tokens: identifiers that are no keywords. To
annotate a tree does not change its names.

## Main definitions

* `Node.names` — the names of variables, functions, parameters and types in a tree
* `Grammar.IsName` — texts that are read as names

## Main results

* `isName_of_parseProgram` — the names in the tree of a source text
-/

namespace BlockScript

open Grammar
open BlockScript.Parser (AllLexed Tier)

/-! ### The names in a tree -/

namespace Node

mutual

/-- The names of variables, functions, parameters and types in a tree. -/
def names : Node → List String
  | null | literal .. => []
  | group inner _ => inner.names
  | binary _ left right _ => left.names ++ right.names
  | access name offset _ _ => name :: offset.names
  | call name arguments _ _ => name :: namesInAll arguments
  | listLiteral values _ => namesInAll values
  | discard expression => expression.names
  | declaration name typeName value _ => name :: (typeName.toList ++ value.names)
  | assignment receiver value => receiver.names ++ value.names
  | branch condition thenBody elseBody =>
    condition.names ++ (namesInAll thenBody ++ namesInAll elseBody)
  | case value body => value.names ++ namesInAll body
  | switch condition cases => condition.names ++ namesInAll cases
  | loop condition body => condition.names ++ namesInAll body
  | ret value => value.names
  | global name _ typeName value _ _ => name :: (typeName.toList ++ value.names)
  | function name parameters parameterTypes resultType body _ =>
    name :: (parameters ++ (parameterTypes.flatMap Option.toList ++
      (resultType.toList ++ namesInAll body)))
  | program globals functions => namesInAll globals ++ namesInAll functions

/-- The names in several trees. -/
def namesInAll : List Node → List String
  | [] => []
  | node :: rest => node.names ++ namesInAll rest

end

theorem namesInAll_append (nodes others : List Node) :
    namesInAll (nodes ++ others) = namesInAll nodes ++ namesInAll others := by
  induction nodes with
  | nil => rfl
  | cons node rest ih => rw [List.cons_append, namesInAll, namesInAll, ih, List.append_assoc]

mutual

theorem names_erase : ∀ node : Node, node.erase.names = node.names
  | null | literal .. => rfl
  | group inner _ | discard inner | ret inner => names_erase inner
  | binary _ left right _ => congrArg₂ _ (names_erase left) (names_erase right)
  | access name offset _ _ => congrArg (name :: ·) (names_erase offset)
  | call name arguments _ _ => congrArg (name :: ·) (namesInAll_eraseAll arguments)
  | listLiteral values _ => namesInAll_eraseAll values
  | declaration _ typeName value _ | global _ _ typeName value _ _ => by
    rw [erase, names, names, names_erase value]
  | assignment receiver value => congrArg₂ _ (names_erase receiver) (names_erase value)
  | branch condition thenBody elseBody => by
    rw [erase, names, names, names_erase condition, namesInAll_eraseAll thenBody,
      namesInAll_eraseAll elseBody]
  | case value body => congrArg₂ _ (names_erase value) (namesInAll_eraseAll body)
  | switch condition cases => congrArg₂ _ (names_erase condition) (namesInAll_eraseAll cases)
  | loop condition body => congrArg₂ _ (names_erase condition) (namesInAll_eraseAll body)
  | function _ _ _ _ body _ => by
    rw [erase, names, names, namesInAll_eraseAll body]
  | program globals functions =>
    congrArg₂ _ (namesInAll_eraseAll globals) (namesInAll_eraseAll functions)

theorem namesInAll_eraseAll : ∀ nodes : List Node, namesInAll (eraseAll nodes) = namesInAll nodes
  | [] => rfl
  | node :: rest => congrArg₂ _ (names_erase node) (namesInAll_eraseAll rest)

end

end Node

open Node (namesInAll namesInAll_append)

/-! ### Names and tokens -/

/-- A text that is read as a name. -/
def Grammar.IsName (name : String) : Prop :=
  ∃ token : Token, token.Lexed ∧ token.isName = true ∧ token.text = name

/-- The characters of a name. -/
theorem Grammar.IsName.exists_cons {name : String} (h : IsName name) :
    ∃ c rest, name.toList = c :: rest ∧ Lexer.isIdentifierStart c = true ∧
      ∀ d ∈ rest, Lexer.isIdentifierPart d = true := by
  obtain ⟨token, htoken, hname, rfl⟩ := h
  obtain ⟨length?, hmem, hlength⟩ := Lexer.eq_of_tokenAt? htoken
  have hkind : token.kind = .identifier := by
    rw [Token.isName, Bool.and_eq_true, beq_iff_eq] at hname
    exact hname.1
  simp only [hkind, Lexer.classes, List.mem_cons, List.not_mem_nil, Prod.mk.injEq, reduceCtorEq,
    false_and, or_false, true_and, false_or] at hmem
  subst hmem
  rw [← String.length_toList] at hlength
  cases hchars : token.text.toList with
  | nil =>
    rw [hchars] at hlength
    cases hlength
  | cons c rest =>
    rw [hchars, Lexer.identifierLength?, Option.ite_none_right_eq_some, Option.some.injEq,
      List.length_cons, Nat.add_comm, Nat.add_right_cancel_iff] at hlength
    obtain ⟨hstart, hall⟩ := hlength
    refine ⟨c, rest, rfl, hstart, List.takeWhile_eq_self_iff.mp ?_⟩
    exact (List.takeWhile_prefix _).eq_of_length hall

theorem Grammar.isName_cons {token : Token} {used : List Token} (h : token.isName = true)
    (hused : AllLexed (token :: used)) : IsName token.text :=
  ⟨token, hused.head, h, rfl⟩

mutual

theorem Grammar.Expression.isName : ∀ {t : Tier} {used : List Token} {node : Node},
    Expression t used node → AllLexed used → ∀ name ∈ node.names, IsName name
  | _, _, _, .operand h, hused => h.isName hused
  | _, _, _, .binary hleft _ _ hright, hused =>
    List.forall_mem_append.mpr ⟨hleft.isName hused.left, hright.isName hused.right.tail⟩

theorem Grammar.Operand.isName : ∀ {t : Tier} {used : List Token} {node : Node},
    Operand t used node → AllLexed used → ∀ name ∈ node.names, IsName name
  | _, _, _, .tighter _ h, hused => h.isName hused
  | _, _, _, .primary _ h, hused => h.isName hused

theorem Grammar.Primary.isName : ∀ {used : List Token} {node : Node},
    Primary used node → AllLexed used → ∀ name ∈ node.names, IsName name
  | _, _, .literal _, _ => fun _ hmem => absurd hmem List.not_mem_nil
  | _, _, .group _ h _, hused => h.isName hused.tail.left
  | _, _, .variable hname, hused => List.forall_mem_singleton.mpr (isName_cons hname hused)
  | _, _, .element hname _ h _, hused =>
    List.forall_mem_cons.mpr ⟨isName_cons hname hused, h.isName hused.tail.tail.left⟩
  | _, _, .call hname _ h _, hused =>
    List.forall_mem_cons.mpr ⟨isName_cons hname hused, h.isName hused.tail.tail.left⟩

theorem Grammar.Arguments.isName : ∀ {used : List Token} {nodes : List Node},
    Arguments used nodes → AllLexed used → ∀ name ∈ namesInAll nodes, IsName name
  | _, _, .none, _ => fun _ hmem => absurd hmem List.not_mem_nil
  | _, _, .some h, hused => h.isName hused

theorem Grammar.Expressions.isName : ∀ {used : List Token} {nodes : List Node},
    Expressions used nodes → AllLexed used → ∀ name ∈ namesInAll nodes, IsName name
  | _, _, .one h, hused => by
    rw [namesInAll, namesInAll, List.append_nil]
    exact h.isName hused
  | _, _, .cons h _ hrest, hused =>
    List.forall_mem_append.mpr ⟨h.isName hused.left, hrest.isName hused.right.tail⟩

end

theorem Grammar.TypeSuffix.isName {used : List Token} {typeName : Option String}
    (h : TypeSuffix used typeName) (hused : AllLexed used) :
    ∀ name ∈ typeName.toList, IsName name := by
  cases h with
  | absent => exact fun _ hmem => absurd hmem List.not_mem_nil
  | present _ hname => exact List.forall_mem_singleton.mpr (isName_cons hname hused.tail)

theorem Grammar.Initial.isName {used : List Token} {value : Node} (h : Initial used value)
    (hused : AllLexed used) : ∀ name ∈ value.names, IsName name := by
  cases h with
  | absent => exact fun _ hmem => absurd hmem List.not_mem_nil
  | present _ h => exact h.isName hused.tail

mutual

theorem Grammar.Statement.isName : ∀ {used : List Token} {node : Node},
    Statement used node → AllLexed used → ∀ name ∈ node.names, IsName name
  | _, _, .declaration _ hname htype h _, hused =>
    List.forall_mem_cons.mpr ⟨isName_cons hname hused.tail, List.forall_mem_append.mpr
      ⟨htype.isName hused.tail.tail.left, h.isName hused.tail.tail.right.left⟩⟩
  | _, _, .switch _ h hcases _ _ hbody _, hused => by
    refine List.forall_mem_append.mpr ⟨h.isName hused.tail.left, ?_⟩
    rw [namesInAll_append, namesInAll, namesInAll, List.append_nil]
    exact List.forall_mem_append.mpr ⟨hcases.isName hused.tail.right.left,
      hbody.isName hused.tail.right.right.tail.right.left⟩
  | _, _, .branch _ h _ hthen _, hused => by
    refine List.forall_mem_append.mpr ⟨h.isName hused.tail.left, ?_⟩
    rw [namesInAll, List.append_nil]
    exact hthen.isName hused.tail.right.tail.left
  | _, _, .branchElse _ h _ hthen _ helse _, hused =>
    List.forall_mem_append.mpr ⟨h.isName hused.tail.left, List.forall_mem_append.mpr
      ⟨hthen.isName hused.tail.right.tail.left,
        helse.isName hused.tail.right.tail.right.tail.left⟩⟩
  | _, _, .loop _ h _ hbody _, hused => List.forall_mem_append.mpr
    ⟨h.isName hused.tail.left, hbody.isName hused.tail.right.tail.left⟩
  | _, _, .ret _ h _, hused => h.isName hused.tail.left
  | _, _, .assignment hreceiver _ hvalue _, hused =>
    List.forall_mem_append.mpr ⟨hreceiver.isName hused.left, hvalue.isName hused.right.tail.left⟩
  | _, _, .discard h _, hused => h.isName hused.left

theorem Grammar.Block.isName : ∀ {used : List Token} {nodes : List Node},
    Block used nodes → AllLexed used → ∀ name ∈ namesInAll nodes, IsName name
  | _, _, .nil, _ => fun _ hmem => absurd hmem List.not_mem_nil
  | _, _, .cons h hrest, hused =>
    List.forall_mem_append.mpr ⟨h.isName hused.left, hrest.isName hused.right⟩

theorem Grammar.Cases.isName : ∀ {used : List Token} {nodes : List Node},
    Cases used nodes → AllLexed used → ∀ name ∈ namesInAll nodes, IsName name
  | _, _, .nil, _ => fun _ hmem => absurd hmem List.not_mem_nil
  | _, _, .cons _ h _ hbody hrest, hused =>
    List.forall_mem_append.mpr ⟨List.forall_mem_append.mpr ⟨h.isName hused.tail.left,
      hbody.isName hused.tail.right.tail.left⟩, hrest.isName hused.tail.right.tail.right⟩

end

theorem Grammar.Global.isName {used : List Token} {node : Node} (h : Global used node)
    (hused : AllLexed used) : ∀ name ∈ node.names, IsName name := by
  cases h with
  | list _ hname htype _ _ h _ _ =>
    exact List.forall_mem_cons.mpr ⟨isName_cons hname hused.tail, List.forall_mem_append.mpr
      ⟨htype.isName hused.tail.tail.left, h.isName hused.tail.tail.right.tail.tail.left⟩⟩
  | mutable _ hname htype h _ =>
    exact List.forall_mem_cons.mpr ⟨isName_cons hname hused.tail, List.forall_mem_append.mpr
      ⟨htype.isName hused.tail.tail.left, h.isName hused.tail.tail.right.left⟩⟩
  | constant _ hname htype _ h _ =>
    exact List.forall_mem_cons.mpr ⟨isName_cons hname hused.tail, List.forall_mem_append.mpr
      ⟨htype.isName hused.tail.tail.left, h.isName hused.tail.tail.right.tail.left⟩⟩

/-- The names of parameters, and of their types. -/
theorem Grammar.Parameters.isName {used : List Token} {parameters : List (String × Option String)}
    (h : Parameters used parameters) (hused : AllLexed used) :
    (∀ name ∈ parameters.map Prod.fst, IsName name) ∧
      ∀ name ∈ (parameters.map Prod.snd).flatMap Option.toList, IsName name := by
  induction h with
  | one hname htype =>
    refine ⟨List.forall_mem_singleton.mpr (isName_cons hname hused), ?_⟩
    rw [List.map_singleton, List.flatMap_singleton]
    exact htype.isName hused.tail
  | cons hname htype _ _ ih =>
    obtain ⟨hnames, htypes⟩ := ih hused.tail.right.tail
    exact ⟨List.forall_mem_cons.mpr ⟨isName_cons hname hused, hnames⟩,
      List.forall_mem_append.mpr ⟨htype.isName hused.tail.left, htypes⟩⟩

theorem Grammar.Function.isName {used : List Token} {node : Node} (h : Function used node)
    (hused : AllLexed used) : ∀ name ∈ node.names, IsName name := by
  cases h with
  | @mk _ _ _ _ parameters _ _ _ _ _ _ _ _ hname _ hparameters _ htype _ hbody _ =>
    have hrest := hused.tail.tail.tail
    have hboth : (∀ name ∈ parameters.map Prod.fst, IsName name) ∧
        ∀ name ∈ (parameters.map Prod.snd).flatMap Option.toList, IsName name := by
      -- a function without parameters, and one with some
      rcases hparameters with ⟨rfl, rfl⟩ | hparameters
      · simp
      · exact hparameters.isName hrest.left
    refine List.forall_mem_cons.mpr ⟨isName_cons hname hused.tail, ?_⟩
    refine List.forall_mem_append.mpr ⟨hboth.1, List.forall_mem_append.mpr ⟨hboth.2, ?_⟩⟩
    exact List.forall_mem_append.mpr ⟨htype.isName hrest.right.tail.left,
      hbody.isName hrest.right.tail.right.tail.left⟩

/-- The names in phrases in a row. -/
theorem Grammar.Many.isName {phrase : List Token → Node → Prop} {used : List Token}
    {nodes : List Node} (hphrase : ∀ {used node}, phrase used node → AllLexed used →
      ∀ name ∈ node.names, IsName name)
    (h : Many phrase used nodes) (hused : AllLexed used) :
    ∀ name ∈ namesInAll nodes, IsName name := by
  induction h with
  | nil => exact fun _ hmem => absurd hmem List.not_mem_nil
  | cons h _ ih => exact List.forall_mem_append.mpr ⟨hphrase h hused.left, ih hused.right⟩

/-- The names in the tree of a source text are identifiers that are no keywords. -/
theorem isName_of_parseProgram {source : String} {program : Node}
    (h : parseProgram source = .ok program) : ∀ name ∈ program.names, IsName name := by
  obtain ⟨tokens, htokens, hprogram⟩ := Parser.exists_program_of_parseProgram h
  cases hprogram with
  | mk hglobals hfunctions =>
    exact List.forall_mem_append.mpr ⟨hglobals.isName Global.isName htokens.left,
      hfunctions.isName Function.isName htokens.right⟩

end BlockScript
