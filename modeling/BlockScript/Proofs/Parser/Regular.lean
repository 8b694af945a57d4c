import BlockScript.Proofs.Escape
import BlockScript.Proofs.Parser.Names
import BlockScript.Proofs.Shaped.Tree
import Mathlib
/-!
# Regular trees

Whoever walks the tree of a source text takes many things for granted: that names are identifiers,
that a function has as many types for its parameters as parameters, that a switch ends with its
default case and has no other, that the only lists are the values of global variables, and that the
operands of an operation need no parentheses where they have none. Nothing checks this at run time,
and trees that were loaded need not be like this. Parsed trees are.

What is taken for granted is said of one node and the nodes right below it, for every node that is
somewhere in a tree.

## Main definitions

* `Node.children`, `Node.IsPartOf` — the nodes right below a node, and all nodes of a tree
* `Parser.Tier.tightness`, `Node.IsOperation` — tiers in order, and the operations of a tier
* `Node.IsRegular` — what is taken for granted of a node

## Main results

* `Grammar.Expression.tightness_le` — the operations that an expression of a tier can be
* `parsed_trees_are_regular` — every node in the tree of a source text is regular
-/

namespace BlockScript

open Grammar
open BlockScript.Parser (AllLexed Tier)

/-! ### Regular nodes -/

/-- The place of a tier among the others, from the loosest to the tightest. -/
def Parser.Tier.tightness : Tier → Nat
  | .logical => 0
  | .comparing => 1
  | .adding => 2
  | .multiplying => 3

/-- A scalar of a kind that can be spelled in a source text: characters are single code points, and
decimals have digits behind the point. -/
def Scalar.IsSpellable : Scalar → Prop
  | .character value => value.length = 1
  | .decimal value => value.exponent < 0
  | _ => True

namespace Node

/-- The nodes right below a node, with `null` for those that are absent. -/
def children : Node → List Node
  | null | literal .. => []
  | group inner _ | discard inner | ret inner => [inner]
  | binary _ left right _ => [left, right]
  | access _ offset _ _ => [offset]
  | call _ arguments _ _ => arguments
  | listLiteral values _ => values
  | declaration _ _ value _ | global _ _ _ value _ _ => [value]
  | assignment receiver value => [receiver, value]
  | branch condition thenBody elseBody => condition :: (thenBody ++ elseBody)
  | case value body => value :: body
  | switch condition cases => condition :: cases
  | loop condition body => condition :: body
  | function _ _ _ _ body _ => body
  | program globals functions => globals ++ functions

/-- A node is a tree itself, or stands somewhere below its root. -/
def IsPartOf (part tree : Node) : Prop :=
  Relation.ReflTransGen (fun node child => child ∈ node.children) tree part

/-- A binary operation with an operator of the given tier. -/
def IsOperation (tier : Tier) : Node → Prop
  | binary symbol .. => symbol ∈ tier.symbols
  | _ => False

/-- What a node of its kind must be like, given the nodes right below it. -/
def FitsItsKind : Node → Prop
  | literal value _ => value.IsSpellable
  -- operators of one tier are grouped to the left, and looser ones need parentheses
  | binary symbol left right _ =>
    ∃ tier : Tier, symbol ∈ tier.symbols ∧
      (∀ other, left.IsOperation other → tier.tightness ≤ other.tightness) ∧
      ∀ other, right.IsOperation other → tier.tightness < other.tightness
  | listLiteral values _ => values ≠ []
  -- the default case is the only one without a value, and stands behind all others
  | switch _ cases =>
    ∃ valued body, cases = valued ++ [case null body] ∧
      ∀ node ∈ valued, ∃ value body, node = case value body ∧ value.isNull = false
  -- what cannot be assigned to has a value from the beginning
  | global _ mutable _ value isList _ =>
    (isList = true ↔ value.kind? = some .listLiteral) ∧ (mutable = false → value.isNull = false)
  | function _ parameters parameterTypes _ _ _ => parameters.length = parameterTypes.length
  | _ => True

/-- What is taken for granted of a node in a tree. -/
structure IsRegular (node : Node) : Prop where
  /-- It is as a node of its kind must be. -/
  kind : node.FitsItsKind
  /-- Only global variables have lists right below them. -/
  lists : ∀ child ∈ node.children, child.kind? = some .listLiteral → node.kind? = some .global

/-- Every node in a tree is regular. -/
def AllRegular (tree : Node) : Prop :=
  ∀ node : Node, node.IsPartOf tree → node.IsRegular

/-- A tree that may stand below any node. -/
structure IsOrdinary (tree : Node) : Prop where
  /-- Every node in it is regular. -/
  regular : tree.AllRegular
  /-- It is no list. -/
  noList : tree.kind? ≠ some .listLiteral

variable {node : Node}

theorem IsRegular.allRegular (h : node.IsRegular)
    (hchildren : ∀ child ∈ node.children, child.AllRegular) : node.AllRegular := by
  intro part hpart
  -- a part is the root, or a part of one of the nodes right below it
  rcases hpart.cases_head with rfl | ⟨child, hchild, hbelow⟩
  · exact h
  · exact hchildren child hchild part hbelow

theorem allRegular_of_children (hkind : node.FitsItsKind)
    (hchildren : ∀ child ∈ node.children, child.IsOrdinary) : node.AllRegular := by
  have hlists : ∀ child ∈ node.children, child.kind? = some .listLiteral →
      node.kind? = some .global :=
    fun child hchild hlist => absurd hlist (hchildren child hchild).noList
  exact IsRegular.allRegular ⟨hkind, hlists⟩ fun child hchild => (hchildren child hchild).regular

/-- The way to show that a tree is ordinary: by its root and the trees right below it. -/
theorem isOrdinary_of_children (hkind : node.FitsItsKind)
    (hlist : node.kind? ≠ some .listLiteral)
    (hchildren : ∀ child ∈ node.children, child.IsOrdinary) : node.IsOrdinary :=
  ⟨allRegular_of_children hkind hchildren, hlist⟩

theorem isOrdinary_null : null.IsOrdinary :=
  isOrdinary_of_children trivial nofun (List.forall_mem_nil _)

end Node

open Node

/-! ### Literals and names -/

theorem Grammar.Literal.isSpellable {token : Token} {value : Scalar} (h : Literal token value)
    (htoken : token.Lexed) : value.IsSpellable := by
  cases h with
  | decimal hkind hvalue =>
    obtain ⟨d, hd, hexponent⟩ := htoken.exists_decimal hkind
    obtain rfl := Option.some.inj (hvalue.symm.trans hd)
    -- a decimal with too many digits is rounded
    exact Int.lt_of_le_sub_one
      (Decimal.exponent_rounded_le (by decide) (Int.le_sub_one_of_lt hexponent))
  | character hkind =>
    obtain ⟨c, hc⟩ := htoken.exists_character hkind
    rw [hc]
    exact String.length_singleton
  | _ => trivial

theorem Grammar.IsName.mem_language {name : String} (h : IsName name) :
    name.toList ∈ Terminal.language .identifier ∧ name ∉ keywords := by
  obtain ⟨token, htoken, hname, rfl⟩ := h
  rw [Token.isName, Bool.and_eq_true, beq_iff_eq] at hname
  obtain ⟨hkind, hkeyword⟩ := hname
  refine ⟨hkind ▸ htoken.mem_language, ?_⟩
  simpa using hkeyword

/-! ### Tiers -/

theorem Parser.Tier.tightness_tighter {tier next : Tier} (h : tier.tighter? = some next) :
    next.tightness = tier.tightness + 1 := by
  cases tier <;> cases h <;> rfl

/-- No operator belongs to two tiers. -/
theorem Parser.Tier.eq_of_mem_symbols {tier other : Tier} {symbol : String}
    (h : symbol ∈ tier.symbols) (hother : symbol ∈ other.symbols) : tier = other := by
  revert symbol
  cases tier <;> cases other <;> decide

mutual

/-- An expression of a tier is no operation of a looser tier. -/
theorem Grammar.Expression.tightness_le : ∀ {tier : Tier} {used : List Token} {node : Node},
    Expression tier used node → ∀ other, node.IsOperation other → tier.tightness ≤ other.tightness
  | _, _, _, .operand h, other, hoperation => Nat.le_of_lt (h.tightness_lt other hoperation)
  | _, _, _, .binary _ _ hsymbol _, _, hoperation =>
    Nat.le_of_eq (congrArg Tier.tightness (Tier.eq_of_mem_symbols hsymbol hoperation))

/-- An operand of a tier is an operation of a tighter tier, if it is an operation at all. -/
theorem Grammar.Operand.tightness_lt : ∀ {tier : Tier} {used : List Token} {node : Node},
    Operand tier used node → ∀ other, node.IsOperation other → tier.tightness < other.tightness
  | _, _, _, .tighter hnext h, other, hoperation => by
    -- the next tier is one step tighter, which makes the bound a strict one
    have hle := h.tightness_le other hoperation
    rw [Tier.tightness_tighter hnext] at hle
    exact Nat.lt_of_succ_le hle
  | _, _, _, .primary _ h, _, hoperation => by cases h <;> cases hoperation

end

/-! ### Trees of the grammar -/

mutual

theorem Grammar.Expression.isOrdinary : ∀ {tier : Tier} {used : List Token} {node : Node},
    Expression tier used node → AllLexed used → node.IsOrdinary
  | _, _, _, .operand h, hused => h.isOrdinary hused
  | tier, _, _, .binary hleft _ hsymbol hright, hused =>
    isOrdinary_of_children ⟨tier, hsymbol, hleft.tightness_le, hright.tightness_lt⟩ nofun
      (List.forall_mem_cons.mpr ⟨hleft.isOrdinary hused.left,
        List.forall_mem_singleton.mpr (hright.isOrdinary hused.right.tail)⟩)

theorem Grammar.Operand.isOrdinary : ∀ {tier : Tier} {used : List Token} {node : Node},
    Operand tier used node → AllLexed used → node.IsOrdinary
  | _, _, _, .tighter _ h, hused => h.isOrdinary hused
  | _, _, _, .primary _ h, hused => h.isOrdinary hused

theorem Grammar.Primary.isOrdinary : ∀ {used : List Token} {node : Node},
    Primary used node → AllLexed used → node.IsOrdinary
  | _, _, .literal h, hused =>
    isOrdinary_of_children (h.isSpellable hused.head) nofun (List.forall_mem_nil _)
  | _, _, .group _ h _, hused =>
    isOrdinary_of_children trivial nofun
      (List.forall_mem_singleton.mpr (h.isOrdinary hused.tail.left))
  | _, _, .variable _, _ =>
    isOrdinary_of_children trivial nofun (List.forall_mem_singleton.mpr isOrdinary_null)
  | _, _, .element _ _ h _, hused =>
    isOrdinary_of_children trivial nofun
      (List.forall_mem_singleton.mpr (h.isOrdinary hused.tail.tail.left))
  | _, _, .call _ _ h _, hused =>
    isOrdinary_of_children trivial nofun (h.isOrdinary hused.tail.tail.left)

theorem Grammar.Arguments.isOrdinary : ∀ {used : List Token} {nodes : List Node},
    Arguments used nodes → AllLexed used → ∀ node ∈ nodes, node.IsOrdinary
  | _, _, .none, _ => List.forall_mem_nil _
  | _, _, .some h, hused => h.isOrdinary hused

theorem Grammar.Expressions.isOrdinary : ∀ {used : List Token} {nodes : List Node},
    Expressions used nodes → AllLexed used → ∀ node ∈ nodes, node.IsOrdinary
  | _, _, .one h, hused => List.forall_mem_singleton.mpr (h.isOrdinary hused)
  | _, _, .cons h _ hrest, hused =>
    List.forall_mem_cons.mpr ⟨h.isOrdinary hused.left, hrest.isOrdinary hused.right.tail⟩

end

theorem Grammar.Expressions.ne_nil {used : List Token} {nodes : List Node}
    (h : Expressions used nodes) : nodes ≠ [] := by
  cases h <;> exact List.cons_ne_nil _ _

theorem Grammar.Initial.isOrdinary {used : List Token} {value : Node} (h : Initial used value)
    (hused : AllLexed used) : value.IsOrdinary := by
  cases h with
  | absent => exact isOrdinary_null
  | present _ h => exact h.isOrdinary hused.tail

/-- The cases of a switch before its default case have values. -/
theorem Grammar.Cases.exists_case {used : List Token} {nodes : List Node} (h : Cases used nodes)
    (hused : AllLexed used) :
    ∀ node ∈ nodes, ∃ value body, node = .case value body ∧ value.isNull = false := by
  cases h with
  | nil => exact List.forall_mem_nil _
  | cons _ h _ _ hrest =>
    have hvalue := isExpression_of_expression h hused.tail.left
    exact List.forall_mem_cons.mpr ⟨⟨_, _, rfl, hvalue.isNull_eq⟩,
      exists_case hrest hused.tail.right.tail.right⟩

mutual

theorem Grammar.Statement.isOrdinary : ∀ {used : List Token} {node : Node},
    Statement used node → AllLexed used → node.IsOrdinary
  | _, _, .declaration _ _ _ h _, hused =>
    isOrdinary_of_children trivial nofun
      (List.forall_mem_singleton.mpr (h.isOrdinary hused.tail.tail.right.left))
  | _, _, .switch _ h hcases _ _ hbody _, hused => by
    have hrest := hused.tail.right
    -- the default case is the one that is put behind the others
    have hdefault : (Node.case .null _).IsOrdinary :=
      isOrdinary_of_children trivial nofun (List.forall_mem_cons.mpr
        ⟨isOrdinary_null, hbody.isOrdinary hrest.right.tail.right.left⟩)
    refine isOrdinary_of_children ⟨_, _, rfl, hcases.exists_case hrest.left⟩ nofun ?_
    exact List.forall_mem_cons.mpr ⟨h.isOrdinary hused.tail.left, List.forall_mem_append.mpr
      ⟨hcases.isOrdinary hrest.left, List.forall_mem_singleton.mpr hdefault⟩⟩
  | _, _, .branch _ h _ hthen _, hused =>
    isOrdinary_of_children trivial nofun (List.forall_mem_cons.mpr
      ⟨h.isOrdinary hused.tail.left, List.forall_mem_append.mpr
        ⟨hthen.isOrdinary hused.tail.right.tail.left, List.forall_mem_nil _⟩⟩)
  | _, _, .branchElse _ h _ hthen _ helse _, hused =>
    isOrdinary_of_children trivial nofun (List.forall_mem_cons.mpr
      ⟨h.isOrdinary hused.tail.left, List.forall_mem_append.mpr
        ⟨hthen.isOrdinary hused.tail.right.tail.left,
          helse.isOrdinary hused.tail.right.tail.right.tail.left⟩⟩)
  | _, _, .loop _ h _ hbody _, hused =>
    isOrdinary_of_children trivial nofun (List.forall_mem_cons.mpr
      ⟨h.isOrdinary hused.tail.left, hbody.isOrdinary hused.tail.right.tail.left⟩)
  | _, _, .ret _ h _, hused =>
    isOrdinary_of_children trivial nofun
      (List.forall_mem_singleton.mpr (h.isOrdinary hused.tail.left))
  | _, _, .assignment hreceiver _ hvalue _, hused =>
    isOrdinary_of_children trivial nofun (List.forall_mem_cons.mpr
      ⟨hreceiver.isOrdinary hused.left,
        List.forall_mem_singleton.mpr (hvalue.isOrdinary hused.right.tail.left)⟩)
  | _, _, .discard h _, hused =>
    isOrdinary_of_children trivial nofun
      (List.forall_mem_singleton.mpr (h.isOrdinary hused.left))

theorem Grammar.Block.isOrdinary : ∀ {used : List Token} {nodes : List Node},
    Block used nodes → AllLexed used → ∀ node ∈ nodes, node.IsOrdinary
  | _, _, .nil, _ => List.forall_mem_nil _
  | _, _, .cons h hrest, hused =>
    List.forall_mem_cons.mpr ⟨h.isOrdinary hused.left, hrest.isOrdinary hused.right⟩

theorem Grammar.Cases.isOrdinary : ∀ {used : List Token} {nodes : List Node},
    Cases used nodes → AllLexed used → ∀ node ∈ nodes, node.IsOrdinary
  | _, _, .nil, _ => List.forall_mem_nil _
  | _, _, .cons _ h _ hbody hrest, hused => by
    have hbehind := hused.tail.right.tail
    refine List.forall_mem_cons.mpr ⟨?_, hrest.isOrdinary hbehind.right⟩
    exact isOrdinary_of_children trivial nofun (List.forall_mem_cons.mpr
      ⟨h.isOrdinary hused.tail.left, hbody.isOrdinary hbehind.left⟩)

end

/-! ### Programs -/

/-- A global variable that is no list, with its initial value. -/
theorem isOrdinary_global {name : String} {mutable : Bool} {typeName : Option String} {value : Node}
    (hvalue : value.IsOrdinary) (hnull : mutable = false → value.isNull = false) :
    (Node.global name mutable typeName value false none).IsOrdinary := by
  have hlist : false = true ↔ value.kind? = some .listLiteral :=
    ⟨nofun, fun h => absurd h hvalue.noList⟩
  exact isOrdinary_of_children ⟨hlist, hnull⟩ nofun (List.forall_mem_singleton.mpr hvalue)

/-- A list is not ordinary, but the global variable that it is the value of is. -/
theorem isOrdinary_globalList {name : String} {typeName : Option String} {values : List Node}
    (hne : values ≠ []) (hvalues : ∀ value ∈ values, value.IsOrdinary) :
    (Node.global name true typeName (.listLiteral values none) true none).IsOrdinary := by
  have hlist : (Node.listLiteral values none).AllRegular := allRegular_of_children hne hvalues
  have hroot : (Node.global name true typeName (.listLiteral values none) true none).IsRegular :=
    ⟨⟨⟨fun _ => rfl, fun _ => rfl⟩, nofun⟩, fun _ _ _ => rfl⟩
  exact ⟨hroot.allRegular (List.forall_mem_singleton.mpr hlist), nofun⟩

theorem Grammar.Global.isOrdinary {used : List Token} {node : Node} (h : Global used node)
    (hused : AllLexed used) : node.IsOrdinary := by
  cases h with
  | list _ _ _ _ _ h _ _ =>
    exact isOrdinary_globalList h.ne_nil (h.isOrdinary hused.tail.tail.right.tail.tail.left)
  | mutable _ _ _ h _ => exact isOrdinary_global (h.isOrdinary hused.tail.tail.right.left) nofun
  | constant _ _ _ _ h _ =>
    have hlexed := hused.tail.tail.right.tail.left
    exact isOrdinary_global (h.isOrdinary hlexed) fun _ =>
      (isExpression_of_expression h hlexed).isNull_eq

theorem Grammar.Function.isOrdinary {used : List Token} {node : Node} (h : Function used node)
    (hused : AllLexed used) : node.IsOrdinary := by
  cases h with
  | @mk _ _ _ _ parameters _ _ _ _ _ _ _ _ _ _ _ _ _ _ hbody _ =>
    -- names and types come from one list of parameters
    have hlength : (parameters.map Prod.fst).length = (parameters.map Prod.snd).length := by
      rw [List.length_map, List.length_map]
    exact isOrdinary_of_children hlength nofun
      (hbody.isOrdinary hused.tail.tail.tail.right.tail.right.tail.left)

theorem Grammar.Program.isOrdinary {used : List Token} {node : Node} (h : Program used node)
    (hused : AllLexed used) : node.IsOrdinary := by
  cases h with
  | mk hglobals hfunctions =>
    refine isOrdinary_of_children trivial nofun (List.forall_mem_append.mpr ⟨?_, ?_⟩)
    · exact forall_mem_of_many_lexed (fun _ _ h => h.isOrdinary) hglobals hused.left
    · exact forall_mem_of_many_lexed (fun _ _ h => h.isOrdinary) hfunctions hused.right

/-- The tree of a source text is a program. The names in it are identifiers that are no keywords,
and each of its nodes is what those who walk it take for granted. -/
theorem parsed_trees_are_regular {source : String} {tree : Node}
    (h : parseProgram source = .ok tree) :
    tree.kind? = some .program ∧
      (∀ name ∈ tree.names, name.toList ∈ Terminal.language .identifier ∧ name ∉ keywords) ∧
      ∀ node : Node, node.IsPartOf tree → node.IsRegular := by
  obtain ⟨tokens, htokens, hprogram⟩ := Parser.exists_program_of_parseProgram h
  refine ⟨by cases hprogram; rfl, ?_, (hprogram.isOrdinary htokens).regular⟩
  exact fun name hname => (isName_of_parseProgram h name hname).mem_language

/-- A text with a list, operators of one tier and of two, parameters and a switch. -/
def regularSource : String :=
  "LIST xs = [1.50]; VAL n = 1 - 2 - 3 * 4; " ++
    "FUN f(c: Character, d) DO SWITCH c CASE 'a': DEFAULT END END"

/-- The tree of `regularSource`. -/
def regularTree : Node :=
  .program
    [.global "xs" true none
        (.listLiteral [.literal (.decimal ⟨false, 150, -2⟩) none] none) true none,
      .global "n" false none
        (.binary "-" (.binary "-" (.literal (.integer 1) none) (.literal (.integer 2) none) none)
          (.binary "*" (.literal (.integer 3) none) (.literal (.integer 4) none) none) none)
        false none]
    [.function "f" ["c", "d"] [some "Character", none] none
      [.switch (.access "c" .null none none)
        [.case (.literal (.character "a") none) [], .case .null []]] none]

theorem regularTree_isRegular :
    parseProgram regularSource = .ok regularTree ∧ regularTree.kind? = some .program ∧
      (∀ name ∈ regularTree.names,
        name.toList ∈ Terminal.language .identifier ∧ name ∉ keywords) ∧
      ∀ node : Node, node.IsPartOf regularTree → node.IsRegular := by
  have hparse : parseProgram regularSource = .ok regularTree := by
    cbv
  exact ⟨hparse, parsed_trees_are_regular hparse⟩

end BlockScript
