import BlockScript.Proofs.Analysis.Annotation
import BlockScript.Proofs.Naming.Emitted
import BlockScript.Proofs.Parser.Names
/-!
# Spelling names in Java

Names of a source text are names in Java as well, and the emission adds only the name of `print`. So
the trees that expressions of an accepted program stand for consist of what can be told apart in a
line of Java.

## Main definitions

* `Node.IsSpelled` — trees whose names are names in Java
* `Tables.Spells` — tables whose entries have such names

## Main results

* `isSpelled_of_accepted` — annotated trees of source texts
* `Typed.exists_denotes` — what a well-typed expression stands for
-/

namespace BlockScript

open Grammar
open Java (Denotes DenoteAll Term isWord)
open Node (namesInAll)
open Tables (NamesBindings)

/-- Digits come before all letters. -/
theorem isDigit_eq_false_of_isAlpha {c : Char} (h : c.isAlpha = true) : c.isDigit = false := by
  rw [Bool.eq_false_iff]
  intro hdigit
  have hto : c.val ≤ '9'.val := of_decide_eq_true ((Bool.and_eq_true _ _).mp hdigit).2
  have hfrom : 'A'.val ≤ c.val := by
    rcases (Bool.or_eq_true _ _).mp h with hupper | hlower
    · exact (of_decide_eq_true hupper).1
    · exact UInt32.le_trans (by decide) (of_decide_eq_true ((Bool.and_eq_true _ _).mp hlower).1)
  exact absurd (UInt32.le_trans hfrom hto) (by decide)

theorem isWordStart_of_isIdentifierStart {c : Char} (h : Lexer.isIdentifierStart c = true) :
    Java.isWordStart c = true := by
  rw [Lexer.isIdentifierStart, Bool.or_eq_true, beq_iff_eq] at h
  rcases h with halpha | rfl
  · have hdigit : c.isDigit = false := isDigit_eq_false_of_isAlpha halpha
    have hpoint : c ≠ '.' := by
      rintro rfl
      exact absurd halpha (by decide)
    simp [Java.isWordStart, Java.isWordPart, Char.isAlphanum, halpha, hdigit, hpoint]
  · decide

theorem isWordPart_of_isIdentifierPart {c : Char} (h : Lexer.isIdentifierPart c = true) :
    Java.isWordPart c = true := by
  simp only [Lexer.isIdentifierPart, Java.isWordPart, Bool.or_eq_true] at h ⊢
  exact .inl (.inl h)

/-- What is read as a name is a name in Java, too. -/
theorem Grammar.IsName.isWord {name : String} (h : IsName name) : isWord name = true := by
  obtain ⟨c, rest, hchars, hstart, hparts⟩ := h.exists_cons
  rw [Java.isWord, hchars]
  dsimp only
  rw [isWordStart_of_isIdentifierStart hstart, Bool.true_and, List.all_eq_true]
  exact fun d hd => isWordPart_of_isIdentifierPart (hparts d hd)

/-- The names in a tree are names in Java. -/
abbrev Node.IsSpelled (node : Node) : Prop :=
  ∀ name ∈ node.names, isWord name = true

/-- The names in several trees are names in Java. -/
abbrev Node.AllSpelled (nodes : List Node) : Prop :=
  ∀ name ∈ namesInAll nodes, isWord name = true

open Node (AllSpelled)

theorem Node.allSpelled_body {name : String} {parameters : List String}
    {types : List (Option String)} {resultType : Option String} {body : List Node}
    {signature : Option Signature}
    (h : (function name parameters types resultType body signature).IsSpelled) :
    AllSpelled body := by
  intro own hmem
  apply h
  rw [names]
  simp [hmem]

/-- The analysis does not change the names in the tree of a source text. -/
theorem isSpelled_of_accepted {source : String} {program annotated : Node} {tables : Tables}
    (hparse : parseProgram source = .ok program)
    (hcheck : (checkProgram .initial program).Yields (annotated, tables)) :
    annotated.IsSpelled := by
  have herase : (checkProgram .initial program).result.1.erase = program.erase :=
    annotates_program .initial program
  intro name hmem
  rw [hcheck.2] at herase
  rw [← Node.names_erase annotated, herase, Node.names_erase program] at hmem
  exact (isName_of_parseProgram hparse name hmem).isWord

/-! ### Tables -/

/-- Bindings stand under their own names, and functions have names in Java. -/
structure Tables.Spells (chain : StaticChain) : Prop where
  named : NamesBindings chain
  functions : ∀ frame ∈ chain, ∀ entry ∈ frame.funs, isWord entry.2.javaName = true

open Tables (Spells)

namespace Tables.Spells

variable {tables after : Tables} {name : String} {type : Option Ty} {mutable isList : Bool}
  {binding : Binding}

theorem initial : Spells Tables.initial.chain where
  named := by
    intro name binding h
    cases h
  functions := by
    intro frame hframe entry hentry
    obtain rfl | rfl : frame = {} ∨ frame = Tables.builtins := by
      simpa [Tables.chain, Tables.initial] using hframe
    · cases hentry
    · obtain rfl := List.mem_singleton.mp hentry
      decide

theorem enter (h : Spells tables.chain) : Spells tables.enter.chain where
  named := h.named.enter
  functions := List.forall_mem_cons.mpr
    ⟨fun _ hmem => absurd hmem List.not_mem_nil, h.functions⟩

/-- No function is declared with a variable. -/
theorem declare (h : Spells tables.chain)
    (hdeclare : tables.declare name type mutable isList = .ok (binding, after)) :
    Spells after.chain := by
  refine ⟨h.named.declare hdeclare, ?_⟩
  obtain ⟨-, -, rfl⟩ := Tables.declare_eq_ok_iff.mp hdeclare
  exact List.forall_mem_cons.mpr (List.forall_mem_cons.mp h.functions)

theorem declareFunctions {nodes : List Node} (h : Spells tables.chain)
    (hdeclared : DeclaredFunctions tables nodes after)
    (hnames : AllSpelled nodes) : Spells after.chain := by
  induction hdeclared with
  | nil => exact h
  | @cons _ _ _ name _ _ _ _ f _ hname hjava _ hdeclare _ ih =>
    obtain ⟨-, rfl⟩ := Tables.declareFunction_eq_ok_iff.mp hdeclare
    obtain ⟨hword, hrest⟩ := List.forall_mem_append.mp hnames
    refine ih ⟨h.named, ?_⟩ hrest
    obtain ⟨hinner, houter⟩ := List.forall_mem_cons.mp h.functions
    refine List.forall_mem_cons.mpr ⟨List.forall_mem_append.mpr ⟨hinner, ?_⟩, houter⟩
    exact List.forall_mem_singleton.mpr (hjava ▸ hword name List.mem_cons_self)

/-- A function that is found has a name in Java. -/
theorem isWord_javaName {chain : StaticChain} {arity : Nat} {f : Signature} (h : Spells chain)
    (hfind : chain.findFunction? name arity = some f) : isWord f.javaName = true := by
  obtain ⟨frame, hframe, hlookup⟩ := List.exists_of_findSome?_eq_some hfind
  obtain ⟨before, behind, hfuns, -⟩ := List.lookup_eq_some_iff.mp hlookup
  exact h.functions frame hframe ((name, arity), f) (by rw [hfuns]; simp)

end Tables.Spells

theorem Tables.Grows.spells {tables after : Tables} (hgrows : tables.Grows after)
    (h : Spells tables.chain) : Spells after.chain := by
  induction hgrows with
  | refl => exact h
  | skip _ _ ih => exact ih h
  | declare _ hdeclare _ ih => exact ih (h.declare hdeclare)

/-! ### Expressions -/

theorem Java.Term.isLexical_ofNumeral (text : String) : (Term.ofNumeral text).IsLexical := by
  unfold Term.ofNumeral
  split <;> trivial

/-- Literals have names in Java only for truth values and for nil. -/
theorem Java.Term.isLexical_ofScalar (value : Scalar) : (Term.ofScalar value).IsLexical := by
  cases value with
  | integer value => exact isLexical_ofNumeral _
  | decimal value => exact isLexical_ofNumeral _
  | character value | string value => trivial
  | nil => exact (by decide : isWord "null" = true)
  | boolean value =>
    cases value with
    | true => exact (by decide : isWord "true" = true)
    | false => exact (by decide : isWord "false" = true)

section

variable {chain : StaticChain}

mutual

/-- A well-typed expression with names in Java stands for a term with such names. -/
theorem Typed.exists_denotes (hspells : Spells chain) : ∀ {node : Node} {ty : Ty},
    Typed chain node ty → node.IsSpelled → ∃ tree, Denotes node tree ∧ tree.IsLexical
  | _, _, .literal, _ => ⟨_, .literal _ _, Term.isLexical_ofScalar _⟩
  | _, _, .group h, hnames => by
    obtain ⟨tree, htree, hlexical⟩ := h.exists_denotes hspells hnames
    exact ⟨tree, .group _ htree, hlexical⟩
  | _, _, @Typed.binary _ symbol op _ _ _ _ _ hop hleft hright _, hnames => by
    obtain ⟨hnamesLeft, hnamesRight⟩ := List.forall_mem_append.mp hnames
    obtain ⟨a, ha, hlexical⟩ := hleft.exists_denotes hspells hnamesLeft
    obtain ⟨b, hb, hlexical'⟩ := hright.exists_denotes hspells hnamesRight
    obtain rfl := Operator.text_of_ofText? hop
    by_cases hpower : op = .power
    · subst hpower
      exact ⟨_, .power _ ha hb, by decide, hlexical, hlexical', trivial⟩
    · exact ⟨_, .binary ⟨op, hpower⟩ _ ha hb, hlexical, hlexical'⟩
  | _, _, .variable _ hfind _ _, hnames => by
    obtain ⟨hname, -⟩ := List.forall_mem_cons.mp hnames
    refine ⟨_, .name _ _ _, ?_⟩
    rw [Term.IsLexical, hspells.named _ _ hfind]
    exact hname
  | _, _, .element _ hoffset hfind _ _, hnames => by
    obtain ⟨hname, hnamesOffset⟩ := List.forall_mem_cons.mp hnames
    obtain ⟨index, hindex, hlexical⟩ := hoffset.exists_denotes hspells hnamesOffset
    refine ⟨_, .element _ _ _ hindex, ?_, hlexical⟩
    rw [hspells.named _ _ hfind]
    exact hname
  | _, _, .call hfind harguments, hnames => by
    obtain ⟨-, hnamesArguments⟩ := List.forall_mem_cons.mp hnames
    obtain ⟨trees, htrees, hlexical⟩ := harguments.exists_denotes hspells hnamesArguments
    exact ⟨_, .call _ _ _ htrees, hspells.isWord_javaName hfind, hlexical⟩

theorem TypedArguments.exists_denotes (hspells : Spells chain) : ∀ {nodes : List Node}
    {types : List Ty}, TypedArguments chain nodes types → AllSpelled nodes →
      ∃ trees, DenoteAll nodes trees ∧ Java.Term.AreLexical trees
  | _, _, .nil, _ => ⟨[], .nil, trivial⟩
  | _, _, .cons h _ hrest, hnames => by
    obtain ⟨hfirst, hothers⟩ := List.forall_mem_append.mp hnames
    obtain ⟨tree, htree, hlexical⟩ := h.exists_denotes hspells hfirst
    obtain ⟨trees, htrees, hlexical'⟩ := hrest.exists_denotes hspells hothers
    exact ⟨tree :: trees, .cons htree htrees, hlexical, hlexical'⟩

end

end

end BlockScript
