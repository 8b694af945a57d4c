import BlockScript.Proofs.Parser.Derivation
/-!
# List literals

A list literal is the only expression of which the analysis reads an annotation before it writes
one: the type of the elements, which may be known from an earlier analysis. Source texts have list
literals in one place only, as the values of global lists, and never without values. Trees that were
read may have them anywhere.

## Main definitions

* `Node.EveryList` — what holds of every list literal of a tree
* `Node.IsSettled` — trees whose list literals have types that their first values fit
* `Node.IsFilled` — trees in which no list literal is empty

## Main results

* `Node.isSettled_of_fresh` — trees without annotations are settled
* `isFilled_of_parseProgram` — source texts have no empty list literals
-/

namespace BlockScript

namespace Node

section

variable (P : Option Ty → List Node → Prop)

mutual

/-- What holds of the element type and the values of every list literal of a tree. -/
def EveryList : Node → Prop
  | null | literal .. => True
  | group inner _ => inner.EveryList
  | binary _ left right _ => left.EveryList ∧ right.EveryList
  | access _ offset _ _ => offset.EveryList
  | call _ arguments _ _ => EveryListIn arguments
  | listLiteral values type => P type values ∧ EveryListIn values
  | discard expression => expression.EveryList
  | declaration _ _ value _ => value.EveryList
  | assignment receiver value => receiver.EveryList ∧ value.EveryList
  | branch condition thenBody elseBody =>
    condition.EveryList ∧ EveryListIn thenBody ∧ EveryListIn elseBody
  | case value body => value.EveryList ∧ EveryListIn body
  | switch condition cases => condition.EveryList ∧ EveryListIn cases
  | loop condition body => condition.EveryList ∧ EveryListIn body
  | ret value => value.EveryList
  | global _ _ _ value _ _ => value.EveryList
  | function _ _ _ _ body _ => EveryListIn body
  | program globals functions => EveryListIn globals ∧ EveryListIn functions

/-- What holds of every list literal of several trees. -/
def EveryListIn : List Node → Prop
  | [] => True
  | node :: rest => node.EveryList ∧ EveryListIn rest

end

variable {P}

theorem everyListIn_iff {nodes : List Node} :
    EveryListIn P nodes ↔ ∀ node ∈ nodes, node.EveryList P := by
  induction nodes with
  | nil => exact iff_of_true trivial (List.forall_mem_nil _)
  | cons node rest ih => rw [EveryListIn, ih, List.forall_mem_cons]

theorem everyListIn_append {nodes others : List Node} :
    EveryListIn P (nodes ++ others) ↔ EveryListIn P nodes ∧ EveryListIn P others := by
  simp only [everyListIn_iff, List.forall_mem_append]

end

/-- The first value of a list, if there is one, is accepted where the elements have the given
type. A list whose elements have no type yet accepts anything. -/
def FirstFits (type : Option Ty) (values : List Node) : Prop :=
  ∀ ty ∈ type, ∀ value ∈ values.head?, Ty.accepts (some ty) value.type? = true

theorem firstFits_none (values : List Node) : FirstFits none values :=
  fun ty hty => absurd hty (Option.not_mem_none ty)

/-- The first value of every list literal fits the type of the elements. -/
abbrev IsSettled (node : Node) : Prop :=
  node.EveryList FirstFits

/-- The first value of every list literal of several trees fits the type of the elements. -/
abbrev AllSettled (nodes : List Node) : Prop :=
  EveryListIn FirstFits nodes

/-- No list literal is empty. -/
abbrev IsFilled (node : Node) : Prop :=
  node.EveryList fun _ values => values ≠ []

/-- No list literal of several trees is empty. -/
abbrev AllFilled (nodes : List Node) : Prop :=
  EveryListIn (fun _ values => values ≠ []) nodes

mutual

/-- A list literal without annotations has no element type that could be wrong. -/
theorem isSettled_erase : ∀ node : Node, node.erase.IsSettled
  | null | literal .. => trivial
  | group inner _ | discard inner | ret inner => isSettled_erase inner
  | binary _ left right _ | assignment left right =>
    ⟨isSettled_erase left, isSettled_erase right⟩
  | access _ value _ _ | declaration _ _ value _ | global _ _ _ value _ _ => isSettled_erase value
  | call _ nodes _ _ | function _ _ _ _ nodes _ => allSettled_eraseAll nodes
  | listLiteral values _ => ⟨firstFits_none _, allSettled_eraseAll values⟩
  | branch condition thenBody elseBody =>
    ⟨isSettled_erase condition, allSettled_eraseAll thenBody, allSettled_eraseAll elseBody⟩
  | case head body | switch head body | loop head body =>
    ⟨isSettled_erase head, allSettled_eraseAll body⟩
  | program globals functions => ⟨allSettled_eraseAll globals, allSettled_eraseAll functions⟩

theorem allSettled_eraseAll : ∀ nodes : List Node, AllSettled (eraseAll nodes)
  | [] => trivial
  | node :: rest => ⟨isSettled_erase node, allSettled_eraseAll rest⟩

end

theorem isSettled_of_fresh {node : Node} (h : node.erase = node) : node.IsSettled :=
  h ▸ isSettled_erase node

theorem allSettled_of_fresh {nodes : List Node} (h : eraseAll nodes = nodes) : AllSettled nodes :=
  h ▸ allSettled_eraseAll nodes

end Node

/-! ### Source texts -/

open Grammar
open Node (IsFilled AllFilled)
open BlockScript.Parser (Tier)

mutual

theorem isFilled_of_expression : ∀ {tier : Tier} {used : List Token} {node : Node},
    Expression tier used node → node.IsFilled
  | _, _, _, .operand h => isFilled_of_operand h
  | _, _, _, .binary hleft _ _ hright =>
    ⟨isFilled_of_expression hleft, isFilled_of_operand hright⟩

theorem isFilled_of_operand : ∀ {tier : Tier} {used : List Token} {node : Node},
    Operand tier used node → node.IsFilled
  | _, _, _, .tighter _ h => isFilled_of_expression h
  | _, _, _, .primary _ h => isFilled_of_primary h

theorem isFilled_of_primary : ∀ {used : List Token} {node : Node},
    Primary used node → node.IsFilled
  | _, _, .literal _ => trivial
  | _, _, .group _ h _ => (isFilled_of_expression h :)
  | _, _, .variable _ => trivial
  | _, _, .element _ _ h _ => (isFilled_of_expression h :)
  | _, _, .call _ _ h _ => allFilled_of_arguments h

theorem allFilled_of_arguments : ∀ {used : List Token} {nodes : List Node},
    Arguments used nodes → AllFilled nodes
  | _, _, .none => trivial
  | _, _, .some h => allFilled_of_expressions h

theorem allFilled_of_expressions : ∀ {used : List Token} {nodes : List Node},
    Expressions used nodes → AllFilled nodes
  | _, _, .one h => ⟨isFilled_of_expression h, trivial⟩
  | _, _, .cons h _ hrest => ⟨isFilled_of_expression h, allFilled_of_expressions hrest⟩

end

theorem isFilled_of_initial {used : List Token} {value : Node} (h : Initial used value) :
    value.IsFilled := by
  cases h with
  | absent => trivial
  | present _ h => exact isFilled_of_expression h

mutual

theorem isFilled_of_statement : ∀ {used : List Token} {node : Node},
    Statement used node → node.IsFilled
  | _, _, .declaration _ _ _ h _ => (isFilled_of_initial h :)
  | _, _, .switch _ h hcases _ _ hbody _ =>
    ⟨isFilled_of_expression h, Node.everyListIn_append.mpr
      ⟨allFilled_of_cases hcases, ⟨trivial, allFilled_of_block hbody⟩, trivial⟩⟩
  | _, _, .branch _ h _ hthen _ => ⟨isFilled_of_expression h, allFilled_of_block hthen, trivial⟩
  | _, _, .branchElse _ h _ hthen _ helse _ =>
    ⟨isFilled_of_expression h, allFilled_of_block hthen, allFilled_of_block helse⟩
  | _, _, .loop _ h _ hbody _ => ⟨isFilled_of_expression h, allFilled_of_block hbody⟩
  | _, _, .ret _ h _ => (isFilled_of_expression h :)
  | _, _, .assignment hreceiver _ hvalue _ =>
    ⟨isFilled_of_expression hreceiver, isFilled_of_expression hvalue⟩
  | _, _, .discard h _ => (isFilled_of_expression h :)

theorem allFilled_of_block : ∀ {used : List Token} {nodes : List Node},
    Block used nodes → AllFilled nodes
  | _, _, .nil => trivial
  | _, _, .cons h hrest => ⟨isFilled_of_statement h, allFilled_of_block hrest⟩

theorem allFilled_of_cases : ∀ {used : List Token} {nodes : List Node},
    Cases used nodes → AllFilled nodes
  | _, _, .nil => trivial
  | _, _, .cons _ h _ hbody hrest =>
    ⟨⟨isFilled_of_expression h, allFilled_of_block hbody⟩, allFilled_of_cases hrest⟩

end

theorem isFilled_of_global {used : List Token} {node : Node} (h : Global used node) :
    node.IsFilled := by
  cases h with
  | list _ _ _ _ _ h _ _ =>
    refine ⟨?_, allFilled_of_expressions h⟩
    cases h <;> simp
  | mutable _ _ _ h _ => exact (isFilled_of_initial h :)
  | constant _ _ _ _ h _ => exact (isFilled_of_expression h :)

theorem isFilled_of_function {used : List Token} {node : Node} (h : Function used node) :
    node.IsFilled := by
  cases h with
  | mk _ _ _ _ _ _ _ h _ => exact allFilled_of_block h

theorem allFilled_of_many {phrase : List Token → Node → Prop} {used : List Token}
    {nodes : List Node} (hphrase : ∀ {used node}, phrase used node → node.IsFilled)
    (h : Many phrase used nodes) : AllFilled nodes := by
  induction h with
  | nil => trivial
  | cons h _ ih => exact ⟨hphrase h, ih⟩

theorem isFilled_of_parseProgram {source : String} {program : Node}
    (h : parseProgram source = .ok program) : program.IsFilled := by
  obtain ⟨tokens, -, hprogram⟩ := Parser.exists_program_of_parseProgram h
  cases hprogram with
  | mk hglobals hfunctions =>
    exact ⟨allFilled_of_many isFilled_of_global hglobals,
      allFilled_of_many isFilled_of_function hfunctions⟩

end BlockScript
