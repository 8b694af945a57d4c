import BlockScript.Proofs.Analysis.Growth
/-!
# Names that are kept apart

Blocks and the cases of a switch have scopes of their own, an initial value is evaluated before the
name of its variable is there, and an inner declaration hides an outer one. Emitted code keeps all
names, in a language in which scopes are wider: a variable is in scope in its own initial value, and
what one case declares is in scope in those behind it. So it matters whether a function uses its
names in a way that leaves no difference.

## Main definitions

* `Node.uses` — the uses of variables that are emitted
* `Node.ownNames` — the names that a statement declares in its own scope
* `Node.KeepsApart` — functions that leave no difference between the two kinds of scopes

## Main results

* `TypedBlock.findVariable?_of_notMem`, `TypedBlock.exists_fresh_of_mem` — what names mean behind
  statements
-/

namespace BlockScript

namespace Node

mutual

/-- The uses of variables that are emitted, each with its name and its binding, in the order of the
source. In a function without a result a value that is returned is emitted just if it is a call. -/
def uses (result : Ty) : Node → List (String × Option Binding)
  | access name offset _ binding => (name, binding) :: offset.uses result
  | null | literal .. => []
  | group inner _ => inner.uses result
  | binary _ left right _ => left.uses result ++ right.uses result
  | call _ arguments _ _ => usesInAll result arguments
  | listLiteral values _ => usesInAll result values
  | discard expression => expression.uses result
  | declaration _ _ value _ => value.uses result
  | assignment receiver value => receiver.uses result ++ value.uses result
  | branch condition thenBody elseBody =>
    condition.uses result ++ usesInAll result thenBody ++ usesInAll result elseBody
  | case value body => value.uses result ++ usesInAll result body
  | switch condition cases => condition.uses result ++ usesInAll result cases
  | loop condition body => condition.uses result ++ usesInAll result body
  | ret value => if result = .nil ∧ value.kind? ≠ some .call then [] else value.uses result
  | global _ _ _ value _ _ => value.uses result
  | function _ _ _ _ body _ => usesInAll result body
  | program globals functions => usesInAll result globals ++ usesInAll result functions

/-- The uses of variables in several trees. -/
def usesInAll (result : Ty) : List Node → List (String × Option Binding)
  | [] => []
  | node :: rest => node.uses result ++ usesInAll result rest

end

/-- None of the given names is used. -/
def Avoids (result : Ty) (names : List String) (node : Node) : Prop :=
  ∀ use ∈ node.uses result, use.1 ∉ names

/-- The names that a statement declares in its own scope, not in that of a block in it. -/
def ownNames : Node → List String
  | declaration name _ _ _ => [name]
  | _ => []

/-- The names that several statements declare in their own scope. -/
def ownNamesOfAll (nodes : List Node) : List String :=
  nodes.flatMap ownNames

/-- The names that a case declares in its own scope. -/
def caseNames : Node → List String
  | case _ body => ownNamesOfAll body
  | _ => []

mutual

/-- A statement keeps its names apart, at a place where the parameters and variables with the
`visible` names can be used, and earlier cases of the switches around it have declared the `stale`
names: it declares no name that is visible or stale, uses none that is stale, and has no use of a
variable's name in the initial value of the variable. -/
def KeepsApart (result : Ty) (visible stale : List String) : Node → Prop
  | declaration name _ value _ =>
    name ∉ visible ∧ name ∉ stale ∧ value.Avoids result (name :: stale)
  | branch condition thenBody elseBody =>
    condition.Avoids result stale ∧ BlockKeepsApart result visible stale thenBody ∧
      BlockKeepsApart result visible stale elseBody
  | case value body => value.Avoids result stale ∧ BlockKeepsApart result visible stale body
  | switch condition cases =>
    condition.Avoids result stale ∧ CasesKeepApart result visible stale cases
  | loop condition body =>
    condition.Avoids result stale ∧ BlockKeepsApart result visible stale body
  | function _ _ _ _ body _ => BlockKeepsApart result visible stale body
  | other => other.Avoids result stale

/-- Several statements keep their names apart. -/
def BlockKeepsApart (result : Ty) (visible stale : List String) : List Node → Prop
  | [] => True
  | statement :: rest =>
    statement.KeepsApart result visible stale ∧
      BlockKeepsApart result (visible ++ statement.ownNames) stale rest

/-- The cases of a switch keep their names apart. What a case has declared is stale behind it. -/
def CasesKeepApart (result : Ty) (visible stale : List String) : List Node → Prop
  | [] => True
  | node :: rest =>
    node.KeepsApart result visible stale ∧
      CasesKeepApart result visible (stale ++ node.caseNames) rest

end

end Node

open Node (ownNamesOfAll)
open Tables (WellNumbered)

/-! ### What names mean behind statements -/

section

variable {tables after : Tables} {node : Node} {nodes : List Node} {name : String}

/-- A statement leaves the meaning of names that it does not declare. -/
theorem TypedStatement.findVariable?_of_notMem (h : TypedStatement tables node after)
    (hname : name ∉ node.ownNames) :
    after.chain.findVariable? name = tables.chain.findVariable? name := by
  cases h with
  | declaration _ _ hdeclare =>
    rw [(Tables.findVariable?_of_declare name hdeclare).2, if_neg]
    exact fun heq => hname (List.mem_singleton.mpr heq)
  | switch _ hcases =>
    rw [hcases.eq_resume]
    rfl
  | _ => rfl

/-- Statements leave the meaning of names that they do not declare in their own scope. -/
theorem TypedBlock.findVariable?_of_notMem (h : TypedBlock tables nodes after)
    (hname : name ∉ ownNamesOfAll nodes) :
    after.chain.findVariable? name = tables.chain.findVariable? name := by
  induction nodes generalizing tables with
  | nil =>
    cases h
    rfl
  | cons node rest ih =>
    cases h with
    | cons h hrest =>
      rw [ownNamesOfAll, List.flatMap_cons, List.mem_append, not_or] at hname
      rw [ih hrest hname.2, h.findVariable?_of_notMem hname.1]

/-- Names that statements declare in their own scope mean something new behind them. -/
theorem TypedBlock.exists_fresh_of_mem (h : TypedBlock tables nodes after)
    (hname : name ∈ ownNamesOfAll nodes) : name ≠ returnName ∧
    ∃ binding, after.chain.findVariable? name = some binding ∧ tables.fresh ≤ binding.number := by
  induction nodes generalizing tables with
  | nil => cases hname
  | cons node rest ih =>
    cases h with
    | @cons _ between _ _ _ h hrest =>
      by_cases hlater : name ∈ ownNamesOfAll rest
      · obtain ⟨hne, binding, hfind, hle⟩ := ih hrest hlater
        exact ⟨hne, binding, hfind, Nat.le_trans h.grows.fresh_le hle⟩
      · rw [ownNamesOfAll, List.flatMap_cons, List.mem_append] at hname
        rw [hrest.findVariable?_of_notMem hlater]
        -- the first statement is the declaration of the name
        cases h with
        | declaration hne _ hdeclare =>
          obtain rfl := List.mem_singleton.mp (hname.resolve_right hlater)
          obtain ⟨-, hbinding, -⟩ := Tables.declare_eq_ok_iff.mp hdeclare
          rw [(Tables.findVariable?_of_declare name hdeclare).2, if_pos rfl]
          exact ⟨hne, _, rfl, by rw [hbinding]⟩
        | _ => exact absurd (hname.resolve_right hlater) List.not_mem_nil

/-- What is kept apart declares no stale names. -/
theorem Node.notMem_of_keepsApart {result : Ty} {visible stale : List String}
    (h : BlockKeepsApart result visible stale nodes) (hname : name ∈ ownNamesOfAll nodes) :
    name ∉ stale := by
  induction nodes generalizing visible with
  | nil => cases hname
  | cons node rest ih =>
    rw [ownNamesOfAll, List.flatMap_cons, List.mem_append] at hname
    rcases hname with hfirst | hlater
    · cases node with
      | declaration =>
        obtain rfl := List.mem_singleton.mp hfirst
        exact h.1.2.1
      | _ => cases hfirst
    · exact ih h.2 hlater

/-- What can be found has an older number than what is declared next. -/
theorem Tables.WellNumbered.number_lt (h : WellNumbered tables) {binding : Binding}
    (hfind : tables.chain.findVariable? name = some binding) : binding.number < tables.fresh := by
  obtain ⟨frame, hframe, hlookup⟩ := List.exists_of_findSome?_eq_some hfind
  obtain ⟨before, behind, hvars, -⟩ := List.lookup_eq_some_iff.mp hlookup
  refine h.2 _ (List.mem_flatMap.mpr ⟨frame, hframe, List.mem_map.mpr ⟨(name, binding), ?_, rfl⟩⟩)
  rw [hvars]
  simp

end

end BlockScript
