import BlockScript.Java.Emission
import BlockScript.Proofs.Analysis.Program
import BlockScript.Proofs.Reordering.Analysis
/-!
# The order of functions has no influence on the Java form

An accepted program has a Java form. The numbers of bindings do not occur in it, and every function
becomes a method on its own. Only the entry point looks for a function among the others; names and
numbers of parameters are different, so that it finds the same one in every order. Hence the Java
forms of a program in two orders of its functions have the same methods, in two orders, and are the
same otherwise.

## Main definitions

* `Emission.Succeeds` — trees that have a Java form
* `Java.Program.Reordered` — classes with the same members up to the order of methods

## Main results

* `emitFunction_unnumbered` — numbers of bindings are not emitted
* `TypedStatement.emits`, `TypedBlock.emits` — well-typed statements have Java forms
* `emitProgram_of_perm` — Java forms in two orders
-/

namespace BlockScript

/-! ### Numbers of bindings -/

theorem parenthesize_unnumbered (parent : String) (side : Side) (node : Node)
    (form : Java.Expression) :
    parenthesize parent side node.unnumbered form = parenthesize parent side node form := by
  cases node <;> simp only [Node.unnumbered, parenthesize]

/-- What is emitted of a binding is there without its number, too. -/
theorem present_unnumbered_bind {α : Type} {binding : Option Binding}
    {next : Binding → Emission α} (hnext : ∀ found, next found.unnumbered = next found) :
    (Emission.present (binding.map Binding.unnumbered) >>= next) =
      (Emission.present binding >>= next) := by
  cases binding with
  | none => rfl
  | some found => exact hnext found

mutual

theorem emitExpression_unnumbered : ∀ node : Node,
    emitExpression node.unnumbered = emitExpression node
  | .literal .. => rfl
  | .group inner _ => by
    rw [Node.unnumbered, emitExpression, emitExpression, emitExpression_unnumbered inner]
  | .binary symbol left right _ => by
    rw [Node.unnumbered, emitExpression, emitExpression, emitExpression_unnumbered left,
      emitExpression_unnumbered right]
    simp only [parenthesize_unnumbered]
  | .access _ offset _ binding => by
    rw [Node.unnumbered, emitExpression, emitExpression, emitExpression_unnumbered offset,
      Node.isNull_unnumbered]
    exact present_unnumbered_bind fun _ => rfl
  | .call _ arguments _ _ => by
    rw [Node.unnumbered, emitExpression, emitExpression, emitAll_unnumbered arguments]
  | .listLiteral values _ => by
    rw [Node.unnumbered, emitExpression, emitExpression, emitAll_unnumbered values]
  | .null | .discard _ | .declaration .. | .assignment .. | .branch .. | .case .. | .switch ..
  | .loop .. | .ret _ | .global .. | .function .. | .program .. => by
    simp only [Node.unnumbered, emitExpression, Node.kind?]

theorem emitAll_unnumbered : ∀ nodes : List Node,
    emitAll (Node.unnumberedAll nodes) = emitAll nodes
  | [] => rfl
  | node :: rest => by
    rw [Node.unnumberedAll, emitAll, emitAll, emitExpression_unnumbered node,
      emitAll_unnumbered rest]

end

theorem emitInitial_unnumbered (value : Node) :
    emitInitial value.unnumbered = emitInitial value := by
  rw [emitInitial, emitInitial, Node.isNull_unnumbered, emitExpression_unnumbered]

mutual

theorem emitStatement_unnumbered (result : Ty) : ∀ node : Node,
    emitStatement result node.unnumbered = emitStatement result node
  | .discard expression => by
    rw [Node.unnumbered, emitStatement, emitStatement, emitExpression_unnumbered expression]
  | .declaration _ _ value binding => by
    rw [Node.unnumbered, emitStatement, emitStatement, emitInitial_unnumbered value]
    exact present_unnumbered_bind fun _ => rfl
  | .assignment receiver value => by
    rw [Node.unnumbered, emitStatement, emitStatement, emitExpression_unnumbered receiver,
      emitExpression_unnumbered value]
  | .branch condition thenBody elseBody => by
    rw [Node.unnumbered, emitStatement, emitStatement, emitExpression_unnumbered condition,
      emitBlock_unnumbered result thenBody, emitBlock_unnumbered result elseBody]
  | .switch condition cases => by
    rw [Node.unnumbered, emitStatement, emitStatement, emitExpression_unnumbered condition,
      emitCases_unnumbered result cases]
  | .loop condition body => by
    rw [Node.unnumbered, emitStatement, emitStatement, emitExpression_unnumbered condition,
      emitBlock_unnumbered result body]
  | .ret value => by
    rw [Node.unnumbered, emitStatement, emitStatement, emitExpression_unnumbered value,
      Node.kind?_unnumbered]
  | .null | .literal .. | .group .. | .binary .. | .access .. | .call .. | .listLiteral ..
  | .case .. | .global .. | .function .. | .program .. => by
    simp only [Node.unnumbered, emitStatement, Node.kind?]

theorem emitBlock_unnumbered (result : Ty) : ∀ nodes : List Node,
    emitBlock result (Node.unnumberedAll nodes) = emitBlock result nodes
  | [] => rfl
  | node :: rest => by
    rw [Node.unnumberedAll, emitBlock, emitBlock, emitStatement_unnumbered result node,
      emitBlock_unnumbered result rest]

theorem emitCases_unnumbered (result : Ty) : ∀ nodes : List Node,
    emitCases result (Node.unnumberedAll nodes) = emitCases result nodes
  | [] => rfl
  | .case value body :: rest => by
    rw [Node.unnumberedAll, Node.unnumbered, emitCases, emitCases, Node.isNull_unnumbered,
      emitExpression_unnumbered value, emitBlock_unnumbered result body,
      emitCases_unnumbered result rest]
  | .declaration _ _ value _ :: rest | .assignment _ value :: rest | .ret value :: rest
  | .global _ _ _ value _ _ :: rest => by
    simp only [Node.unnumberedAll, Node.unnumbered, emitCases, Node.value?]
    exact congrArg (· >>= fun _ => Emission.incomplete) (emitInitial_unnumbered value)
  | .null :: _ | .literal .. :: _ | .group .. :: _ | .binary .. :: _ | .access .. :: _
  | .call .. :: _ | .listLiteral .. :: _ | .discard _ :: _ | .branch .. :: _ | .switch .. :: _
  | .loop .. :: _ | .function .. :: _ | .program .. :: _ => by
    simp only [Node.unnumberedAll, Node.unnumbered, emitCases, Node.value?]

end

theorem emitFunction_unnumbered (node : Node) :
    emitFunction node.unnumbered = emitFunction node := by
  cases node with
  | function =>
    rw [Node.unnumbered, emitFunction, emitFunction]
    simp only [emitBlock_unnumbered]
  | _ => simp only [Node.unnumbered, emitFunction]

/-! ### Java forms that exist -/

/-- There is a Java form. -/
def Emission.Succeeds {α : Type} (x : Emission α) : Prop :=
  ∃ form, x = .ok form

namespace Emission.Succeeds

variable {α β : Type} {x y : Emission α} {next : α → Emission β}

theorem ok (form : α) : Succeeds (.ok form : Emission α) :=
  ⟨form, rfl⟩

theorem bind (h : x.Succeeds) (hnext : ∀ form, (next form).Succeeds) :
    Succeeds (x >>= next) := by
  obtain ⟨form, rfl⟩ := h
  exact hnext form

theorem ite {p : Prop} [Decidable p] (hx : x.Succeeds) (hy : y.Succeeds) :
    Succeeds (if p then x else y) := by
  split
  · exact hx
  · exact hy

end Emission.Succeeds

open Emission (Succeeds)

section

variable {chain : StaticChain} {node : Node} {ty : Ty}

theorem succeeds_precedenceOf {symbol : String} {op : Operator}
    (hop : Operator.ofText? symbol = some op) : (precedenceOf symbol).Succeeds := by
  rw [precedenceOf, hop]
  exact .ok _

/-- Well-typed operands of a known operator get parentheses or not. -/
theorem Typed.parenthesizes (h : Typed chain node ty) {parent : String} {op : Operator}
    (hparent : Operator.ofText? parent = some op) (side : Side) (form : Java.Expression) :
    (parenthesize parent side node form).Succeeds := by
  cases h with
  | binary hop =>
    refine .ite (.ok _) ((succeeds_precedenceOf hop).bind fun inner => ?_)
    exact (succeeds_precedenceOf hparent).bind fun outer => .ite (.ok _) (.ok _)
  | _ => exact .ok _

mutual

theorem Typed.emits : ∀ {node : Node} {ty : Ty}, Typed chain node ty →
    (emitExpression node).Succeeds
  | _, _, .literal => .ok _
  | _, _, .group h => h.emits.bind fun _ => .ok _
  | _, _, @Typed.binary _ symbol op _ _ _ _ _ hop hleft hright _ => by
    refine hleft.emits.bind fun l => (hleft.parenthesizes hop .left l).bind fun l => ?_
    refine hright.emits.bind fun r => (hright.parenthesizes hop .right r).bind fun r => ?_
    exact .ite (.ok _) (.ok _)
  | _, _, .variable .. => .ok _
  | _, _, .element _ hoffset _ _ _ => .ite (.ok _) (hoffset.emits.bind fun _ => .ok _)
  | _, _, .call _ harguments => harguments.emits.bind fun _ => .ok _

theorem TypedArguments.emits : ∀ {nodes : List Node} {types : List Ty},
    TypedArguments chain nodes types → (emitAll nodes).Succeeds
  | _, _, .nil => .ok _
  | _, _, .cons h _ hrest => h.emits.bind fun _ => hrest.emits.bind fun _ => .ok _

end

theorem TypedInitial.emits (h : TypedInitial chain ty node) : (emitInitial node).Succeeds := by
  cases h with
  | absent => exact .ok _
  | present h => exact .ite (.ok _) (h.emits.bind fun _ => .ok _)

theorem TypedValues.emits : ∀ {values : List Node}, TypedValues chain ty values →
    (emitAll values).Succeeds
  | [], _ => .ok _
  | value :: rest, h => by
    obtain ⟨⟨own, hvalue, -⟩, hrest⟩ := List.forall_mem_cons.mp h
    exact hvalue.emits.bind fun _ => (TypedValues.emits hrest).bind fun _ => .ok _

end

mutual

theorem TypedStatement.emits (result : Ty) : ∀ {tables after : Tables} {node : Node},
    TypedStatement tables node after → (emitStatement result node).Succeeds
  | _, _, _, .discard h => h.emits.bind fun _ => .ok _
  | _, _, _, .declaration _ hvalue hdeclare => by
    obtain ⟨-, rfl, -⟩ := Tables.declare_eq_ok_iff.mp hdeclare
    exact hvalue.emits.bind fun _ => .ok _
  | _, _, _, .assignment hvalue hreceiver _ _ =>
    hreceiver.emits.bind fun _ => hvalue.emits.bind fun _ => .ok _
  | _, _, _, .branch hcondition hthen helse => by
    refine hcondition.emits.bind fun _ => ?_
    exact (hthen.emits result).bind fun _ => (helse.emits result).bind fun _ => .ok _
  | _, _, _, .switch hcondition hcases =>
    hcondition.emits.bind fun _ => (hcases.emits result).bind fun _ => .ok _
  | _, _, _, .loop hcondition hbody =>
    hcondition.emits.bind fun _ => (hbody.emits result).bind fun _ => .ok _
  | _, _, _, .ret hvalue _ _ _ =>
    .ite (.ite (hvalue.emits.bind fun _ => .ok _) (.ok _)) (hvalue.emits.bind fun _ => .ok _)

theorem TypedBlock.emits (result : Ty) : ∀ {tables after : Tables} {nodes : List Node},
    TypedBlock tables nodes after → (emitBlock result nodes).Succeeds
  | _, _, _, .nil => .ok _
  | _, _, _, .cons h hrest =>
    (h.emits result).bind fun _ => (hrest.emits result).bind fun _ => .ok _

theorem TypedCases.emits (result : Ty) : ∀ {tables after : Tables} {nodes : List Node},
    TypedCases tables nodes after → (emitCases result nodes).Succeeds
  | _, _, _, .nil => .ok _
  | _, _, _, .default hbody hrest =>
    (hbody.emits result).bind fun _ => (hrest.emits result).bind fun _ => .ok _
  | _, _, _, .valued hvalue hbody hrest => by
    rw [emitCases, hvalue.isNull_eq]
    refine hvalue.emits.bind fun _ => ?_
    exact (hbody.emits result).bind fun _ => (hrest.emits result).bind fun _ => .ok _

end

theorem TypedGlobal.emits {tables after : Tables} {node : Node}
    (h : TypedGlobal tables node after) : (emitGlobal node).Succeeds := by
  cases h with
  | list _ hvalues hdeclare =>
    obtain ⟨-, rfl, -⟩ := Tables.declare_eq_ok_iff.mp hdeclare
    have hvalue : ∀ type, (emitInitial (.listLiteral _ type)).Succeeds :=
      fun _ => .ite (.ok _) ((hvalues.emits.bind fun _ => .ok _).bind fun _ => .ok _)
    exact (hvalue _).bind fun _ => .ok _
  | value _ hvalue hdeclare =>
    obtain ⟨-, rfl, -⟩ := Tables.declare_eq_ok_iff.mp hdeclare
    exact hvalue.emits.bind fun _ => .ok _

theorem TypedGlobals.emits {tables after : Tables} {nodes : List Node}
    (h : TypedGlobals tables nodes after) : ∀ node ∈ nodes, (emitGlobal node).Succeeds := by
  induction h with
  | nil => exact fun _ hnode => absurd hnode List.not_mem_nil
  | cons h _ ih => exact List.forall_mem_cons.mpr ⟨h.emits, ih⟩

theorem TypedFunctions.emits {tables after : Tables} {nodes : List Node}
    {bindings : List (List Binding)} (h : TypedFunctions tables nodes bindings after) :
    ∀ node ∈ nodes, (emitFunction node).Succeeds := by
  induction h with
  | nil => exact fun _ hnode => absurd hnode List.not_mem_nil
  | cons _ hbody _ ih =>
    refine List.forall_mem_cons.mpr ⟨?_, ih⟩
    cases hbody with
    | mk _ _ hbody => exact (hbody.emits _).bind fun _ => .ok _

/-! ### The entry point -/

/-- What a function that has its signature is found by, and its signature. -/
def Node.registered? : Node → Option ((String × Nat) × Signature)
  | function name parameters _ _ _ (some f) => some ((name, parameters.length), f)
  | _ => none

theorem Node.registered?_unnumbered (node : Node) :
    node.unnumbered.registered? = node.registered? := by
  cases node with
  | function name parameters parameterTypes resultType body signature =>
    rw [Node.unnumbered]
    cases signature <;> rfl
  | _ => simp only [Node.unnumbered, registered?]

/-- The entry point belongs to the function that is found as `main` without parameters. -/
theorem emitEntry_eq {nodes : List Node} (hnodes : ∀ node ∈ nodes, node.registered?.isSome) :
    emitEntry nodes = .ok (((nodes.filterMap Node.registered?).lookup ("main", 0)).map fun f =>
      decide (f.result = .integer)) := by
  induction nodes with
  | nil => rfl
  | cons node rest ih =>
    obtain ⟨hnode, hrest⟩ := List.forall_mem_cons.mp hnodes
    obtain ⟨entry, hentry⟩ := Option.isSome_iff_exists.mp hnode
    rw [List.filterMap_cons_some hentry, List.lookup_cons]
    cases node with
    | function name parameters parameterTypes resultType body signature =>
      cases signature with
      | none => cases hentry
      | some f =>
        obtain rfl := Option.some.inj hentry
        rw [emitEntry]
        by_cases hmain : name = "main" ∧ parameters = []
        · obtain ⟨rfl, rfl⟩ := hmain
          rfl
        · have hkey : (("main", 0) == (name, parameters.length)) = false := by
            rw [beq_eq_false_iff_ne]
            rintro heq
            obtain ⟨rfl, hlength⟩ := Prod.mk.inj heq
            exact hmain ⟨rfl, List.eq_nil_of_length_eq_zero hlength.symm⟩
          rw [if_neg hmain, hkey]
          exact ih hrest
    | _ => cases hentry

/-- Declared functions are found by different names and numbers of parameters, which were not
there. -/
theorem DeclaredFunctions.registered {tables after : Tables} {nodes : List Node}
    (h : DeclaredFunctions tables nodes after) :
    (∀ node ∈ nodes, node.registered?.isSome) ∧
      ((nodes.filterMap Node.registered?).map Prod.fst).Nodup ∧
      ∀ entry ∈ nodes.filterMap Node.registered?,
        tables.inner.findFunction? entry.1.1 entry.1.2 = none := by
  induction h with
  | nil => simp
  | @cons tables _ _ name parameters types resultType body f rest hname _ harity hdeclare _ ih =>
    obtain ⟨hknown, hnodup, hfresh⟩ := ih
    obtain ⟨hnew, rfl⟩ := Tables.declareFunction_eq_ok_iff.mp hdeclare
    have hentry : (Node.function name parameters types resultType body (some f)).registered? =
        some ((f.name, f.arity), f) := by
      rw [Node.registered?, hname, Signature.arity, harity]
    have hother : ∀ entry ∈ rest.filterMap Node.registered?,
        tables.inner.findFunction? entry.1.1 entry.1.2 = none ∧ entry.1 ≠ (f.name, f.arity) := by
      intro entry hmem
      have hfree := hfresh entry hmem
      rw [Frame.findFunction?, List.lookup_append, Option.or_eq_none_iff] at hfree
      refine ⟨hfree.1, fun heq => ?_⟩
      have hself := hfree.2
      rw [show (entry.1.1, entry.1.2) = _ from heq, List.lookup_cons_self] at hself
      cases hself
    rw [List.filterMap_cons_some hentry]
    refine ⟨List.forall_mem_cons.mpr ⟨by rw [hentry]; rfl, hknown⟩, ?_, ?_⟩
    · refine List.nodup_cons.mpr ⟨fun hmem => ?_, hnodup⟩
      obtain ⟨entry, hmem, heq⟩ := List.mem_map.mp hmem
      exact (hother entry hmem).2 heq
    · exact List.forall_mem_cons.mpr ⟨hnew, fun entry hmem => (hother entry hmem).1⟩

/-! ### Programs -/

/-- The lines of the methods stand between those of the other members and the end. -/
theorem Java.Program.exists_lines (program : Java.Program) : ∃ start, ∀ methods,
    { program with methods }.lines =
      start ++ methods.flatMap (fun method => "" :: method.lines) ++ ["", "\x7d"] := by
  let fields := if program.fields.isEmpty then [] else "" :: program.fields.map Java.Field.line
  cases program.entry with
  | none =>
    refine ⟨"public class Main \x7b" :: fields, fun methods => ?_⟩
    simp [lines, fields]
  | some exits =>
    refine ⟨"public class Main \x7b" :: (fields ++ "" :: Java.entryLines exits), fun methods => ?_⟩
    simp [lines, fields]

/-- Two classes have the same members, up to the order of the methods. -/
structure Java.Program.Reordered (program program' : Java.Program) : Prop where
  /-- The fields are the same. -/
  fields : program.fields = program'.fields
  /-- The entry points are the same. -/
  entry : program.entry = program'.entry
  /-- The methods are the same in another order. -/
  methods : program.methods.Perm program'.methods

/-- The lines are the same up to the order of those of the methods. -/
theorem Java.Program.Reordered.exists_lines {program program' : Java.Program}
    (h : program.Reordered program') : ∃ start,
      program.lines = start ++ program.methods.flatMap (fun method => "" :: method.lines) ++
        ["", "\x7d"] ∧
      program'.lines = start ++ program'.methods.flatMap (fun method => "" :: method.lines) ++
        ["", "\x7d"] := by
  obtain ⟨start, hlines⟩ := program.exists_lines
  refine ⟨start, hlines program.methods, ?_⟩
  rw [← hlines program'.methods, h.fields, h.entry]

theorem exists_mapM {α β ε : Type} {f : α → Except ε β} {xs : List α}
    (h : ∀ x ∈ xs, ∃ y, f x = .ok y) : ∃ ys, xs.mapM f = .ok ys := by
  induction xs with
  | nil => exact ⟨[], rfl⟩
  | cons x rest ih =>
    obtain ⟨⟨y, hy⟩, hrest⟩ := List.forall_mem_cons.mp h
    obtain ⟨ys, hys⟩ := ih hrest
    exact ⟨y :: ys, mapM_eq_ok_iff.mpr (.cons hy (mapM_eq_ok_iff.mp hys))⟩

/-- A well-typed program has a Java form, and with its functions in another order and other numbers
of bindings it has the same up to the order of the methods. -/
theorem emitProgram_of_perm {globals functions functions' : List Node}
    {bindings : List (List Binding)} (htyped : TypedProgram globals functions bindings)
    (hperm : (functions'.map Node.unnumbered).Perm (functions.map Node.unnumbered)) :
    ∃ program program', emitProgram (.program globals functions) = .ok program ∧
      emitProgram (.program globals functions') = .ok program' ∧
      program.Reordered program' := by
  obtain ⟨behind, declared, after, hglobals, hdeclared, hfunctions⟩ := htyped.exists_tables
  obtain ⟨hknown, hnodup, -⟩ := hdeclared.registered
  obtain ⟨fields, hfields⟩ := exists_mapM hglobals.emits
  obtain ⟨methods, hmethods⟩ := exists_mapM hfunctions.emits
  -- the functions in the other order are found by the same names and numbers of parameters
  have hentries : (functions'.filterMap Node.registered?).Perm
      (functions.filterMap Node.registered?) := by
    have hmap := hperm.filterMap Node.registered?
    simpa only [List.filterMap_map, Function.comp_def, Node.registered?_unnumbered] using hmap
  have hknown' : ∀ node ∈ functions', node.registered?.isSome := by
    intro node hnode
    obtain ⟨own, hown, heq⟩ := List.mem_map.mp (hperm.mem_iff.mp (List.mem_map_of_mem hnode))
    rw [← Node.registered?_unnumbered, ← heq, Node.registered?_unnumbered]
    exact hknown own hown
  -- the methods belong to the functions one by one
  have hforms : List.Forall₂ (fun node method => emitFunction node = .ok method)
      (functions.map Node.unnumbered) methods := by
    refine List.forall₂_map_left_iff.mpr ((mapM_eq_ok_iff.mp hmethods).imp ?_)
    exact fun node method hmethod => (emitFunction_unnumbered node).trans hmethod
  obtain ⟨methods', hmethods', hreordered⟩ := List.perm_comp_forall₂ hperm hforms
  have hother : functions'.mapM emitFunction = .ok methods' := by
    rw [mapM_eq_ok_iff]
    refine (List.forall₂_map_left_iff.mp hmethods').imp fun node method hmethod => ?_
    exact (emitFunction_unnumbered node).symm.trans hmethod
  let entry := ((functions.filterMap Node.registered?).lookup ("main", 0)).map fun f =>
    decide (f.result = .integer)
  refine ⟨{ fields, entry, methods }, { fields, entry, methods := methods' }, ?_, ?_,
    ⟨rfl, rfl, hreordered.symm⟩⟩
  · rw [emitProgram, hfields, emitEntry_eq hknown, hmethods]
    rfl
  · rw [emitProgram, hfields, emitEntry_eq hknown', lookup_eq_of_perm hentries hnodup, hother]
    rfl

end BlockScript
