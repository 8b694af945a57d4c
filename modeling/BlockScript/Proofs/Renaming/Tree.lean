import BlockScript.Proofs.Parser.Names
/-!
# Other names

A renaming gives other names to variables, parameters included, and to functions. In a tree it
changes names and nothing else; what a tree is annotated with gets the new names too. Names of types
are not renamed.

## Main definitions

* `Renaming` — new names for variables and functions
* `Node.renamed` — a tree with its new names
* `Node.variableNames`, `Node.functionNames` — the names in a tree that a renaming changes
* `Node.anonymous` — a tree of which everything is kept but the names

## Main results

* `Node.erase_renamed_congr` — only the names in a tree matter
* `Node.anonymous_renamed` — a renaming changes names only
-/

namespace BlockScript

/-- New names for variables and functions. -/
structure Renaming where
  /-- The new names of variables and parameters. -/
  varName : String → String
  /-- The new names of functions. -/
  funName : String → String

/-- Two renamings give the same new names to certain variables and functions. -/
def Renaming.AgreeOn (ρ τ : Renaming) (vars funs : List String) : Prop :=
  (∀ name ∈ vars, ρ.varName name = τ.varName name) ∧
    ∀ name ∈ funs, ρ.funName name = τ.funName name

variable {ρ τ : Renaming}

/-- The binding of the renamed variable. -/
def Binding.renamed (ρ : Renaming) (binding : Binding) : Binding :=
  { binding with name := ρ.varName binding.name }

/-- The signature of the renamed function. -/
def Signature.renamed (ρ : Renaming) (f : Signature) : Signature :=
  { f with name := ρ.funName f.name, javaName := ρ.funName f.javaName }

namespace Node

mutual

/-- The tree with the new names of its variables and functions. -/
def renamed (ρ : Renaming) : Node → Node
  | null => null
  | literal value type => literal value type
  | group inner type => group (inner.renamed ρ) type
  | binary symbol left right type => binary symbol (left.renamed ρ) (right.renamed ρ) type
  | access name offset type binding =>
    access (ρ.varName name) (offset.renamed ρ) type (binding.map (Binding.renamed ρ))
  | call name arguments type callee =>
    call (ρ.funName name) (renamedAll ρ arguments) type (callee.map (Signature.renamed ρ))
  | listLiteral values type => listLiteral (renamedAll ρ values) type
  | discard expression => discard (expression.renamed ρ)
  | declaration name typeName value binding =>
    declaration (ρ.varName name) typeName (value.renamed ρ) (binding.map (Binding.renamed ρ))
  | assignment receiver value => assignment (receiver.renamed ρ) (value.renamed ρ)
  | branch condition thenBody elseBody =>
    branch (condition.renamed ρ) (renamedAll ρ thenBody) (renamedAll ρ elseBody)
  | case value body => case (value.renamed ρ) (renamedAll ρ body)
  | switch condition cases => switch (condition.renamed ρ) (renamedAll ρ cases)
  | loop condition body => loop (condition.renamed ρ) (renamedAll ρ body)
  | ret value => ret (value.renamed ρ)
  | global name mutable typeName value isList binding =>
    global (ρ.varName name) mutable typeName (value.renamed ρ) isList
      (binding.map (Binding.renamed ρ))
  | function name parameters parameterTypes resultType body signature =>
    function (ρ.funName name) (parameters.map ρ.varName) parameterTypes resultType
      (renamedAll ρ body) (signature.map (Signature.renamed ρ))
  | program globals functions => program (renamedAll ρ globals) (renamedAll ρ functions)

/-- Several trees with their new names. -/
def renamedAll (ρ : Renaming) : List Node → List Node
  | [] => []
  | node :: rest => node.renamed ρ :: renamedAll ρ rest

end

/-- The tree without its names, but with everything else: its form, its types and the numbers of its
bindings. -/
def anonymous (node : Node) : Node :=
  node.renamed { varName := fun _ => "", funName := fun _ => "" }

/-! ### What is not renamed -/

theorem renamedAll_eq_map (nodes : List Node) : renamedAll ρ nodes = nodes.map (renamed ρ) := by
  induction nodes with
  | nil => rfl
  | cons node rest ih => rw [renamedAll, ih, List.map_cons]

theorem renamedAll_append (nodes others : List Node) :
    renamedAll ρ (nodes ++ others) = renamedAll ρ nodes ++ renamedAll ρ others := by
  rw [renamedAll_eq_map, renamedAll_eq_map, renamedAll_eq_map, List.map_append]

@[simp]
theorem length_renamedAll (nodes : List Node) : (renamedAll ρ nodes).length = nodes.length := by
  rw [renamedAll_eq_map, List.length_map]

@[simp]
theorem isEmpty_renamedAll (nodes : List Node) : (renamedAll ρ nodes).isEmpty = nodes.isEmpty := by
  cases nodes <;> rfl

@[simp]
theorem kind?_renamed (node : Node) : (node.renamed ρ).kind? = node.kind? := by
  cases node <;> rfl

@[simp]
theorem isNull_renamed (node : Node) : (node.renamed ρ).isNull = node.isNull := by
  cases node <;> rfl

@[simp]
theorem type?_renamed (node : Node) : (node.renamed ρ).type? = node.type? := by
  cases node <;> rfl

/-! ### One renaming after another -/

theorem binding_renamed_renamed (binding : Option Binding) :
    (binding.map (Binding.renamed ρ)).map (Binding.renamed τ) =
      binding.map (Binding.renamed ⟨τ.varName ∘ ρ.varName, τ.funName ∘ ρ.funName⟩) := by
  cases binding <;> rfl

theorem signature_renamed_renamed (f : Option Signature) :
    (f.map (Signature.renamed ρ)).map (Signature.renamed τ) =
      f.map (Signature.renamed ⟨τ.varName ∘ ρ.varName, τ.funName ∘ ρ.funName⟩) := by
  cases f <;> rfl

mutual

theorem renamed_renamed : ∀ node : Node, (node.renamed ρ).renamed τ =
    node.renamed ⟨τ.varName ∘ ρ.varName, τ.funName ∘ ρ.funName⟩
  | null | literal .. => rfl
  | group inner _ | discard inner | ret inner => by
    simp only [renamed, renamed_renamed inner]
  | binary _ left right _ | assignment left right => by
    simp only [renamed, renamed_renamed left, renamed_renamed right]
  | access _ value _ _ | declaration _ _ value _ | global _ _ _ value _ _ => by
    simp only [renamed, renamed_renamed value, binding_renamed_renamed, Function.comp_apply]
  | call _ arguments _ _ => by
    simp only [renamed, renamedAll_renamedAll arguments, signature_renamed_renamed,
      Function.comp_apply]
  | listLiteral values _ => by
    simp only [renamed, renamedAll_renamedAll values]
  | branch condition thenBody elseBody => by
    simp only [renamed, renamed_renamed condition, renamedAll_renamedAll thenBody,
      renamedAll_renamedAll elseBody]
  | case head body | switch head body | loop head body => by
    simp only [renamed, renamed_renamed head, renamedAll_renamedAll body]
  | function _ _ _ _ body _ => by
    simp only [renamed, renamedAll_renamedAll body, signature_renamed_renamed, List.map_map,
      Function.comp_apply]
  | program globals functions => by
    simp only [renamed, renamedAll_renamedAll globals, renamedAll_renamedAll functions]

theorem renamedAll_renamedAll : ∀ nodes : List Node, renamedAll τ (renamedAll ρ nodes) =
    renamedAll ⟨τ.varName ∘ ρ.varName, τ.funName ∘ ρ.funName⟩ nodes
  | [] => rfl
  | node :: rest => by
    simp only [renamedAll, renamed_renamed node, renamedAll_renamedAll rest]

end

/-- A renaming changes names only. -/
theorem anonymous_renamed (node : Node) : (node.renamed ρ).anonymous = node.anonymous :=
  renamed_renamed node

/-! ### The names in a tree -/

mutual

/-- The names of variables and parameters in a tree. -/
def variableNames : Node → List String
  | null | literal .. => []
  | group inner _ => inner.variableNames
  | binary _ left right _ => left.variableNames ++ right.variableNames
  | access name offset _ _ => name :: offset.variableNames
  | call _ arguments _ _ => variableNamesInAll arguments
  | listLiteral values _ => variableNamesInAll values
  | discard expression => expression.variableNames
  | declaration name _ value _ => name :: value.variableNames
  | assignment receiver value => receiver.variableNames ++ value.variableNames
  | branch condition thenBody elseBody =>
    condition.variableNames ++ (variableNamesInAll thenBody ++ variableNamesInAll elseBody)
  | case value body => value.variableNames ++ variableNamesInAll body
  | switch condition cases => condition.variableNames ++ variableNamesInAll cases
  | loop condition body => condition.variableNames ++ variableNamesInAll body
  | ret value => value.variableNames
  | global name _ _ value _ _ => name :: value.variableNames
  | function _ parameters _ _ body _ => parameters ++ variableNamesInAll body
  | program globals functions => variableNamesInAll globals ++ variableNamesInAll functions

/-- The names of variables and parameters in several trees. -/
def variableNamesInAll : List Node → List String
  | [] => []
  | node :: rest => node.variableNames ++ variableNamesInAll rest

end

mutual

/-- The names of functions in a tree, those that are only called included. -/
def functionNames : Node → List String
  | null | literal .. => []
  | group inner _ => inner.functionNames
  | binary _ left right _ => left.functionNames ++ right.functionNames
  | access _ offset _ _ => offset.functionNames
  | call name arguments _ _ => name :: functionNamesInAll arguments
  | listLiteral values _ => functionNamesInAll values
  | discard expression => expression.functionNames
  | declaration _ _ value _ => value.functionNames
  | assignment receiver value => receiver.functionNames ++ value.functionNames
  | branch condition thenBody elseBody =>
    condition.functionNames ++ (functionNamesInAll thenBody ++ functionNamesInAll elseBody)
  | case value body => value.functionNames ++ functionNamesInAll body
  | switch condition cases => condition.functionNames ++ functionNamesInAll cases
  | loop condition body => condition.functionNames ++ functionNamesInAll body
  | ret value => value.functionNames
  | global _ _ _ value _ _ => value.functionNames
  | function name _ _ _ body _ => name :: functionNamesInAll body
  | program globals functions => functionNamesInAll globals ++ functionNamesInAll functions

/-- The names of functions in several trees. -/
def functionNamesInAll : List Node → List String
  | [] => []
  | node :: rest => node.functionNames ++ functionNamesInAll rest

end

section

variable {name : String}

attribute [local grind] variableNames variableNamesInAll functionNames functionNamesInAll names
  namesInAll

mutual

/-- The names of variables and functions are among all names in a tree. -/
theorem mem_names : ∀ node : Node, name ∈ node.variableNames ∨ name ∈ node.functionNames →
    name ∈ node.names
  | null | literal .. => by grind
  | group inner _ | discard inner | ret inner => mem_names inner
  | binary _ left right _ | assignment left right => by
    have hleft := mem_names left
    have hright := mem_names right
    grind
  | access _ value _ _ | declaration _ _ value _ | global _ _ _ value _ _ => by
    have hvalue := mem_names value
    grind
  | call _ arguments _ _ | listLiteral arguments _ => by
    have harguments := mem_namesInAll arguments
    grind
  | branch condition thenBody elseBody => by
    have hcondition := mem_names condition
    have hthen := mem_namesInAll thenBody
    have helse := mem_namesInAll elseBody
    grind
  | case head body | switch head body | loop head body => by
    have hhead := mem_names head
    have hbody := mem_namesInAll body
    grind
  | function _ _ _ _ body _ => by
    have hbody := mem_namesInAll body
    grind
  | program globals functions => by
    have hglobals := mem_namesInAll globals
    have hfunctions := mem_namesInAll functions
    grind

theorem mem_namesInAll : ∀ nodes : List Node,
    name ∈ variableNamesInAll nodes ∨ name ∈ functionNamesInAll nodes → name ∈ namesInAll nodes
  | [] => by grind
  | node :: rest => by
    have hnode := mem_names node
    have hrest := mem_namesInAll rest
    grind

end

end

section

attribute [local grind] variableNames variableNamesInAll functionNames functionNamesInAll erase
  eraseAll renamed renamedAll Renaming.AgreeOn

mutual

/-- Only the new names of the names in a tree matter. -/
theorem erase_renamed_congr : ∀ node : Node,
    ρ.AgreeOn τ node.variableNames node.functionNames → node.erase.renamed ρ = node.erase.renamed τ
  | null | literal .. => by grind
  | group inner _ | discard inner | ret inner => by
    have hinner := erase_renamed_congr inner
    grind
  | binary _ left right _ | assignment left right => by
    have hleft := erase_renamed_congr left
    have hright := erase_renamed_congr right
    grind
  | access _ value _ _ | declaration _ _ value _ | global _ _ _ value _ _ => by
    have hvalue := erase_renamed_congr value
    grind
  | call _ arguments _ _ | listLiteral arguments _ => by
    have harguments := eraseAll_renamedAll_congr arguments
    grind
  | branch condition thenBody elseBody => by
    have hcondition := erase_renamed_congr condition
    have hthen := eraseAll_renamedAll_congr thenBody
    have helse := eraseAll_renamedAll_congr elseBody
    grind
  | case head body | switch head body | loop head body => by
    have hhead := erase_renamed_congr head
    have hbody := eraseAll_renamedAll_congr body
    grind
  | function _ parameters _ _ body _ => by
    have hbody := eraseAll_renamedAll_congr body
    intro h
    have hparameters : parameters.map ρ.varName = parameters.map τ.varName := by
      apply List.map_congr_left
      intro name hname
      exact h.1 name (List.mem_append_left _ hname)
    grind
  | program globals functions => by
    have hglobals := eraseAll_renamedAll_congr globals
    have hfunctions := eraseAll_renamedAll_congr functions
    grind

theorem eraseAll_renamedAll_congr : ∀ nodes : List Node,
    ρ.AgreeOn τ (variableNamesInAll nodes) (functionNamesInAll nodes) →
      renamedAll ρ (eraseAll nodes) = renamedAll τ (eraseAll nodes)
  | [] => by grind
  | node :: rest => by
    have hnode := erase_renamed_congr node
    have hrest := eraseAll_renamedAll_congr rest
    grind

end

end

end Node

end BlockScript
