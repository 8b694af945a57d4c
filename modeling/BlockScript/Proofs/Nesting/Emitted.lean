import BlockScript.Proofs.Compilation
import BlockScript.Proofs.Judgement.Program
import BlockScript.Proofs.Naming.Spelling
import BlockScript.Proofs.Nesting.Printed
import BlockScript.Proofs.Order.Calls
/-!
# The outline of generated Java

The Java form of an accepted program has names and operators of Java, since its names are those of
the source text; only calls are evaluated for their effects, since the analysis refuses all else. So
the generated text is well nested and indented by its depths, whatever stands in its literals.

## Main definitions

* `Node.DiscardsCall` — statements that evaluate nothing but calls for their effects

## Main results

* `TypedBlock.areProper` — the forms of statements
* `generated_text_is_nested` — the text of an accepted program
-/

namespace BlockScript

open Java (Outlines Restores)
open Java.Statement (AreProper AreProperGroups)
open Node (AllSpelled)
open Tables (Spells)

/-! ### Effects -/

/-- Whether what a statement evaluates for its effects is a call. -/
def Node.DiscardsCall : Node → Prop
  | discard expression => expression.kind? = some .call
  | _ => True

section

variable {Marks : Option Ty → Ty → Prop}

mutual

/-- In a well-typed statement, only calls are evaluated for their effects. -/
theorem Judgement.Statement.discardsCall : ∀ {Γ Γ' : Environment} {node : Node},
    Statement Marks Γ node Γ' → ∀ statement ∈ node.simple, statement.DiscardsCall
  | _, _, _, .discard _ => List.forall_mem_singleton.mpr rfl
  | _, _, _, .declaration .. | _, _, _, .assignment .. | _, _, _, .ret .. =>
    List.forall_mem_singleton.mpr trivial
  | _, _, _, .branch _ _ hthen helse =>
    List.forall_mem_append.mpr ⟨hthen.discardsCall, helse.discardsCall⟩
  | _, _, _, .switch _ hcases => hcases.discardsCall
  | _, _, _, .loop _ hbody => hbody.discardsCall

theorem Judgement.Block.discardsCall : ∀ {Γ : Environment} {nodes : List Node},
    Block Marks Γ nodes → ∀ statement ∈ Node.simpleInAll nodes, statement.DiscardsCall
  | _, _, .nil => fun _ hmem => absurd hmem List.not_mem_nil
  | _, _, .cons h hrest => List.forall_mem_append.mpr ⟨h.discardsCall, hrest.discardsCall⟩

theorem Judgement.Cases.discardsCall : ∀ {Γ : Environment} {ty : Ty} {nodes : List Node},
    Cases Marks Γ ty nodes → ∀ statement ∈ Node.simpleInAll nodes, statement.DiscardsCall
  | _, _, _, .default hbody =>
    List.forall_mem_append.mpr ⟨hbody.discardsCall, fun _ hmem => absurd hmem List.not_mem_nil⟩
  | _, _, _, .valued _ hbody hrest =>
    List.forall_mem_append.mpr ⟨hbody.discardsCall, hrest.discardsCall⟩

end

theorem Judgement.Program.discardsCall {program : Node} (h : Program Marks program) :
    ∀ statement ∈ program.simple, statement.DiscardsCall := by
  obtain @⟨globals, functions, headers, Γ, -, -, -, hbodies⟩ := h
  -- the bodies stand in an environment that has all headers
  generalize Γ.withFunctions headers = inside at hbodies
  rw [Node.simple]
  induction hbodies with
  | nil => exact fun _ hmem => absurd hmem List.not_mem_nil
  | cons hfunction _ ih =>
    obtain ⟨-, hbody⟩ := hfunction
    exact List.forall_mem_append.mpr ⟨hbody.discardsCall, ih⟩

end

/-! ### Expressions -/

section

variable {chain : StaticChain} {node : Node} {ty : Ty} {form : Java.Expression}

theorem Typed.isLexical (h : Typed chain node ty) (hspells : Spells chain)
    (hnames : node.IsSpelled) (hemit : emitExpression node = .ok form) : form.IsLexical := by
  obtain ⟨tree, htree, hlexical⟩ := h.exists_denotes hspells hnames
  obtain ⟨form', a, hemit', hwrites, -, rfl, -⟩ := Java.exists_emitExpression htree
  cases hemit.symm.trans hemit'
  exact hwrites.isLexical (a.isLexical_bare.mp hlexical)

theorem TypedInitial.isLexicalIfPresent {value : Option Java.Expression}
    (h : TypedInitial chain ty node) (hspells : Spells chain) (hnames : node.IsSpelled)
    (hemit : emitInitial node = .ok value) : Java.IsLexicalIfPresent value := by
  cases h with
  | absent =>
    cases hemit
    nofun
  | present h =>
    rw [emitInitial, h.isNull_eq] at hemit
    obtain ⟨form, hform, hemit⟩ := bind_eq_ok_iff.mp hemit
    cases hemit
    rintro _ ⟨⟩
    exact h.isLexical hspells hnames hform

theorem isCall_of_emitExpression (hkind : node.kind? = some .call)
    (hemit : emitExpression node = .ok form) : form.isCall = true := by
  cases node with
  | call name arguments type callee =>
    obtain ⟨forms, -, hemit⟩ := bind_eq_ok_iff.mp hemit
    obtain ⟨found, -, hemit⟩ := bind_eq_ok_iff.mp hemit
    cases hemit
    rfl
  | _ => cases hkind

theorem isPlace_of_emitExpression {name : String} {offset : Node} {type : Option Ty}
    {binding : Option Binding}
    (hemit : emitExpression (.access name offset type binding) = .ok form) : form.isPlace = true := by
  obtain ⟨found, -, hemit⟩ := bind_eq_ok_iff.mp hemit
  split at hemit
  · cases hemit
    rfl
  · obtain ⟨index, -, hemit⟩ := bind_eq_ok_iff.mp hemit
    cases hemit
    rfl

theorem isTypeName_javaName (ty : Ty) : Java.IsTypeName ty.javaName :=
  ⟨ty, rfl⟩

end

/-! ### Statements -/

section

variable {result : Ty}

mutual

/-- The forms of a statement have names and operators of Java. -/
theorem TypedStatement.areProper : ∀ {tables after : Tables} {node : Node}
    {forms : List Java.Statement}, TypedStatement tables node after → Spells tables.chain →
    node.IsSpelled → (∀ statement ∈ node.simple, statement.DiscardsCall) →
    emitStatement result node = .ok forms → AreProper forms
  | _, _, _, _, .discard h, hspells, hnames, hcalls, hemit => by
    obtain ⟨form, hform, hemit⟩ := bind_eq_ok_iff.mp hemit
    cases hemit
    have hkind := List.forall_mem_singleton.mp hcalls
    exact ⟨⟨isCall_of_emitExpression hkind hform, h.isLexical hspells hnames hform⟩, trivial⟩
  | _, _, _, _, @TypedStatement.declaration _ _ _ _ _ ty _ _ hvalue hdeclare, hspells, hnames, _,
      hemit => by
    obtain ⟨hname, hnames⟩ := List.forall_mem_cons.mp hnames
    obtain ⟨-, hnamesValue⟩ := List.forall_mem_append.mp hnames
    obtain ⟨-, rfl, -⟩ := Tables.declare_eq_ok_iff.mp hdeclare
    simp only [emitStatement, Emission.present, ok_bind] at hemit
    obtain ⟨value, hinitial, hemit⟩ := bind_eq_ok_iff.mp hemit
    cases hemit
    exact ⟨⟨isTypeName_javaName ty, hname, hvalue.isLexicalIfPresent hspells hnamesValue hinitial⟩,
      trivial⟩
  | _, _, _, _, .assignment hvalue hreceiver _ _, hspells, hnames, _, hemit => by
    obtain ⟨hnamesReceiver, hnamesValue⟩ := List.forall_mem_append.mp hnames
    obtain ⟨target, htarget, hemit⟩ := bind_eq_ok_iff.mp hemit
    obtain ⟨form, hform, hemit⟩ := bind_eq_ok_iff.mp hemit
    cases hemit
    exact ⟨⟨isPlace_of_emitExpression htarget, hreceiver.isLexical hspells hnamesReceiver htarget,
      hvalue.isLexical hspells hnamesValue hform⟩, trivial⟩
  | _, _, _, _, .branch hcondition hthen helse, hspells, hnames, hcalls, hemit => by
    obtain ⟨hnamesCondition, hnames⟩ := List.forall_mem_append.mp hnames
    obtain ⟨hnamesThen, hnamesElse⟩ := List.forall_mem_append.mp hnames
    obtain ⟨hcallsThen, hcallsElse⟩ := List.forall_mem_append.mp hcalls
    obtain ⟨test, htest, hemit⟩ := bind_eq_ok_iff.mp hemit
    obtain ⟨thenForm, hthenForm, hemit⟩ := bind_eq_ok_iff.mp hemit
    obtain ⟨elseForm, helseForm, hemit⟩ := bind_eq_ok_iff.mp hemit
    cases hemit
    exact ⟨⟨hcondition.isLexical hspells hnamesCondition htest,
      hthen.areProper hspells.enter hnamesThen hcallsThen hthenForm,
      helse.areProper hspells.enter hnamesElse hcallsElse helseForm⟩, trivial⟩
  | _, _, _, _, .switch hcondition hcases, hspells, hnames, hcalls, hemit => by
    obtain ⟨hnamesCondition, hnames⟩ := List.forall_mem_append.mp hnames
    obtain ⟨test, htest, hemit⟩ := bind_eq_ok_iff.mp hemit
    obtain ⟨groups, hgroups, hemit⟩ := bind_eq_ok_iff.mp hemit
    cases hemit
    exact ⟨⟨hcondition.isLexical hspells hnamesCondition htest,
      hcases.areProper hspells hnames hcalls hgroups⟩, trivial⟩
  | _, _, _, _, .loop hcondition hbody, hspells, hnames, hcalls, hemit => by
    obtain ⟨hnamesCondition, hnames⟩ := List.forall_mem_append.mp hnames
    obtain ⟨test, htest, hemit⟩ := bind_eq_ok_iff.mp hemit
    obtain ⟨form, hform, hemit⟩ := bind_eq_ok_iff.mp hemit
    cases hemit
    exact ⟨⟨hcondition.isLexical hspells hnamesCondition htest,
      hbody.areProper hspells.enter hnames hcalls hform⟩, trivial⟩
  | _, _, _, _, .ret hvalue _ _ _, hspells, hnames, _, hemit => by
    rw [emitStatement] at hemit
    split at hemit
    · split at hemit
      next hkind =>
        obtain ⟨form, hform, hemit⟩ := bind_eq_ok_iff.mp hemit
        cases hemit
        exact ⟨⟨isCall_of_emitExpression hkind hform, hvalue.isLexical hspells hnames hform⟩,
          nofun, trivial⟩
      next =>
        cases hemit
        exact ⟨nofun, trivial⟩
    · obtain ⟨form, hform, hemit⟩ := bind_eq_ok_iff.mp hemit
      cases hemit
      refine ⟨?_, trivial⟩
      rintro _ ⟨⟩
      exact hvalue.isLexical hspells hnames hform

theorem TypedBlock.areProper : ∀ {tables after : Tables} {nodes : List Node}
    {forms : List Java.Statement}, TypedBlock tables nodes after → Spells tables.chain →
    AllSpelled nodes → (∀ statement ∈ Node.simpleInAll nodes, statement.DiscardsCall) →
    emitBlock result nodes = .ok forms → AreProper forms
  | _, _, _, _, .nil, _, _, _, hemit => by
    cases hemit
    trivial
  | _, _, _, _, .cons h hrest, hspells, hnames, hcalls, hemit => by
    obtain ⟨hnamesFirst, hnamesRest⟩ := List.forall_mem_append.mp hnames
    obtain ⟨hcallsFirst, hcallsRest⟩ := List.forall_mem_append.mp hcalls
    obtain ⟨form, hform, hemit⟩ := bind_eq_ok_iff.mp hemit
    obtain ⟨forms, hforms, hemit⟩ := bind_eq_ok_iff.mp hemit
    cases hemit
    exact Java.Statement.areProper_append.mpr ⟨h.areProper hspells hnamesFirst hcallsFirst hform,
      hrest.areProper (h.grows.spells hspells) hnamesRest hcallsRest hforms⟩

theorem TypedCases.areProper : ∀ {tables after : Tables} {nodes : List Node}
    {groups : List (Option Java.Expression × List Java.Statement)},
    TypedCases tables nodes after → Spells tables.chain → AllSpelled nodes →
    (∀ statement ∈ Node.simpleInAll nodes, statement.DiscardsCall) →
    emitCases result nodes = .ok groups → AreProperGroups groups
  | _, _, _, _, .nil, _, _, _, hemit => by
    cases hemit
    trivial
  | _, _, _, _, .default hbody hrest, hspells, hnames, hcalls, hemit => by
    obtain ⟨hnamesCase, hnamesRest⟩ := List.forall_mem_append.mp hnames
    obtain ⟨hcallsBody, hcallsRest⟩ := List.forall_mem_append.mp hcalls
    obtain ⟨form, hform, hemit⟩ := bind_eq_ok_iff.mp hemit
    obtain ⟨groups, hgroups, hemit⟩ := bind_eq_ok_iff.mp hemit
    cases hemit
    exact ⟨nofun, hbody.areProper hspells.enter hnamesCase hcallsBody hform,
      hrest.areProper hspells hnamesRest hcallsRest hgroups⟩
  | _, _, _, _, .valued hvalue hbody hrest, hspells, hnames, hcalls, hemit => by
    obtain ⟨hnamesCase, hnamesRest⟩ := List.forall_mem_append.mp hnames
    obtain ⟨hnamesValue, hnamesBody⟩ := List.forall_mem_append.mp hnamesCase
    obtain ⟨hcallsBody, hcallsRest⟩ := List.forall_mem_append.mp hcalls
    rw [emitCases, hvalue.isNull_eq] at hemit
    obtain ⟨label, hlabel, hemit⟩ := bind_eq_ok_iff.mp hemit
    obtain ⟨form, hform, hemit⟩ := bind_eq_ok_iff.mp hemit
    obtain ⟨groups, hgroups, hemit⟩ := bind_eq_ok_iff.mp hemit
    cases hemit
    have hproper := hbody.areProper hspells.enter hnamesBody hcallsBody hform
    refine ⟨?_, Java.Statement.areProper_append.mpr ⟨hproper, trivial, trivial⟩,
      hrest.areProper hspells hnamesRest hcallsRest hgroups⟩
    rintro _ ⟨⟩
    exact hvalue.isLexical hspells hnamesValue hlabel

end

end

/-! ### Programs -/

section

variable {tables after : Tables}

theorem TypedValues.areLexical {chain : StaticChain} {ty : Ty} : ∀ {values : List Node}
    {forms : List Java.Expression}, TypedValues chain ty values → Spells chain →
    AllSpelled values → emitAll values = .ok forms → Java.Expression.AreLexical forms
  | [], _, _, _, _, hemit => by
    cases hemit
    trivial
  | _ :: _, _, h, hspells, hnames, hemit => by
    obtain ⟨hnamesFirst, hnamesRest⟩ := List.forall_mem_append.mp hnames
    obtain ⟨form, hform, hemit⟩ := bind_eq_ok_iff.mp hemit
    obtain ⟨forms, hforms, hemit⟩ := bind_eq_ok_iff.mp hemit
    cases hemit
    obtain ⟨⟨own, hvalue, -⟩, hrest⟩ := List.forall_mem_cons.mp h
    exact ⟨hvalue.isLexical hspells hnamesFirst hform,
      TypedValues.areLexical hrest hspells hnamesRest hforms⟩

theorem TypedGlobal.isProper {node : Node} {field : Java.Field} (h : TypedGlobal tables node after)
    (hspells : Spells tables.chain) (hnames : node.IsSpelled)
    (hemit : emitGlobal node = .ok field) : field.IsProper := by
  cases h with
  | @list _ _ _ _ ty _ _ hvalues hdeclare =>
    obtain ⟨hname, hnames⟩ := List.forall_mem_cons.mp hnames
    obtain ⟨-, hnamesValues⟩ := List.forall_mem_append.mp hnames
    obtain ⟨-, rfl, -⟩ := Tables.declare_eq_ok_iff.mp hdeclare
    simp only [emitGlobal, Emission.present, ok_bind] at hemit
    obtain ⟨value, hvalue, hemit⟩ := bind_eq_ok_iff.mp hemit
    cases hemit
    obtain ⟨braces, hbraces, hvalue⟩ := bind_eq_ok_iff.mp hvalue
    cases hvalue
    obtain ⟨forms, hforms, hbraces⟩ := bind_eq_ok_iff.mp hbraces
    cases hbraces
    refine ⟨isTypeName_javaName ty, hname, ?_⟩
    rintro _ ⟨⟩
    exact TypedValues.areLexical hvalues hspells hnamesValues hforms
  | @value _ _ _ _ _ ty _ _ hvalue hdeclare =>
    obtain ⟨hname, hnames⟩ := List.forall_mem_cons.mp hnames
    obtain ⟨-, hnamesValue⟩ := List.forall_mem_append.mp hnames
    obtain ⟨-, rfl, -⟩ := Tables.declare_eq_ok_iff.mp hdeclare
    simp only [emitGlobal, Emission.present, ok_bind] at hemit
    obtain ⟨value, hinitial, hemit⟩ := bind_eq_ok_iff.mp hemit
    cases hemit
    exact ⟨isTypeName_javaName ty, hname, hvalue.isLexicalIfPresent hspells hnamesValue hinitial⟩

theorem TypedGlobals.areProper {nodes : List Node} {fields : List Java.Field}
    (h : TypedGlobals tables nodes after) (hspells : Spells tables.chain)
    (hnames : AllSpelled nodes)
    (hemit : List.Forall₂ (fun node field => emitGlobal node = .ok field) nodes fields) :
    ∀ field ∈ fields, field.IsProper := by
  induction h generalizing fields with
  | nil =>
    cases hemit
    exact fun _ hmem => absurd hmem List.not_mem_nil
  | cons h _ ih =>
    obtain ⟨hnamesFirst, hnamesRest⟩ := List.forall_mem_append.mp hnames
    cases hemit with
    | cons hfield hfields =>
      exact List.forall_mem_cons.mpr ⟨h.isProper hspells hnamesFirst hfield,
        ih (h.grows.spells hspells) hnamesRest hfields⟩

theorem javaResult_cases (ty : Ty) : javaResult ty = "void" ∨ Java.IsTypeName (javaResult ty) := by
  unfold javaResult
  split
  · exact .inl rfl
  · exact .inr (isTypeName_javaName ty)

theorem TypedBody.isProper {behind : Tables} {f : Signature} {name : String}
    {parameters : List String} {types : List (Option String)} {resultType : Option String}
    {bindings : List Binding} {body : List Node} {method : Java.Method}
    (h : TypedBody tables f parameters bindings body behind) (hspells : Spells tables.chain)
    (hjava : f.javaName = name)
    (hnames : (Node.function name parameters types resultType body (some f)).IsSpelled)
    (hcalls : ∀ statement ∈ Node.simpleInAll body, statement.DiscardsCall)
    (hemit : emitFunction (.function name parameters types resultType body (some f)) = .ok method) :
    method.IsProper := by
  obtain ⟨hreturn, hparameters, hbody⟩ := h
  obtain ⟨found, hfound, hemit⟩ := bind_eq_ok_iff.mp hemit
  cases hfound
  obtain ⟨forms, hforms, hemit⟩ := bind_eq_ok_iff.mp hemit
  cases hemit
  have hinside := hparameters.grows.spells (hspells.enter.declare hreturn)
  obtain ⟨hname, hnamesInside⟩ := List.forall_mem_cons.mp hnames
  obtain ⟨hnamesParameters, -⟩ := List.forall_mem_append.mp hnamesInside
  refine ⟨javaResult_cases f.result, hjava ▸ hname, ?_,
    hbody.areProper hinside (Node.allSpelled_body hnames) hcalls hforms⟩
  rw [List.forall_mem_map]
  rintro ⟨parameter, ty⟩ hmem
  exact ⟨isTypeName_javaName ty, hnamesParameters parameter (List.of_mem_zip hmem).1⟩

theorem TypedFunctions.areProper {functions : List Node} {bindings : List (List Binding)}
    {methods : List Java.Method} (h : TypedFunctions tables functions bindings after)
    (hspells : Spells tables.chain) (hnames : AllSpelled functions)
    (hjava : ∀ node ∈ functions, ∃ f, node.signature? = some f ∧ f.javaName = f.name)
    (hcalls : ∀ statement ∈ Node.simpleInAll functions, statement.DiscardsCall)
    (hemit : List.Forall₂ (fun node method => emitFunction node = .ok method) functions methods) :
    ∀ method ∈ methods, method.IsProper := by
  induction h generalizing methods with
  | nil =>
    cases hemit
    exact fun _ hmem => absurd hmem List.not_mem_nil
  | cons hname hbody _ ih =>
    obtain ⟨hnamesFunction, hnamesRest⟩ := List.forall_mem_append.mp hnames
    obtain ⟨hcallsBody, hcallsRest⟩ := List.forall_mem_append.mp hcalls
    obtain ⟨⟨f, hf, hjavaName⟩, hjavaRest⟩ := List.forall_mem_cons.mp hjava
    cases hf
    cases hemit with
    | cons hmethod hmethods =>
      exact List.forall_mem_cons.mpr ⟨
        hbody.isProper hspells (hjavaName.trans hname) hnamesFunction hcallsBody hmethod,
        ih hspells hnamesRest hjavaRest hcallsRest hmethods⟩

end

section

variable {source : String} {program annotated : Node} {tables : Tables}

/-- The Java form of an accepted program has names and operators of Java. -/
theorem exists_proper_of_accepted (hparse : parseProgram source = .ok program)
    (hcheck : (checkProgram .initial program).Yields (annotated, tables)) :
    ∃ java, emitProgram annotated = .ok java ∧ compile source = .ok java.text ∧
      java.IsProper := by
  obtain ⟨tokens, htokens, hgrammar⟩ := Parser.exists_program_of_parseProgram hparse
  have hexact := ((Judgement.decides_program hgrammar htokens).sound hcheck.1).1
  rw [hcheck.2] at hexact
  obtain ⟨globals, functions, rfl, htyped⟩ := typed_of_accepted hparse hcheck
  obtain ⟨java, -, hjava, -⟩ := emitProgram_of_perm htyped (.refl _)
  have hcompile : compile source = .ok java.text := by
    rw [compile_eq hparse, hcheck.1, hcheck.2]
    simp only [hjava]
  refine ⟨java, hjava, hcompile, ?_⟩
  obtain ⟨fields, hfields, hjava⟩ := bind_eq_ok_iff.mp hjava
  obtain ⟨entry, -, hjava⟩ := bind_eq_ok_iff.mp hjava
  obtain ⟨methods, hmethods, hjava⟩ := bind_eq_ok_iff.mp hjava
  cases hjava
  obtain ⟨behind, declared, after, hglobals, hdeclared, hfunctions⟩ := htyped.exists_tables
  obtain ⟨hnamesGlobals, hnames⟩ :=
    List.forall_mem_append.mp (isSpelled_of_accepted hparse hcheck)
  have hspells := (hglobals.grows.spells .initial).declareFunctions hdeclared hnames
  refine ⟨hglobals.areProper .initial hnamesGlobals (mapM_eq_ok_iff.mp hfields),
    hfunctions.areProper hspells hnames ?_ hexact.discardsCall (mapM_eq_ok_iff.mp hmethods)⟩
  intro node hmem
  obtain ⟨f, hf, hjavaName, -⟩ := hdeclared.findFunction?_eq_none node hmem
  exact ⟨f, hf, hjavaName⟩

/-- In the text that is generated for an accepted program, brackets outside of literals are balanced
and properly nested, no literal is broken by the end of a line, and every line is indented by its
depth. However deep a statement or a block of statements stands, its lines leave open what was open
in front of them. -/
theorem generated_text_is_nested (hparse : parseProgram source = .ok program)
    (hcheck : (checkProgram .initial program).Yields (annotated, tables)) :
    ∃ java depths, emitProgram annotated = .ok java ∧ compile source = .ok java.text ∧
      Java.splitLines java.text = java.lines ∧
      (∀ line ∈ java.lines, ∀ c ∈ line.toList, c ≠ '\n' ∧ c ≠ '\r') ∧
      Java.outline? [] java.lines = some (depths, []) ∧
      List.Forall₂ Java.IsIndented java.lines depths ∧
      (∀ field ∈ java.fields, Outlines Java.inClass [field.line] Java.inClass) ∧
      ∀ method ∈ java.methods, Outlines Java.inClass method.lines Java.inClass ∧
        ∀ block ∈ method.blocks, (Restores fun level => Java.Statement.linesOf level block) ∧
          ∀ statement ∈ block, Restores fun level => statement.lines level := by
  obtain ⟨java, hjava, hcompile, hproper⟩ := exists_proper_of_accepted hparse hcheck
  obtain ⟨depths, houtline, hindented⟩ := hproper.outlines_lines
  refine ⟨java, depths, hjava, hcompile, hproper.splitLines_text,
    Java.ne_lineEnd_of_outline? houtline, houtline, hindented,
    fun field hmem => (hproper.fields field hmem).outlines_line, ?_⟩
  intro method hmem
  have hmethod := hproper.methods method hmem
  refine ⟨hmethod.outlines_lines, ?_⟩
  intro block hblock
  have hblock : AreProper block := by
    rcases List.mem_cons.mp hblock with rfl | hinside
    · exact hmethod.body
    · exact Java.areProper_of_mem_blocksInAll hmethod.body block hinside
  refine ⟨Java.Statement.restores_linesOf hblock, fun statement hstatement => ?_⟩
  exact Java.Statement.restores_lines (Java.Statement.isProper_of_mem hblock statement hstatement)

/-- The sample program has a field and two methods. -/
theorem generated_text_is_nested_sampleTree :
    parseProgram sampleSource = .ok sampleTree ∧
      (checkProgram .initial sampleTree).Yields (checkProgram .initial sampleTree).result ∧
      ∃ java depths, emitProgram (checkProgram .initial sampleTree).result.1 = .ok java ∧
        compile sampleSource = .ok java.text ∧
        Java.outline? [] java.lines = some (depths, []) ∧
        List.Forall₂ Java.IsIndented java.lines depths := by
  obtain ⟨java, depths, hjava, hcompile, -, -, houtline, hindented, -⟩ :=
    generated_text_is_nested parseProgram_sampleSource yields_sampleTree.parts
  exact ⟨parseProgram_sampleSource, yields_sampleTree, java, depths, hjava, hcompile, houtline,
    hindented⟩

end

end BlockScript
