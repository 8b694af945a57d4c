import BlockScript.Proofs.Layout
import BlockScript.Proofs.Renaming.Tree
/-!
# Sources with other names

Where the grammar has a name it takes any name. So a tree that is derived by the grammar is derived
with its new names as well, from other tokens, and there is a source text with these tokens.

## Main definitions

* `Renaming.Readable` — new names of names are names
* `Grammar.Spelled` — what tokens of a source text stand for

## Main results

* `Grammar.Program.renamed` — renamed programs are derived
* `exists_source_of_renamed` — renamed programs have source texts
-/

namespace BlockScript

open Grammar (IsName)
open BlockScript.Parser (AllLexed Tier)

/-- New names of names are names: identifiers that are no keywords. -/
structure Renaming.Readable (ρ : Renaming) : Prop where
  isName_varName : ∀ {name}, IsName name → IsName (ρ.varName name)
  isName_funName : ∀ {name}, IsName name → IsName (ρ.funName name)

namespace Grammar

/-- A phrase of tokens that are found in source texts. -/
def Spelled {α : Type} (phrase : List Token → α → Prop) (a : α) : Prop :=
  ∃ used, AllLexed used ∧ phrase used a

variable {ρ : Renaming}

attribute [local grind] Parser.AllLexed

/-! ### Expressions -/

mutual

theorem Expression.renamed (hρ : ρ.Readable) : ∀ {t : Tier} {used : List Token} {node : Node},
    Expression t used node → AllLexed used → Spelled (Expression t) (node.renamed ρ)
  | _, _, _, .operand h, hused => by
    obtain ⟨spelling, hspelling, h⟩ := h.renamed hρ hused
    exact ⟨spelling, hspelling, .operand h⟩
  | _, _, _, .binary hleft hkind hop hright, hused => by
    obtain ⟨left, hleftLexed, hleft⟩ := hleft.renamed hρ hused.left
    obtain ⟨right, hrightLexed, hright⟩ := hright.renamed hρ hused.right.tail
    refine ⟨_, ?_, .binary hleft hkind hop hright⟩
    grind

theorem Operand.renamed (hρ : ρ.Readable) : ∀ {t : Tier} {used : List Token} {node : Node},
    Operand t used node → AllLexed used → Spelled (Operand t) (node.renamed ρ)
  | _, _, _, .tighter ht h, hused => by
    obtain ⟨spelling, hspelling, h⟩ := h.renamed hρ hused
    exact ⟨spelling, hspelling, .tighter ht h⟩
  | _, _, _, .primary ht h, hused => by
    obtain ⟨spelling, hspelling, h⟩ := h.renamed hρ hused
    exact ⟨spelling, hspelling, .primary ht h⟩

theorem Primary.renamed (hρ : ρ.Readable) : ∀ {used : List Token} {node : Node},
    Primary used node → AllLexed used → Spelled Primary (node.renamed ρ)
  | _, _, .literal h, hused => ⟨_, hused, .literal h⟩
  | _, _, .group hopening h hclosing, hused => by
    obtain ⟨inner, hinner, h⟩ := h.renamed hρ hused.tail.left
    refine ⟨_, ?_, .group hopening h hclosing⟩
    grind
  | _, _, .variable hname, hused => by
    obtain ⟨token, htoken, hname, htext⟩ := hρ.isName_varName (isName_cons hname hused)
    rw [Node.renamed, ← htext]
    exact ⟨[token], .cons htoken .nil, .variable hname⟩
  | _, _, .element hname hopening h hclosing, hused => by
    obtain ⟨token, htoken, hname, htext⟩ := hρ.isName_varName (isName_cons hname hused)
    obtain ⟨offset, hoffset, h⟩ := h.renamed hρ hused.tail.tail.left
    rw [Node.renamed, ← htext]
    refine ⟨_, ?_, .element hname hopening h hclosing⟩
    grind
  | _, _, .call hname hopening h hclosing, hused => by
    obtain ⟨token, htoken, hname, htext⟩ := hρ.isName_funName (isName_cons hname hused)
    obtain ⟨arguments, harguments, h⟩ := h.renamed hρ hused.tail.tail.left
    rw [Node.renamed, ← htext]
    refine ⟨_, ?_, .call hname hopening h hclosing⟩
    grind

theorem Arguments.renamed (hρ : ρ.Readable) : ∀ {used : List Token} {nodes : List Node},
    Arguments used nodes → AllLexed used → Spelled Arguments (Node.renamedAll ρ nodes)
  | _, _, .none, hused => ⟨_, hused, .none⟩
  | _, _, .some h, hused => by
    obtain ⟨spelling, hspelling, h⟩ := h.renamed hρ hused
    exact ⟨spelling, hspelling, .some h⟩

theorem Expressions.renamed (hρ : ρ.Readable) : ∀ {used : List Token} {nodes : List Node},
    Expressions used nodes → AllLexed used → Spelled Expressions (Node.renamedAll ρ nodes)
  | _, _, .one h, hused => by
    obtain ⟨spelling, hspelling, h⟩ := h.renamed hρ hused
    exact ⟨spelling, hspelling, .one h⟩
  | _, _, .cons h hcomma hrest, hused => by
    obtain ⟨first, hfirst, h⟩ := h.renamed hρ hused.left
    obtain ⟨others, hothers, hrest⟩ := hrest.renamed hρ hused.right.tail
    refine ⟨_, ?_, .cons h hcomma hrest⟩
    grind

end

theorem Initial.renamed (hρ : ρ.Readable) {used : List Token} {value : Node}
    (h : Initial used value) (hused : AllLexed used) : Spelled Initial (value.renamed ρ) := by
  cases h with
  | absent => exact ⟨[], .nil, .absent⟩
  | present hsign h =>
    obtain ⟨spelling, hspelling, h⟩ := h.renamed hρ hused.tail
    exact ⟨_, .cons hused.head hspelling, .present hsign h⟩

/-! ### Statements -/

mutual

theorem Statement.renamed (hρ : ρ.Readable) : ∀ {used : List Token} {node : Node},
    Statement used node → AllLexed used → Spelled Statement (node.renamed ρ)
  | _, _, .declaration hword hname htype h hstop, hused => by
    obtain ⟨token, htoken, hname, htext⟩ := hρ.isName_varName (isName_cons hname hused.tail)
    obtain ⟨initial, hinitial, h⟩ := h.renamed hρ hused.tail.tail.right.left
    rw [Node.renamed, ← htext]
    refine ⟨_, ?_, .declaration hword hname htype h hstop⟩
    grind
  | _, _, .switch hword h hcases hdefault hcolon hbody hstop, hused => by
    obtain ⟨condition, hcondition, h⟩ := h.renamed hρ hused.tail.left
    obtain ⟨cases, hcasesLexed, hcases⟩ := hcases.renamed hρ hused.tail.right.left
    obtain ⟨body, hbodyLexed, hbody⟩ := hbody.renamed hρ hused.tail.right.right.tail.right.left
    rw [Node.renamed, Node.renamedAll_append]
    refine ⟨_, ?_, .switch hword h hcases hdefault hcolon hbody hstop⟩
    grind
  | _, _, .branch hword h hdo hthen hstop, hused => by
    obtain ⟨condition, hcondition, h⟩ := h.renamed hρ hused.tail.left
    obtain ⟨body, hbody, hthen⟩ := hthen.renamed hρ hused.tail.right.tail.left
    refine ⟨_, ?_, .branch hword h hdo hthen hstop⟩
    grind
  | _, _, .branchElse hword h hdo hthen helseWord helse hstop, hused => by
    obtain ⟨condition, hcondition, h⟩ := h.renamed hρ hused.tail.left
    obtain ⟨thenBody, hthenLexed, hthen⟩ := hthen.renamed hρ hused.tail.right.tail.left
    obtain ⟨elseBody, helseLexed, helse⟩ :=
      helse.renamed hρ hused.tail.right.tail.right.tail.left
    refine ⟨_, ?_, .branchElse hword h hdo hthen helseWord helse hstop⟩
    grind
  | _, _, .loop hword h hdo hbody hstop, hused => by
    obtain ⟨condition, hcondition, h⟩ := h.renamed hρ hused.tail.left
    obtain ⟨body, hbodyLexed, hbody⟩ := hbody.renamed hρ hused.tail.right.tail.left
    refine ⟨_, ?_, .loop hword h hdo hbody hstop⟩
    grind
  | _, _, .ret hword h hstop, hused => by
    obtain ⟨value, hvalue, h⟩ := h.renamed hρ hused.tail.left
    refine ⟨_, ?_, .ret hword h hstop⟩
    grind
  | _, _, .assignment hreceiver hsign hvalue hstop, hused => by
    obtain ⟨receiver, hreceiverLexed, hreceiver⟩ := hreceiver.renamed hρ hused.left
    obtain ⟨value, hvalueLexed, hvalue⟩ := hvalue.renamed hρ hused.right.tail.left
    refine ⟨_, ?_, .assignment hreceiver hsign hvalue hstop⟩
    grind
  | _, _, .discard h hstop, hused => by
    obtain ⟨expression, hexpression, h⟩ := h.renamed hρ hused.left
    refine ⟨_, ?_, .discard h hstop⟩
    grind

theorem Block.renamed (hρ : ρ.Readable) : ∀ {used : List Token} {nodes : List Node},
    Block used nodes → AllLexed used → Spelled Block (Node.renamedAll ρ nodes)
  | _, _, .nil, hused => ⟨_, hused, .nil⟩
  | _, _, .cons h hrest, hused => by
    obtain ⟨statement, hstatement, h⟩ := h.renamed hρ hused.left
    obtain ⟨rest, hrestLexed, hrest⟩ := hrest.renamed hρ hused.right
    exact ⟨_, hstatement.append hrestLexed, .cons h hrest⟩

theorem Cases.renamed (hρ : ρ.Readable) : ∀ {used : List Token} {nodes : List Node},
    Cases used nodes → AllLexed used → Spelled Cases (Node.renamedAll ρ nodes)
  | _, _, .nil, hused => ⟨_, hused, .nil⟩
  | _, _, .cons hword h hcolon hbody hrest, hused => by
    obtain ⟨value, hvalue, h⟩ := h.renamed hρ hused.tail.left
    obtain ⟨body, hbodyLexed, hbody⟩ := hbody.renamed hρ hused.tail.right.tail.left
    obtain ⟨rest, hrestLexed, hrest⟩ := hrest.renamed hρ hused.tail.right.tail.right
    refine ⟨_, ?_, .cons hword h hcolon hbody hrest⟩
    grind

end

/-! ### Programs -/

theorem Global.renamed (hρ : ρ.Readable) {used : List Token} {node : Node} (h : Global used node)
    (hused : AllLexed used) : Spelled Global (node.renamed ρ) := by
  cases h with
  | list hword hname htype hsign hopening h hclosing hstop =>
    obtain ⟨token, htoken, hname, htext⟩ := hρ.isName_varName (isName_cons hname hused.tail)
    obtain ⟨values, hvalues, h⟩ := h.renamed hρ hused.tail.tail.right.tail.tail.left
    rw [Node.renamed, ← htext]
    refine ⟨_, ?_, .list hword hname htype hsign hopening h hclosing hstop⟩
    grind
  | «mutable» hword hname htype h hstop =>
    obtain ⟨token, htoken, hname, htext⟩ := hρ.isName_varName (isName_cons hname hused.tail)
    obtain ⟨initial, hinitial, h⟩ := h.renamed hρ hused.tail.tail.right.left
    rw [Node.renamed, ← htext]
    refine ⟨_, ?_, .mutable hword hname htype h hstop⟩
    grind
  | constant hword hname htype hsign h hstop =>
    obtain ⟨token, htoken, hname, htext⟩ := hρ.isName_varName (isName_cons hname hused.tail)
    obtain ⟨value, hvalue, h⟩ := h.renamed hρ hused.tail.tail.right.tail.left
    rw [Node.renamed, ← htext]
    refine ⟨_, ?_, .constant hword hname htype hsign h hstop⟩
    grind

theorem Parameters.renamed (hρ : ρ.Readable) {used : List Token}
    {parameters : List (String × Option String)} (h : Parameters used parameters)
    (hused : AllLexed used) : Spelled Parameters (parameters.map (Prod.map ρ.varName id)) := by
  induction h with
  | one hname htype =>
    obtain ⟨token, htoken, hname, htext⟩ := hρ.isName_varName (isName_cons hname hused)
    rw [List.map_singleton, Prod.map_apply, ← htext]
    exact ⟨_, .cons htoken hused.tail, .one hname htype⟩
  | cons hname htype hcomma hrest ih =>
    obtain ⟨token, htoken, hname, htext⟩ := hρ.isName_varName (isName_cons hname hused)
    obtain ⟨rest, hrestLexed, hrest⟩ := ih hused.tail.right.tail
    rw [List.map_cons, Prod.map_apply, ← htext]
    refine ⟨_, ?_, .cons hname htype hcomma hrest⟩
    grind

theorem Function.renamed (hρ : ρ.Readable) {used : List Token} {node : Node}
    (h : Function used node) (hused : AllLexed used) : Spelled Function (node.renamed ρ) := by
  cases h with
  | @mk _ _ _ usedParameters parameters _ _ _ _ _ _ _ hword hname hopening hparameters hclosing
      htype hdo hbody hend =>
    have hrest := hused.tail.tail.tail
    obtain ⟨token, htoken, hname, htext⟩ := hρ.isName_funName (isName_cons hname hused.tail)
    obtain ⟨body, hbodyLexed, hbody⟩ := hbody.renamed hρ hrest.right.tail.right.tail.left
    -- a function without parameters, and one with some
    have hnames : Spelled (fun used parameters => used = [] ∧ parameters = [] ∨
        Parameters used parameters) (parameters.map (Prod.map ρ.varName id)) := by
      obtain ⟨rfl, rfl⟩ | hparameters := hparameters
      · exact ⟨[], .nil, .inl ⟨rfl, rfl⟩⟩
      · obtain ⟨names, hnames, hparameters⟩ := hparameters.renamed hρ hrest.left
        exact ⟨names, hnames, .inr hparameters⟩
    obtain ⟨names, hnamesLexed, hnames⟩ := hnames
    have hfst : (parameters.map Prod.fst).map ρ.varName =
        (parameters.map (Prod.map ρ.varName id)).map Prod.fst := by
      simp
    have hsnd : parameters.map Prod.snd =
        (parameters.map (Prod.map ρ.varName id)).map Prod.snd := by
      simp
    rw [Node.renamed, ← htext, hfst, hsnd]
    refine ⟨_, ?_, .mk hword hname hopening hnames hclosing htype hdo hbody hend⟩
    grind

theorem Many.renamed {phrase : List Token → Node → Prop} (hphrase : ∀ {used node},
    phrase used node → AllLexed used → Spelled phrase (node.renamed ρ)) {used : List Token}
    {nodes : List Node} (h : Many phrase used nodes) (hused : AllLexed used) :
    Spelled (Many phrase) (Node.renamedAll ρ nodes) := by
  induction h with
  | nil => exact ⟨[], .nil, .nil⟩
  | cons h _ ih =>
    obtain ⟨first, hfirst, h⟩ := hphrase h hused.left
    obtain ⟨rest, hrestLexed, hrest⟩ := ih hused.right
    exact ⟨_, hfirst.append hrestLexed, .cons h hrest⟩

/-- A program that is derived is derived with its new names. -/
theorem Program.renamed (hρ : ρ.Readable) {used : List Token} {node : Node}
    (h : Program used node) (hused : AllLexed used) : Spelled Program (node.renamed ρ) := by
  cases h with
  | mk hglobals hfunctions =>
    obtain ⟨globals, hglobalsLexed, hglobals⟩ :=
      hglobals.renamed (Global.renamed hρ) hused.left
    obtain ⟨functions, hfunctionsLexed, hfunctions⟩ :=
      hfunctions.renamed (Function.renamed hρ) hused.right
    exact ⟨_, hglobalsLexed.append hfunctionsLexed, .mk hglobals hfunctions⟩

end Grammar

/-- A renamed program is the tree of a source text. -/
theorem exists_source_of_renamed {ρ : Renaming} (hρ : ρ.Readable) {source : String}
    {program : Node} (h : parseProgram source = .ok program) :
    ∃ source', parseProgram source' = .ok (program.renamed ρ) := by
  obtain ⟨tokens, htokens, hprogram⟩ := Parser.exists_program_of_parseProgram h
  obtain ⟨spelling, hspelling, hrenamed⟩ := hprogram.renamed hρ htokens
  exact exists_source_of_derives hspelling hrenamed

end BlockScript
