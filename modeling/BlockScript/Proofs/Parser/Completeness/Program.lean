import BlockScript.Proofs.Parser.Completeness.Statement
import BlockScript.Proofs.Parser.Fuel
/-!
# Parsers find every program

The global variables of a program end where the first function begins, and the functions end where
the tokens end.

## Main results

* `takes_globals`, `takes_functions` — the two parts of a program
* `program_of_derives` — programs, with the fuel that they get
-/

namespace BlockScript.Parser

open Grammar
open Token (IsWord IsMark)

theorem takes_globals_nil :
    Takes globals (Stops ["LIST", "VAR", "VAL"]) [] [] := by
  refine .of_succ 0 fun fuel _ rest hrest => ?_
  rw [List.nil_append, globals, bind_of_ok _ (accept_of_stops (hrest.mono (by simp)))]
  simp only [Bool.false_eq_true, if_false]
  rw [bind_of_ok _ (accept_of_stops (hrest.mono (by simp)))]
  simp only [Bool.false_eq_true, if_false]
  rw [bind_of_ok _ (accept_of_stops (hrest.mono (by simp)))]
  rfl

theorem takes_listGlobal {name sign opening closing stop : Token} {suffix used : List Token}
    {type : Option String} {values : List Node} (hname : name.isName = true)
    (htype : TypeSuffix suffix type) (hsign : sign.IsMark "=") (hopening : opening.IsMark "[")
    (hvalues : Takes expressions (Stops ("," :: Tier.logical.bars)) used values)
    (hclosing : closing.IsMark "]") (hstop : stop.IsMark ";") :
    Takes listGlobal (fun _ => True)
      (name :: (suffix ++ sign :: opening :: (used ++ [closing, stop])))
      (.global name.text true type (.listLiteral values none) true none) := by
  obtain ⟨enough, hvalues⟩ := hvalues
  refine ⟨enough, fun fuel hfuel rest _ => ?_⟩
  simp only [List.append_assoc, List.cons_append, List.nil_append]
  rw [listGlobal, bind_of_ok _ (name_of_isName _ _ hname),
    bind_of_ok _ (typeSuffix_of_derives htype (.of_text hsign.2 (by decide))),
    bind_of_ok _ (expect_of_text_eq _ _ hsign.2), bind_of_ok _ (expect_of_text_eq _ _ hopening.2),
    bind_of_ok _ (hvalues fuel hfuel (closing :: _) (.of_text hclosing.2 (by decide))),
    bind_of_ok _ (expect_of_text_eq _ _ hclosing.2), bind_of_ok _ (expect_of_text_eq _ _ hstop.2)]
  rfl

theorem takes_mutableGlobal {name stop : Token} {suffix initial : List Token}
    {type : Option String} {value : Node} (hname : name.isName = true)
    (htype : TypeSuffix suffix type) (hvalue : Initial initial value)
    (hinitial : AllLexed initial) (hstop : stop.IsMark ";") :
    Takes mutableGlobal (fun _ => True) (name :: (suffix ++ (initial ++ [stop])))
      (.global name.text true type value false none) := by
  obtain ⟨enough, htakes⟩ := takes_initializer hvalue hinitial
  refine ⟨enough, fun fuel hfuel rest _ => ?_⟩
  have hfollow : Stops [":"] (initial ++ stop :: rest) :=
    stops_initial hvalue (by decide) (.of_text hstop.2 (by decide))
  simp only [List.append_assoc, List.cons_append, List.nil_append]
  rw [mutableGlobal, bind_of_ok _ (name_of_isName _ _ hname),
    bind_of_ok _ (typeSuffix_of_derives htype hfollow),
    bind_of_ok _ (htakes fuel hfuel (stop :: rest) (.of_text hstop.2 (by decide))),
    bind_of_ok _ (expect_of_text_eq _ rest hstop.2)]
  rfl

theorem takes_constantGlobal {name sign stop : Token} {suffix used : List Token}
    {type : Option String} {value : Node} (hname : name.isName = true)
    (htype : TypeSuffix suffix type) (hsign : sign.IsMark "=")
    (hvalue : Takes expression (Stops Tier.logical.bars) used value) (hstop : stop.IsMark ";") :
    Takes constantGlobal (fun _ => True) (name :: (suffix ++ sign :: (used ++ [stop])))
      (.global name.text false type value false none) := by
  obtain ⟨enough, hvalue⟩ := hvalue
  refine ⟨enough, fun fuel hfuel rest _ => ?_⟩
  simp only [List.append_assoc, List.cons_append, List.nil_append]
  rw [constantGlobal, bind_of_ok _ (name_of_isName _ _ hname),
    bind_of_ok _ (typeSuffix_of_derives htype (.of_text hsign.2 (by decide))),
    bind_of_ok _ (expect_of_text_eq _ _ hsign.2),
    bind_of_ok _ (hvalue fuel hfuel (stop :: rest) (.of_text hstop.2 (by decide))),
    bind_of_ok _ (expect_of_text_eq _ rest hstop.2)]
  rfl

/-- The keyword of a global variable leads to the parser of the variable. -/
theorem globals_of_word (fuel : Nat) (rest : List Token) {word : Token} {text : String}
    (hword : word.IsWord text) :
    globals (fuel + 1) (word :: rest) =
      if text = "LIST" then (do return (← listGlobal fuel) :: (← globals fuel)) rest
      else if text = "VAR" then (do return (← mutableGlobal fuel) :: (← globals fuel)) rest
      else if text = "VAL" then (do return (← constantGlobal fuel) :: (← globals fuel)) rest
      else .ok ([], word :: rest) := by
  obtain ⟨-, rfl⟩ := hword
  rw [globals]
  simp only [bind_accept_cons]
  rfl

/-- One global variable and then the others. -/
theorem takes_globals_cons {parser : Nat → Parser Node} {word : Token} {used others : List Token}
    {node : Node} {nodes : List Node}
    (hglobals : ∀ fuel rest, globals (fuel + 1) (word :: rest) =
      (do return (← parser fuel) :: (← globals fuel)) rest)
    (h : Takes parser (fun _ => True) used node)
    (hothers : Takes globals (Stops ["LIST", "VAR", "VAL"]) others nodes) :
    Takes globals (Stops ["LIST", "VAR", "VAL"]) (word :: used ++ others) (node :: nodes) := by
  obtain ⟨enough, h⟩ := h
  obtain ⟨enough', hothers⟩ := hothers
  refine .of_succ (enough + enough') fun fuel hfuel rest hrest => ?_
  simp only [List.append_assoc, List.cons_append]
  rw [hglobals, bind_of_ok _ (h fuel (by omega) _ trivial),
    bind_of_ok _ (hothers fuel (by omega) rest hrest)]
  rfl

theorem takes_globals {used : List Token} {nodes : List Node} (h : Many Global used nodes)
    (hused : AllLexed used) : Takes globals (Stops ["LIST", "VAR", "VAL"]) used nodes := by
  induction h with
  | nil => exact takes_globals_nil
  | cons h hothers ih =>
    have htail := ih hused.right
    cases h with
    | list hword hname htype hsign hopening hvalues hclosing hstop =>
      have hvalues := takes_expressions hvalues hused.left.tail.tail.right.tail.tail.left
      exact takes_globals_cons (fun fuel rest => globals_of_word fuel rest hword)
        (takes_listGlobal hname htype hsign hopening hvalues hclosing hstop) htail
    | «mutable» hword hname htype hvalue hstop =>
      exact takes_globals_cons (fun fuel rest => globals_of_word fuel rest hword)
        (takes_mutableGlobal hname htype hvalue hused.left.tail.tail.right.left hstop) htail
    | constant hword hname htype hsign hvalue hstop =>
      have hvalue := takes_expression hvalue hused.left.tail.tail.right.tail.left
      exact takes_globals_cons (fun fuel rest => globals_of_word fuel rest hword)
        (takes_constantGlobal hname htype hsign hvalue hstop) htail

theorem takes_parameters {used : List Token} {params : List (String × Option String)}
    (h : Parameters used params) : Takes parameters (Stops [":", ","]) used params := by
  induction h with
  | one hname htype =>
    refine .of_succ 0 fun fuel _ rest hrest => ?_
    rw [List.cons_append, parameters, bind_of_ok _ (name_of_isName _ _ hname),
      bind_of_ok _ (typeSuffix_of_derives htype (hrest.mono (by simp))),
      bind_of_ok _ (accept_of_stops (hrest.mono (by simp)))]
    rfl
  | @cons name suffix type comma others params hname htype hcomma _ ih =>
    obtain ⟨enough, ih⟩ := ih
    refine .of_succ enough fun fuel hfuel rest hrest => ?_
    simp only [List.append_assoc, List.cons_append]
    rw [parameters, bind_of_ok _ (name_of_isName _ _ hname),
      bind_of_ok _ (typeSuffix_of_derives htype (.of_text hcomma.2 (by decide))),
      bind_of_ok _ (accept_of_text_eq _ hcomma.2)]
    simp only [if_true]
    rw [bind_of_ok _ (ih fuel hfuel rest hrest)]
    rfl

theorem opens_parameters {used : List Token} {params : List (String × Option String)}
    (h : Parameters used params) (hused : AllLexed used) : Opens unopened used := by
  cases h with
  | one hname => exact ⟨_, _, rfl, notMem_unopened_of_isName hused.head hname⟩
  | cons hname => exact ⟨_, _, rfl, notMem_unopened_of_isName hused.head hname⟩

theorem takes_function {name opening closing doWord stop : Token}
    {used suffix usedBody : List Token} {params : List (String × Option String)}
    {type : Option String} {body : List Node} (hname : name.isName = true)
    (hopening : opening.IsMark "(")
    (hparams : used = [] ∧ params = [] ∨ Parameters used params) (hused : AllLexed used)
    (hclosing : closing.IsMark ")") (htype : TypeSuffix suffix type)
    (hdo : doWord.IsWord "DO") (hbody : Takes block EndsBlock usedBody body)
    (hstop : stop.IsWord "END") :
    Takes function (fun _ => True)
      (name :: opening :: (used ++ closing :: (suffix ++ doWord :: (usedBody ++ [stop]))))
      (.function name.text (params.map Prod.fst) (params.map Prod.snd) type body none) := by
  obtain ⟨enough, hbody⟩ := hbody
  -- the part behind the parameters, which is the same with and without them
  have hafter : ∀ fuel, enough ≤ fuel → ∀ rest, (do
      expect ")" .parametersEnd
      let resultType ← typeSuffix
      expect "DO" .doKeyword
      let body ← block fuel
      expect "END" .functionEnd
      return .function name.text (params.map Prod.fst) (params.map Prod.snd) resultType body none :
        Parser Node) (closing :: (suffix ++ doWord :: (usedBody ++ stop :: rest))) =
        .ok (.function name.text (params.map Prod.fst) (params.map Prod.snd) type body none,
          rest) := by
    intro fuel hfuel rest
    rw [bind_of_ok _ (expect_of_text_eq _ _ hclosing.2),
      bind_of_ok _ (typeSuffix_of_derives htype (.of_text hdo.2 (by decide))),
      bind_of_ok _ (expect_of_text_eq _ _ hdo.2),
      bind_of_ok _ (hbody fuel hfuel (stop :: rest) (.of_text hstop.2 (by decide))),
      bind_of_ok _ (expect_of_text_eq _ _ hstop.2)]
    rfl
  obtain ⟨rfl, rfl⟩ | hparams := hparams
  · refine ⟨enough, fun fuel hfuel rest _ => ?_⟩
    simp only [List.append_assoc, List.cons_append, List.nil_append]
    rw [function, bind_of_ok _ (name_of_isName _ _ hname),
      bind_of_ok _ (expect_of_text_eq _ _ hopening.2),
      bind_of_ok _ (sees_of_mem _ (by simp [hclosing.2]))]
    exact hafter fuel hfuel rest
  · have hopens := opens_parameters hparams hused
    obtain ⟨enough', htakes⟩ := takes_parameters hparams
    refine ⟨enough + enough', fun fuel hfuel rest _ => ?_⟩
    simp only [List.append_assoc, List.cons_append, List.nil_append]
    rw [function, bind_of_ok _ (name_of_isName _ _ hname),
      bind_of_ok _ (expect_of_text_eq _ _ hopening.2),
      bind_of_ok _ (sees_of_stops ((hopens.append _).stops.mono (by decide)))]
    simp only [Bool.false_eq_true, if_false]
    rw [bind_of_ok _ (htakes fuel (by omega) (closing :: _) (.of_text hclosing.2 (by decide)))]
    exact hafter fuel (by omega) rest

theorem takes_functions {used : List Token} {nodes : List Node} (h : Many Function used nodes)
    (hused : AllLexed used) : Takes functions (Stops ["FUN"]) used nodes := by
  induction h with
  | nil =>
    refine .of_succ 0 fun fuel _ rest hrest => ?_
    rw [List.nil_append, functions, bind_of_ok _ (accept_of_stops hrest)]
    rfl
  | @cons used node others nodes h _ ih =>
    obtain ⟨enough, ih⟩ := ih hused.right
    cases h with
    | mk hword hname hopening hparams hclosing htype hdo hbody hstop =>
      have hrest := hused.left.tail.tail.tail
      obtain ⟨enough', htakes⟩ := takes_function hname hopening hparams hrest.left hclosing htype
        hdo (takes_block hbody hrest.right.tail.right.tail.left) hstop
      refine .of_succ (enough + enough') fun fuel hfuel rest hfits => ?_
      have hfunction := htakes fuel (by omega) (others ++ rest) trivial
      rw [List.append_assoc, List.cons_append, functions,
        bind_of_ok _ (accept_of_text_eq _ hword.2)]
      simp only [if_true]
      rw [bind_of_ok _ hfunction, bind_of_ok _ (ih fuel (by omega) rest hfits)]
      rfl

theorem stops_functions {used : List Token} {nodes : List Node} (h : Many Function used nodes) :
    Stops ["LIST", "VAR", "VAL"] used := by
  cases h with
  | nil => exact .nil _
  | cons h =>
    cases h with
    | mk hword => exact .of_text hword.2 (by decide)

/-- Every list of tokens that the grammar derives is parsed to the tree of the derivation. -/
theorem program_of_derives {tokens : List Token} {node : Node} (h : Program tokens node)
    (htokens : AllLexed tokens) : program (fuelFor tokens) tokens = .ok (node, []) := by
  obtain @⟨used, globals, rest, functions, hglobals, hfunctions⟩ := h
  have hstops := stops_functions hfunctions
  obtain ⟨enough, hglobals⟩ := takes_globals hglobals htokens.left
  obtain ⟨enough', hfunctions⟩ := takes_functions hfunctions htokens.right
  -- fuel that is enough for both parts, and at least what the parser gets
  have hfuel : fuelFor (used ++ rest) ≤ fuelFor (used ++ rest) + enough + enough' := by omega
  have hrest := hfunctions (fuelFor (used ++ rest) + enough + enough') (by omega) [] (.nil _)
  rw [List.append_nil] at hrest
  rw [← program_of_fuelFor_le hfuel, program,
    bind_of_ok _ (hglobals _ (by omega) rest hstops), bind_of_ok _ hrest]
  rfl

end BlockScript.Parser
