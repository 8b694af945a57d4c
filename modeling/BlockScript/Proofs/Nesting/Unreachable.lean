import BlockScript.Proofs.Nesting.Emitted
import BlockScript.Proofs.Nesting.Returns
/-!
# Returns in generated Java

If no statement of a program follows a return in its block, the same is true of the generated Java,
but for the break that every group of a case with a value ends with: it is put behind the statements
of the group, whatever the last one is.

## Main definitions

* `Node.blocks` — the blocks of statements in a tree
* `Node.ReturnStandsLast` — blocks in which nothing follows a return

## Main results

* `blockReturnsLast_of_emitBlock` — returns in the forms of statements
* `returns_end_their_blocks` — what follows a return in the generated text
* `break_follows_return` — a program whose text has a break behind a return
-/

namespace BlockScript

open Java (BlockReturnsLast GroupsReturnLast InOneBlock InCase)

namespace Node

mutual

/-- The blocks of statements in a tree. -/
def blocks : Node → List (List Node)
  | branch _ thenBody elseBody =>
    thenBody :: blocksInAll thenBody ++ elseBody :: blocksInAll elseBody
  | case _ body | loop _ body | function _ _ _ _ body _ => body :: blocksInAll body
  | switch _ cases => blocksInAll cases
  | program _ functions => blocksInAll functions
  | _ => []

/-- The blocks of statements in several trees. -/
def blocksInAll : List Node → List (List Node)
  | [] => []
  | node :: rest => node.blocks ++ blocksInAll rest

end

/-- No statement follows a return in a block. -/
def ReturnStandsLast (block : List Node) : Prop :=
  ∀ before value behind, block = before ++ ret value :: behind → behind = []

mutual

theorem blocks_erase : ∀ node : Node, node.erase.blocks = node.blocks.map eraseAll
  | branch _ thenBody elseBody => by
    rw [erase, blocks, blocks, blocksInAll_eraseAll thenBody, blocksInAll_eraseAll elseBody]
    simp
  | case _ body | loop _ body | function _ _ _ _ body _ =>
    congrArg (eraseAll body :: ·) (blocksInAll_eraseAll body)
  | switch _ cases => blocksInAll_eraseAll cases
  | program _ functions => blocksInAll_eraseAll functions
  | null | literal .. | group .. | binary .. | access .. | call .. | listLiteral .. | discard _
  | declaration .. | assignment .. | ret _ | global .. => rfl

theorem blocksInAll_eraseAll : ∀ nodes : List Node,
    blocksInAll (eraseAll nodes) = (blocksInAll nodes).map eraseAll
  | [] => rfl
  | node :: rest => by
    rw [eraseAll, blocksInAll, blocksInAll, blocks_erase node, blocksInAll_eraseAll rest,
      List.map_append]

end

namespace ReturnStandsLast

variable {node : Node} {block : List Node}

theorem tail (h : ReturnStandsLast (node :: block)) : ReturnStandsLast block :=
  fun before value behind hsplit => h (node :: before) value behind (by rw [hsplit]; rfl)

theorem of_eraseAll (h : ReturnStandsLast (eraseAll block)) : ReturnStandsLast block := by
  intro before value behind hsplit
  have hnil := h (eraseAll before) value.erase (eraseAll behind)
    (by simp [hsplit, eraseAll_eq_map, erase])
  rwa [eraseAll_eq_map, List.map_eq_nil_iff] at hnil

theorem singleton (node : Node) : ReturnStandsLast [node] := by
  intro before value behind hsplit
  have hlength := congrArg List.length hsplit
  simp at hlength
  exact List.eq_nil_of_length_eq_zero (by omega)

end ReturnStandsLast

end Node

open Node (ReturnStandsLast)

/-! ### Emission -/

section

variable {result : Ty}

/-- A return is emitted as a return, with a call in front of it or not. -/
theorem blockReturnsLast_of_ret {value : Node} {forms : List Java.Statement}
    (hemit : emitStatement result (.ret value) = .ok forms) : BlockReturnsLast forms := by
  rw [emitStatement] at hemit
  split at hemit
  · split at hemit
    · obtain ⟨form, -, hemit⟩ := bind_eq_ok_iff.mp hemit
      cases hemit
      exact .cons (.expression form) nofun (.cons (.exit none) (fun _ => rfl) .nil)
    · cases hemit
      exact .cons (.exit none) (fun _ => rfl) .nil
  · obtain ⟨form, -, hemit⟩ := bind_eq_ok_iff.mp hemit
    cases hemit
    exact .cons (.exit (some form)) (fun _ => rfl) .nil

mutual

/-- The form of a statement that is no return. -/
theorem returnsLast_of_emitStatement : ∀ (node : Node) {forms : List Java.Statement},
    emitStatement result node = .ok forms → (∀ value, node ≠ .ret value) →
    (∀ block ∈ node.blocks, ReturnStandsLast block) →
      ∃ form, forms = [form] ∧ form.ReturnsLast ∧ form.isExit = false
  | .discard expression, _, hemit, _, _ => by
    obtain ⟨form, -, hemit⟩ := bind_eq_ok_iff.mp hemit
    cases hemit
    exact ⟨_, rfl, .expression form, rfl⟩
  | .declaration name typeName value binding, _, hemit, _, _ => by
    obtain ⟨found, -, hemit⟩ := bind_eq_ok_iff.mp hemit
    obtain ⟨ty, -, hemit⟩ := bind_eq_ok_iff.mp hemit
    obtain ⟨initial, -, hemit⟩ := bind_eq_ok_iff.mp hemit
    cases hemit
    exact ⟨_, rfl, .localVariable _ _ _, rfl⟩
  | .assignment receiver value, _, hemit, _, _ => by
    obtain ⟨target, -, hemit⟩ := bind_eq_ok_iff.mp hemit
    obtain ⟨form, -, hemit⟩ := bind_eq_ok_iff.mp hemit
    cases hemit
    exact ⟨_, rfl, .assignment _ _, rfl⟩
  | .branch condition thenBody elseBody, _, hemit, _, hblocks => by
    obtain ⟨hthenBlocks, helseBlocks⟩ := List.forall_mem_append.mp hblocks
    obtain ⟨hthen, hthenBlocks⟩ := List.forall_mem_cons.mp hthenBlocks
    obtain ⟨helse, helseBlocks⟩ := List.forall_mem_cons.mp helseBlocks
    obtain ⟨test, -, hemit⟩ := bind_eq_ok_iff.mp hemit
    obtain ⟨thenForm, hthenForm, hemit⟩ := bind_eq_ok_iff.mp hemit
    obtain ⟨elseForm, helseForm, hemit⟩ := bind_eq_ok_iff.mp hemit
    cases hemit
    exact ⟨_, rfl, .ifElse test (blockReturnsLast_of_emitBlock thenBody hthenForm hthen hthenBlocks)
      (blockReturnsLast_of_emitBlock elseBody helseForm helse helseBlocks), rfl⟩
  | .switch condition cases, _, hemit, _, hblocks => by
    obtain ⟨test, -, hemit⟩ := bind_eq_ok_iff.mp hemit
    obtain ⟨groups, hgroups, hemit⟩ := bind_eq_ok_iff.mp hemit
    cases hemit
    exact ⟨_, rfl, .switch test (groupsReturnLast_of_emitCases cases hgroups hblocks), rfl⟩
  | .loop condition body, _, hemit, _, hblocks => by
    obtain ⟨hlast, hblocks⟩ := List.forall_mem_cons.mp hblocks
    obtain ⟨test, -, hemit⟩ := bind_eq_ok_iff.mp hemit
    obtain ⟨form, hform, hemit⟩ := bind_eq_ok_iff.mp hemit
    cases hemit
    exact ⟨_, rfl, .whileLoop test (blockReturnsLast_of_emitBlock body hform hlast hblocks), rfl⟩
  | .ret value, _, _, hret, _ => absurd rfl (hret value)
  | .null, _, hemit, _, _ | .literal .., _, hemit, _, _ | .group .., _, hemit, _, _
  | .binary .., _, hemit, _, _ | .access .., _, hemit, _, _ | .call .., _, hemit, _, _
  | .listLiteral .., _, hemit, _, _ | .case .., _, hemit, _, _ | .global .., _, hemit, _, _
  | .function .., _, hemit, _, _ | .program .., _, hemit, _, _ => nomatch hemit

/-- In the forms of statements, returns stand last if they do so in the statements. -/
theorem blockReturnsLast_of_emitBlock : ∀ (nodes : List Node) {forms : List Java.Statement},
    emitBlock result nodes = .ok forms → ReturnStandsLast nodes →
    (∀ block ∈ Node.blocksInAll nodes, ReturnStandsLast block) → BlockReturnsLast forms
  | [], _, hemit, _, _ => by
    cases hemit
    exact .nil
  | node :: rest, _, hemit, hlast, hblocks => by
    obtain ⟨hblocksFirst, hblocksRest⟩ := List.forall_mem_append.mp hblocks
    obtain ⟨form, hform, hemit⟩ := bind_eq_ok_iff.mp hemit
    obtain ⟨forms, hforms, hemit⟩ := bind_eq_ok_iff.mp hemit
    cases hemit
    by_cases hret : ∃ value, node = .ret value
    · obtain ⟨value, rfl⟩ := hret
      -- nothing follows, neither in the program nor in its form
      obtain rfl := hlast [] value rest rfl
      cases hforms
      rw [List.append_nil]
      exact blockReturnsLast_of_ret hform
    · obtain ⟨own, rfl, hown, hexit⟩ := returnsLast_of_emitStatement node hform
        (fun value heq => hret ⟨value, heq⟩) hblocksFirst
      refine .cons hown (fun h => ?_)
        (blockReturnsLast_of_emitBlock rest hforms hlast.tail hblocksRest)
      rw [hexit] at h
      cases h

theorem groupsReturnLast_of_emitCases : ∀ (nodes : List Node)
    {groups : List (Option Java.Expression × List Java.Statement)},
    emitCases result nodes = .ok groups →
    (∀ block ∈ Node.blocksInAll nodes, ReturnStandsLast block) → GroupsReturnLast groups
  | [], _, hemit, _ => by
    cases hemit
    exact .nil
  | .case value body :: rest, _, hemit, hblocks => by
    obtain ⟨hblocksCase, hblocksRest⟩ := List.forall_mem_append.mp hblocks
    obtain ⟨hlast, hblocksBody⟩ := List.forall_mem_cons.mp hblocksCase
    rw [emitCases] at hemit
    split at hemit
    · obtain ⟨form, hform, hemit⟩ := bind_eq_ok_iff.mp hemit
      obtain ⟨groups, hgroups, hemit⟩ := bind_eq_ok_iff.mp hemit
      cases hemit
      exact .default (blockReturnsLast_of_emitBlock body hform hlast hblocksBody)
        (groupsReturnLast_of_emitCases rest hgroups hblocksRest)
    · obtain ⟨label, -, hemit⟩ := bind_eq_ok_iff.mp hemit
      obtain ⟨form, hform, hemit⟩ := bind_eq_ok_iff.mp hemit
      obtain ⟨groups, hgroups, hemit⟩ := bind_eq_ok_iff.mp hemit
      cases hemit
      exact .labelled label (blockReturnsLast_of_emitBlock body hform hlast hblocksBody)
        (groupsReturnLast_of_emitCases rest hgroups hblocksRest)
  | .null :: _, _, hemit, _ | .literal .. :: _, _, hemit, _ | .group .. :: _, _, hemit, _
  | .binary .. :: _, _, hemit, _ | .access .. :: _, _, hemit, _ | .call .. :: _, _, hemit, _
  | .listLiteral .. :: _, _, hemit, _ | .discard .. :: _, _, hemit, _
  | .declaration .. :: _, _, hemit, _ | .assignment .. :: _, _, hemit, _
  | .branch .. :: _, _, hemit, _ | .switch .. :: _, _, hemit, _ | .loop .. :: _, _, hemit, _
  | .ret .. :: _, _, hemit, _ | .global .. :: _, _, hemit, _ | .function .. :: _, _, hemit, _
  | .program .. :: _, _, hemit, _ => by
    -- the emission does not get further than the value of a node that is no case
    obtain ⟨value, -, hemit⟩ := bind_eq_ok_iff.mp hemit
    obtain ⟨initial, -, hemit⟩ := bind_eq_ok_iff.mp hemit
    cases hemit

end

end

/-! ### Programs -/

theorem blockReturnsLast_of_emitFunction {node : Node} {method : Java.Method}
    (hemit : emitFunction node = .ok method)
    (hblocks : ∀ block ∈ node.blocks, ReturnStandsLast block) : BlockReturnsLast method.body := by
  cases node with
  | function name parameters types resultType body signature =>
    obtain ⟨hlast, hblocks⟩ := List.forall_mem_cons.mp hblocks
    obtain ⟨found, -, hemit⟩ := bind_eq_ok_iff.mp hemit
    obtain ⟨forms, hforms, hemit⟩ := bind_eq_ok_iff.mp hemit
    cases hemit
    exact blockReturnsLast_of_emitBlock body hforms hlast hblocks
  | _ => cases hemit

theorem blockReturnsLast_of_emitFunctions {functions : List Node} {methods : List Java.Method}
    (hemit : List.Forall₂ (fun node method => emitFunction node = .ok method) functions methods)
    (hblocks : ∀ block ∈ Node.blocksInAll functions, ReturnStandsLast block) :
    ∀ method ∈ methods, BlockReturnsLast method.body := by
  induction hemit with
  | nil => exact fun _ hmem => absurd hmem List.not_mem_nil
  | cons hmethod _ ih =>
    obtain ⟨hblocksFirst, hblocksRest⟩ := List.forall_mem_append.mp hblocks
    exact List.forall_mem_cons.mpr
      ⟨blockReturnsLast_of_emitFunction hmethod hblocksFirst, ih hblocksRest⟩

theorem blockReturnsLast_of_emitProgram {program : Node} {java : Java.Program}
    (hemit : emitProgram program = .ok java)
    (hblocks : ∀ block ∈ program.blocks, ReturnStandsLast block) :
    ∀ method ∈ java.methods, BlockReturnsLast method.body := by
  cases program with
  | program globals functions =>
    obtain ⟨fields, -, hemit⟩ := bind_eq_ok_iff.mp hemit
    obtain ⟨entry, -, hemit⟩ := bind_eq_ok_iff.mp hemit
    obtain ⟨methods, hmethods, hemit⟩ := bind_eq_ok_iff.mp hemit
    cases hemit
    exact blockReturnsLast_of_emitFunctions (mapM_eq_ok_iff.mp hmethods) hblocks
  | _ => cases hemit

section

variable {source : String} {program annotated : Node} {tables : Tables}

/-- If no statement of an accepted program follows a return in its block, then in the generated text
no line follows a return in the same braces or in the same group of a switch, but for one: in a
group of a case with a value, a break follows, and nothing follows the break. -/
theorem returns_end_their_blocks (hparse : parseProgram source = .ok program)
    (hcheck : (checkProgram .initial program).Yields (annotated, tables))
    (hlast : ∀ block ∈ program.blocks, ReturnStandsLast block) :
    ∃ java depths, emitProgram annotated = .ok java ∧ compile source = .ok java.text ∧
      Java.splitLines java.text = java.lines ∧
      Java.outline? [] java.lines = some (depths, []) ∧
      ∀ before line between other after,
        java.lines.zip depths = before ++ line :: (between ++ other :: after) →
        Java.isReturn line.1 = true → InOneBlock line between other →
          between = [] ∧ Java.isBreak other.1 = true ∧ InCase before line.2 := by
  obtain ⟨java, hjava, hcompile, hproper⟩ := exists_proper_of_accepted hparse hcheck
  obtain ⟨depths, houtline, hindented⟩ := hproper.outlines_lines
  obtain ⟨tokens, htokens, hgrammar⟩ := Parser.exists_program_of_parseProgram hparse
  have herase : annotated.erase = program := by
    have houtcome := ((Judgement.decides_program hgrammar htokens).sound hcheck.1).2
    rwa [hcheck.2] at houtcome
  have hblocks : ∀ block ∈ annotated.blocks, ReturnStandsLast block := by
    rw [← herase, Node.blocks_erase, List.forall_mem_map] at hlast
    exact fun block hmem => (hlast block hmem).of_eraseAll
  have hsettles := hproper.settles_lines (blockReturnsLast_of_emitProgram hjava hblocks)
  exact ⟨java, depths, hjava, hcompile, hproper.splitLines_text, houtline,
    fun _ _ _ _ _ => hsettles.follows_return hindented⟩

end

/-! ### Groups that end with a return -/

/-- A program that returns from both groups of a switch. -/
def choiceSource : String :=
  "FUN f(c: Integer): Integer DO SWITCH c CASE 1: RETURN 1; DEFAULT: RETURN 2; END END"

/-- The tree of the program. -/
def choiceTree : Node :=
  .program []
    [.function "f" ["c"] [some "Integer"] (some "Integer")
      [.switch (.access "c" .null none none)
        [.case (.literal (.integer 1) none) [.ret (.literal (.integer 1) none)],
          .case .null [.ret (.literal (.integer 2) none)]]] none]

theorem parseProgram_choiceSource : parseProgram choiceSource = .ok choiceTree := by
  cbv

theorem yields_choiceTree :
    (checkProgram .initial choiceTree).Yields (checkProgram .initial choiceTree).result := by
  have hfault : (checkProgram .initial choiceTree).fault = none := by
    cbv
  exact ⟨hfault, rfl⟩

/-- Its blocks have one statement each. -/
theorem returnStandsLast_choiceTree : ∀ block ∈ choiceTree.blocks, ReturnStandsLast block := by
  have hsingle : ∀ block ∈ choiceTree.blocks, ∃ node, block = [node] := by
    simp [choiceTree, Node.blocks, Node.blocksInAll]
  intro block hmem
  obtain ⟨node, rfl⟩ := hsingle block hmem
  exact .singleton node

theorem returns_end_their_blocks_choiceTree :
    parseProgram choiceSource = .ok choiceTree ∧
      (checkProgram .initial choiceTree).Yields (checkProgram .initial choiceTree).result ∧
      (∀ block ∈ choiceTree.blocks, ReturnStandsLast block) ∧
      ∃ (java : Java.Program) (depths : List Nat), compile choiceSource = .ok java.text ∧
        Java.outline? [] java.lines = some (depths, []) ∧
        ∀ before line between other after,
          java.lines.zip depths = before ++ line :: (between ++ other :: after) →
          Java.isReturn line.1 = true → InOneBlock line between other →
            between = [] ∧ Java.isBreak other.1 = true ∧ InCase before line.2 := by
  obtain ⟨java, depths, -, hcompile, -, houtline, hreturns⟩ := returns_end_their_blocks
    parseProgram_choiceSource yields_choiceTree.parts returnStandsLast_choiceTree
  exact ⟨parseProgram_choiceSource, yields_choiceTree, returnStandsLast_choiceTree, java, depths,
    hcompile, houtline, hreturns⟩

/-- The Java form of the program. -/
def choiceJava : Java.Program where
  fields := []
  entry := none
  methods := [{
    result := "int"
    name := "f"
    parameters := [("int", "c")]
    body := [.switch (.name "c")
      [(some (.literal (.integer 1)), [.exit (some (.literal (.integer 1))), .breakOut]),
        (none, [.exit (some (.literal (.integer 2)))])]] }]

/-- The lines of its text. -/
def choiceLines : List String :=
  ["public class Main \x7b", "", "    int f(int c) \x7b", "        switch (c) \x7b",
    "            case 1:", "                return 1;", "                break;",
    "            default:", "                return 2;", "        \x7d", "    \x7d", "", "\x7d"]

/-- How deep the lines are. -/
def choiceDepths : List Nat :=
  [0, 1, 1, 2, 3, 4, 4, 3, 4, 2, 1, 1, 0]

theorem compile_choiceSource : compile choiceSource = .ok ("\n".intercalate choiceLines) := by
  have hjava : emitProgram (checkProgram .initial choiceTree).result.1 = .ok choiceJava := by
    cbv
  have hlines : choiceJava.lines = choiceLines := rfl
  rw [compile_eq parseProgram_choiceSource, yields_choiceTree.1]
  simp only [hjava, Java.Program.text, hlines]

theorem outline?_choiceLines : Java.outline? [] choiceLines = some (choiceDepths, []) :=
  rfl

/-- Behind the return of the first group stands a break. -/
theorem break_follows_return :
    parseProgram choiceSource = .ok choiceTree ∧
      (checkProgram .initial choiceTree).fault = none ∧
      (∀ block ∈ choiceTree.blocks, ReturnStandsLast block) ∧
      compile choiceSource = .ok ("\n".intercalate choiceLines) ∧
      Java.splitLines ("\n".intercalate choiceLines) = choiceLines ∧
      Java.outline? [] choiceLines = some (choiceDepths, []) ∧
      ∃ before line other after,
        choiceLines.zip choiceDepths = before ++ line :: ([] ++ other :: after) ∧
        Java.isReturn line.1 = true ∧ InOneBlock line [] other ∧ Java.isBreak other.1 = true := by
  have hends := Java.ne_lineEnd_of_outline? outline?_choiceLines
  have hsplit := Java.splitLines_intercalate (fun line hmem c hc => (hends line hmem c hc).1) nofun
  exact ⟨parseProgram_choiceSource, yields_choiceTree.1, returnStandsLast_choiceTree,
    compile_choiceSource, hsplit, outline?_choiceLines, (choiceLines.zip choiceDepths).take 5,
    ("                return 1;", 4), ("                break;", 4),
    (choiceLines.zip choiceDepths).drop 7, rfl, rfl, ⟨rfl, nofun⟩, rfl⟩

end BlockScript
