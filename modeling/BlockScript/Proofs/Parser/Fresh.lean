import BlockScript.Proofs.Json.Tree
import BlockScript.Proofs.Parser.Derivation
/-!
# Parsed trees are fresh

The tree of a source text has no annotations, and its decimals are in range: their digits may have
been rounded, but none of them overflows, because source texts have no powers of ten. So the tree is
like one that has been read from JSON.

## Main results

* `isFresh_of_parseProgram` — the tree of a source text is fresh
-/

namespace BlockScript

open Grammar
open BlockScript.Parser (AllLexed Tier)

/-- The value of a token is in range. -/
theorem Grammar.Literal.inRange {token : Token} {value : Scalar} (h : Literal token value)
    (htoken : token.Lexed) : value.InRange := by
  cases h with
  | decimal hkind hvalue =>
    obtain ⟨value, hvalue', hexponent⟩ := htoken.exists_decimal hkind
    cases hvalue.symm.trans hvalue'
    exact Decimal.inRange_rounded
      (Decimal.overflows_of_exponent_nonpos (Int.le_of_lt hexponent))
  | _ => trivial

mutual

theorem Grammar.Expression.isFresh : ∀ {t : Tier} {used : List Token} {node : Node},
    Expression t used node → AllLexed used → node.IsFresh
  | _, _, _, .operand h, hused => h.isFresh hused
  | _, _, _, .binary hleft _ _ hright, hused =>
    Node.isFresh_binary.mpr ⟨hleft.isFresh hused.left, hright.isFresh hused.right.tail⟩

theorem Grammar.Operand.isFresh : ∀ {t : Tier} {used : List Token} {node : Node},
    Operand t used node → AllLexed used → node.IsFresh
  | _, _, _, .tighter _ h, hused => h.isFresh hused
  | _, _, _, .primary _ h, hused => h.isFresh hused

theorem Grammar.Primary.isFresh : ∀ {used : List Token} {node : Node},
    Primary used node → AllLexed used → node.IsFresh
  | _, _, .literal h, hused => Node.isFresh_literal.mpr (h.inRange hused.head)
  | _, _, .group _ h _, hused => Node.isFresh_group.mpr (h.isFresh hused.tail.left)
  | _, _, .variable _, _ => Node.isFresh_access.mpr Node.isFresh_null
  | _, _, .element _ _ h _, hused => Node.isFresh_access.mpr (h.isFresh hused.tail.tail.left)
  | _, _, .call _ _ h _, hused => Node.isFresh_call.mpr (h.allFresh hused.tail.tail.left)

theorem Grammar.Arguments.allFresh : ∀ {used : List Token} {nodes : List Node},
    Arguments used nodes → AllLexed used → Node.AllFresh nodes
  | _, _, .none, _ => Node.allFresh_nil
  | _, _, .some h, hused => h.allFresh hused

theorem Grammar.Expressions.allFresh : ∀ {used : List Token} {nodes : List Node},
    Expressions used nodes → AllLexed used → Node.AllFresh nodes
  | _, _, .one h, hused => Node.allFresh_cons.mpr ⟨h.isFresh hused, Node.allFresh_nil⟩
  | _, _, .cons h _ hrest, hused =>
    Node.allFresh_cons.mpr ⟨h.isFresh hused.left, hrest.allFresh hused.right.tail⟩

end

theorem Grammar.Initial.isFresh {used : List Token} {value : Node} (h : Initial used value)
    (hused : AllLexed used) : value.IsFresh := by
  cases h with
  | absent => exact Node.isFresh_null
  | present _ h => exact h.isFresh hused.tail

mutual

theorem Grammar.Statement.isFresh : ∀ {used : List Token} {node : Node},
    Statement used node → AllLexed used → node.IsFresh
  | _, _, .declaration _ _ _ h _, hused =>
    Node.isFresh_declaration.mpr (h.isFresh hused.tail.tail.right.left)
  | _, _, .switch _ h hcases _ _ hbody _, hused =>
    Node.isFresh_switch.mpr ⟨h.isFresh hused.tail.left, Node.allFresh_append.mpr
      ⟨hcases.allFresh hused.tail.right.left, Node.allFresh_cons.mpr
        ⟨Node.isFresh_case.mpr ⟨Node.isFresh_null,
          hbody.allFresh hused.tail.right.right.tail.right.left⟩, Node.allFresh_nil⟩⟩⟩
  | _, _, .branch _ h _ hthen _, hused =>
    Node.isFresh_branch.mpr ⟨h.isFresh hused.tail.left,
      hthen.allFresh hused.tail.right.tail.left, Node.allFresh_nil⟩
  | _, _, .branchElse _ h _ hthen _ helse _, hused =>
    Node.isFresh_branch.mpr ⟨h.isFresh hused.tail.left,
      hthen.allFresh hused.tail.right.tail.left,
      helse.allFresh hused.tail.right.tail.right.tail.left⟩
  | _, _, .loop _ h _ hbody _, hused =>
    Node.isFresh_loop.mpr ⟨h.isFresh hused.tail.left, hbody.allFresh hused.tail.right.tail.left⟩
  | _, _, .ret _ h _, hused => Node.isFresh_ret.mpr (h.isFresh hused.tail.left)
  | _, _, .assignment hreceiver _ hvalue _, hused =>
    Node.isFresh_assignment.mpr
      ⟨hreceiver.isFresh hused.left, hvalue.isFresh hused.right.tail.left⟩
  | _, _, .discard h _, hused => Node.isFresh_discard.mpr (h.isFresh hused.left)

theorem Grammar.Block.allFresh : ∀ {used : List Token} {nodes : List Node},
    Block used nodes → AllLexed used → Node.AllFresh nodes
  | _, _, .nil, _ => Node.allFresh_nil
  | _, _, .cons h hrest, hused =>
    Node.allFresh_cons.mpr ⟨h.isFresh hused.left, hrest.allFresh hused.right⟩

theorem Grammar.Cases.allFresh : ∀ {used : List Token} {nodes : List Node},
    Cases used nodes → AllLexed used → Node.AllFresh nodes
  | _, _, .nil, _ => Node.allFresh_nil
  | _, _, .cons _ h _ hbody hrest, hused =>
    Node.allFresh_cons.mpr
      ⟨Node.isFresh_case.mpr ⟨h.isFresh hused.tail.left,
        hbody.allFresh hused.tail.right.tail.left⟩, hrest.allFresh hused.tail.right.tail.right⟩

end

theorem Grammar.Global.isFresh {used : List Token} {node : Node} (h : Global used node)
    (hused : AllLexed used) : node.IsFresh := by
  cases h with
  | list _ _ _ _ _ h _ _ =>
    exact Node.isFresh_global.mpr
      (Node.isFresh_listLiteral.mpr (h.allFresh hused.tail.tail.right.tail.tail.left))
  | mutable _ _ _ h _ => exact Node.isFresh_global.mpr (h.isFresh hused.tail.tail.right.left)
  | constant _ _ _ _ h _ =>
    exact Node.isFresh_global.mpr (h.isFresh hused.tail.tail.right.tail.left)

theorem Grammar.Function.isFresh {used : List Token} {node : Node} (h : Function used node)
    (hused : AllLexed used) : node.IsFresh := by
  cases h with
  | mk _ _ _ _ _ _ _ h _ =>
    exact Node.isFresh_function.mpr
      (h.allFresh hused.tail.tail.tail.right.tail.right.tail.left)

/-- Phrases in a row have fresh trees if each of them has one. -/
theorem Grammar.Many.allFresh {phrase : List Token → Node → Prop} {used : List Token}
    {nodes : List Node} (hphrase : ∀ {used node}, phrase used node → AllLexed used → node.IsFresh)
    (h : Many phrase used nodes) (hused : AllLexed used) : Node.AllFresh nodes := by
  induction h with
  | nil => exact Node.allFresh_nil
  | cons h _ ih => exact Node.allFresh_cons.mpr ⟨hphrase h hused.left, ih hused.right⟩

theorem Grammar.Program.isFresh {used : List Token} {node : Node} (h : Program used node)
    (hused : AllLexed used) : node.IsFresh := by
  cases h with
  | mk hglobals hfunctions =>
    exact Node.isFresh_program.mpr
      ⟨hglobals.allFresh Global.isFresh hused.left, hfunctions.allFresh Function.isFresh hused.right⟩

/-- The tree of a source text is fresh. -/
theorem isFresh_of_parseProgram {source : String} {program : Node}
    (h : parseProgram source = .ok program) : program.IsFresh := by
  obtain ⟨tokens, htokens, hprogram⟩ := Parser.exists_program_of_parseProgram h
  exact hprogram.isFresh htokens

end BlockScript
