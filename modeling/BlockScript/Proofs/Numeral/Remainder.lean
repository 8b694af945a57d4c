import BlockScript.Proofs.Layout
import BlockScript.Proofs.Numeral.Gives
import BlockScript.Proofs.Numeral.Truncation
/-!
# Programs that compute remainders

A program gets at the remainder of two integers by taking the multiple of the divisor away from the
dividend. Where two expressions have integers as their values and change nothing, `x - x / y * y`
has the remainder of the integers as its value: division and multiplication are of one tier and
grouped to the left, and both are tighter than subtraction.

## Main definitions

* `Node.remainder` — the tree of a dividend without the multiple of a divisor
* `remainderSource`, `remainderProgram` — the text of a program that takes the remainder of two
  numerals, and its tree

## Main results

* `evaluate_remainder` — what the expression evaluates to
* `parseProgram_remainderSource`, `yields_remainderProgram`, `runProgram_remainder` — the program is
  parsed, accepted and run
* `integer_division_truncates` — quotients and remainders of integers
-/

namespace BlockScript

open BlockScript.Parser (expression_of_primary)
open Run

/-! ### The value of the expression -/

/-- What is left of a dividend without the multiple of a divisor. -/
def Node.remainder (left right : Node) (type : Option Ty) : Node :=
  .binary "-" left (.binary "*" (.binary "/" left right type) right type) type

section

variable {fuel : Nat} {locals : DynamicChain} {world : World} {left right : Node}
  {type : Option Ty} {a b : ℤ}

theorem applySymbol_divide (hb : b ≠ 0) :
    applySymbol "/" (.scalar (.integer a)) (.scalar (.integer b)) =
      .ok (.integer (divideInteger a b)) :=
  if_neg hb

/-- The value of a dividend without the multiple of a divisor. The operands are met at several
depths, so they have to give their values for all greater amounts of fuel. -/
theorem gives_remainder (hb : b ≠ 0)
    (hleft : ∀ more, Gives world (evaluate (fuel + more) locals left) (.scalar (.integer a)))
    (hright : ∀ more, Gives world (evaluate (fuel + more) locals right) (.scalar (.integer b))) :
    Gives world (evaluate (fuel + 3) locals (.remainder left right type))
      (.scalar (.integer (a - divideInteger a b * b))) := by
  have hquotient : Gives world (evaluate (fuel + 1) locals (.binary "/" left right type))
      (.scalar (.integer (divideInteger a b))) :=
    gives_binary (by decide) (by decide) (hleft 0) (hright 0) (applySymbol_divide hb)
  have hmultiple : Gives world
      (evaluate (fuel + 2) locals (.binary "*" (.binary "/" left right type) right type))
        (.scalar (.integer (divideInteger a b * b))) :=
    gives_binary (by decide) (by decide) hquotient (hright 1) rfl
  exact gives_binary (by decide) (by decide) (hleft 2) hmultiple rfl

/-- The value of the expression with variables that hold integers. -/
theorem gives_remainder_access {name name' : String} {slot slot' : Slot}
    {binding binding' : Option Binding} (hb : b ≠ 0)
    (hfind : (locals ++ world.outerChain).lookupVariable name = .ok slot)
    (hfind' : (locals ++ world.outerChain).lookupVariable name' = .ok slot')
    (hvalue : slot.value = .scalar (.integer a)) (hvalue' : slot'.value = .scalar (.integer b)) :
    Gives world
      (evaluate (fuel + 4) locals
        (.remainder (.access name .null type binding) (.access name' .null type binding') type))
      (.scalar (.integer (a - divideInteger a b * b))) := by
  refine gives_remainder hb (fun more => ?_) fun more => ?_
  · rw [Nat.add_right_comm, ← hvalue]
    exact gives_access hfind
  · rw [Nat.add_right_comm, ← hvalue']
    exact gives_access hfind'

end

/-! ### The text and the tree of the program -/

/-- The text of the function that computes remainders. -/
def modSource : String :=
  "FUN mod(a: Integer, b: Integer): Integer DO\n    RETURN a - a / b * b;\nEND"

/-- The text of a function that calls it with two numerals. -/
def mainSource (a b : ℤ) : String :=
  "FUN main(): Integer DO\n    RETURN mod(" ++ " " ++
    (toString a ++ " " ++ ("," ++ " " ++ (toString b ++ " " ++ ");\nEND")))

/-- The text of the whole program. -/
def remainderSource (a b : ℤ) : String :=
  modSource ++ "\n\n" ++ mainSource a b

/-- The body of the function, with its annotations. -/
def modBody (type : Option Ty) (first second : Option Binding) : List Node :=
  [.ret (.remainder (.access "a" .null type first) (.access "b" .null type second) type)]

/-- The function that computes remainders, with its annotations. -/
def modFunction (type : Option Ty) (first second : Option Binding)
    (signature : Option Signature) : Node :=
  .function "mod" ["a", "b"] [some "Integer", some "Integer"] (some "Integer")
    (modBody type first second) signature

/-- The body of the function that calls it, with its annotations. -/
def mainBody (a b : ℤ) (type : Option Ty) (callee : Option Signature) : List Node :=
  [.ret (.call "mod" [.literal (.integer a) type, .literal (.integer b) type] type callee)]

/-- The function that calls it, with its annotations. -/
def mainFunction (a b : ℤ) (type : Option Ty) (callee signature : Option Signature) : Node :=
  .function "main" [] [] (some "Integer") (mainBody a b type callee) signature

/-- The tree of the program. -/
def remainderProgram (a b : ℤ) : Node :=
  .program [] [modFunction none none none none, mainFunction a b none none none]

/-- The tree of the program with what the analysis finds out. -/
def remainderAnnotated (a b : ℤ) : Node :=
  let binding (number : Nat) (name : String) : Binding :=
    { number, name, type := some .integer, mutable := true, isList := false }
  let signature : Signature :=
    { name := "mod", javaName := "mod", parameters := [.integer, .integer], result := .integer }
  .program []
    [modFunction (some .integer) (some (binding 1 "a")) (some (binding 2 "b")) (some signature),
      mainFunction a b (some .integer) (some signature)
        (some { name := "main", javaName := "main", parameters := [], result := .integer })]

/-! ### Parsing -/

/-- The token of a numeral. -/
def numeral (n : Int) : Token :=
  ⟨.integer, toString n, 0⟩

/-- A numeral is a token: it has no point, so it is no decimal. -/
theorem lexed_numeral (n : Int) : (numeral n).Lexed := by
  have hword := toList_toString n
  have hmem : (toString n).toList ∈ Terminal.language .integer :=
    Terminal.mem_integer.mpr ⟨_, _, isSign_of_lt_zero n, areDigits_toDigits _, hword⟩
  have hpoint : '.' ∉ (toString n).toList := by
    rw [hword, List.mem_append, not_or]
    refine ⟨?_, fun hdigit => absurd ((areDigits_toDigits n.natAbs).2 _ hdigit) (by decide)⟩
    split <;> simp
  refine Terminal.tokenAt?_eq_some_iff.mpr ⟨(toString n).toList, ⟨⟨hmem, List.prefix_rfl,
    fun other _ hother => hother.length_le⟩, fun other hmatches hne => ?_⟩, String.length_toList⟩
  -- decimals are the only words that are tried before integers
  cases other with
  | integer => exact absurd rfl hne
  | identifier | character | string | operator => exact Nat.lt_of_sub_eq_succ rfl
  | decimal =>
    obtain ⟨word, hdecimal, hbegins⟩ := hmatches
    obtain ⟨whole, fraction, -, -, rfl⟩ := Terminal.mem_decimal.mp hdecimal
    exact absurd (List.IsPrefix.subset hbegins (by simp)) hpoint

theorem hasSpelling_numeral (n : Int) : HasSpelling (toString n) [(numeral n).spelling] :=
  ⟨_, (lexed_numeral n).tokenize_eq, rfl⟩

/-- The tokens of the function that calls the other one, as if they all were the first. -/
def mainTokens (a b : ℤ) : List Token :=
  [⟨.identifier, "FUN", 0⟩, ⟨.identifier, "main", 0⟩, ⟨.operator, "(", 0⟩, ⟨.operator, ")", 0⟩,
    ⟨.operator, ":", 0⟩, ⟨.identifier, "Integer", 0⟩, ⟨.identifier, "DO", 0⟩,
    ⟨.identifier, "RETURN", 0⟩, ⟨.identifier, "mod", 0⟩, ⟨.operator, "(", 0⟩, numeral a,
    ⟨.operator, ",", 0⟩, numeral b, ⟨.operator, ")", 0⟩, ⟨.operator, ";", 0⟩,
    ⟨.identifier, "END", 0⟩]

/-- The numerals are read for themselves, and the pieces around them do not depend on them. -/
theorem hasSpelling_mainSource (a b : ℤ) :
    HasSpelling (mainSource a b) ((mainTokens a b).map Token.spelling) := by
  have hopening : HasSpelling "FUN main(): Integer DO\n    RETURN mod("
      (((mainTokens a b).take 10).map Token.spelling) := hasSpelling_iff.mpr (by cbv)
  have hcomma : HasSpelling "," [(.operator, ",")] := hasSpelling_iff.mpr (by cbv)
  have hclosing : HasSpelling ");\nEND" (((mainTokens a b).drop 13).map Token.spelling) :=
    hasSpelling_iff.mpr (by cbv)
  -- the pieces are read one after the other, with a blank between each two
  have hblank : IsBlank " " := by decide
  have hgap : " " ≠ "" := by decide
  exact hopening.append hgap hblank <| (hasSpelling_numeral a).append hgap hblank <|
    hcomma.append hgap hblank <| (hasSpelling_numeral b).append hgap hblank hclosing

theorem literal_numeral (n : Int) : Grammar.Literal (numeral n) (.integer n) :=
  .integer rfl (integerOfText?_toString n)

theorem function_mainTokens (a b : ℤ) :
    Grammar.Function (mainTokens a b) (mainFunction a b none none none) := by
  have hvalue : Grammar.Expression .logical
      [⟨.identifier, "mod", 0⟩, ⟨.operator, "(", 0⟩, numeral a, ⟨.operator, ",", 0⟩, numeral b,
        ⟨.operator, ")", 0⟩]
      (.call "mod" [.literal (.integer a) none, .literal (.integer b) none] none none) :=
    expression_of_primary (.call rfl ⟨rfl, rfl⟩
      (.some (.cons (expression_of_primary (.literal (literal_numeral a)) _) ⟨rfl, rfl⟩
        (.one (expression_of_primary (.literal (literal_numeral b)) _)))) ⟨rfl, rfl⟩) _
  have hbody : Grammar.Block
      [⟨.identifier, "RETURN", 0⟩, ⟨.identifier, "mod", 0⟩, ⟨.operator, "(", 0⟩, numeral a,
        ⟨.operator, ",", 0⟩, numeral b, ⟨.operator, ")", 0⟩, ⟨.operator, ";", 0⟩]
      (mainBody a b none none) :=
    .cons (.ret ⟨rfl, rfl⟩ hvalue ⟨rfl, rfl⟩) .nil
  exact .mk ⟨rfl, rfl⟩ rfl ⟨rfl, rfl⟩ (.inl ⟨rfl, rfl⟩) ⟨rfl, rfl⟩ (.present ⟨rfl, rfl⟩ rfl)
    ⟨rfl, rfl⟩ hbody ⟨rfl, rfl⟩

theorem parseProgram_modSource :
    parseProgram modSource = .ok (.program [] [modFunction none none none none]) := by
  cbv

theorem parseProgram_remainderSource (a b : ℤ) :
    parseProgram (remainderSource a b) = .ok (remainderProgram a b) := by
  obtain ⟨tokens, htokens, hmod⟩ := Parser.exists_tokens_of_parseProgram parseProgram_modSource
  have hsource : HasSpelling (remainderSource a b)
      ((tokens ++ mainTokens a b).map Token.spelling) := by
    rw [List.map_append]
    exact HasSpelling.append ⟨tokens, htokens, rfl⟩ (by decide) (by decide)
      (hasSpelling_mainSource a b)
  refine hsource.parseProgram_eq ?_
  -- the tokens of the first text are one function, and the other one comes behind it
  obtain @⟨_, _, _, _, hglobals, hfunctions⟩ := hmod
  cases hglobals
  cases hfunctions with
  | cons hfirst hnone =>
    cases hnone
    have hprogram := Grammar.Program.mk .nil (.cons hfirst (.cons (function_mainTokens a b) .nil))
    simpa [remainderProgram] using hprogram

/-! ### Analysis and evaluation -/

theorem yields_remainderProgram (a b : ℤ) :
    ∃ tables, (checkProgram .initial (remainderProgram a b)).Yields
      (remainderAnnotated a b, tables) := by
  have hfault : (checkProgram .initial (remainderProgram a b)).fault = none := by
    cbv
  have htree : (checkProgram .initial (remainderProgram a b)).result.1 =
      remainderAnnotated a b := by
    cbv
  generalize checkProgram .initial (remainderProgram a b) = checked at hfault htree ⊢
  exact ⟨checked.result.2, hfault, Prod.ext htree rfl⟩

section

variable {fuel : Nat} {world : World} {a b : ℤ} {type : Option Ty} {first second : Option Binding}
  {callee signature : Option Signature}

/-- A call of the function that computes remainders. -/
theorem gives_invoke_mod (hb : b ≠ 0) :
    Gives world
      (invoke (fuel + 7) (.defined "mod" ["a", "b"] (modBody type first second))
        [.scalar (.integer a), .scalar (.integer b)])
      (.scalar (.integer (a - divideInteger a b * b))) := by
  -- the arguments are the variables of the frame of the call
  let locals : DynamicChain :=
    [{ vars := [("a", { value := .scalar (.integer a), mutable := true }),
      ("b", { value := .scalar (.integer b), mutable := true })] }]
  have hbind : Gives world (bindParameters ["a", "b"] [.scalar (.integer a), .scalar (.integer b)]
      [{}]) locals := gives_pure world locals
  exact gives_invoke rfl hbind (gives_return (gives_remainder_access hb rfl rfl rfl rfl))

/-- The state with the functions of the program. -/
def remainderWorld (a b : ℤ) (type : Option Ty) (first second : Option Binding)
    (callee : Option Signature) (verbosity : Int) : World :=
  { World.initial verbosity with
    top :=
      { funs := [(("mod", 2), .defined "mod" ["a", "b"] (modBody type first second)),
          (("main", 0), .defined "main" [] (mainBody a b type callee))] } }

variable {verbosity : Int}

theorem leads_forM_defineFunction :
    Leads (.initial verbosity)
      ([modFunction type first second callee, mainFunction a b type callee signature].forM
        defineFunction) ()
      (remainderWorld a b type first second callee verbosity) := by
  let middle : World :=
    { World.initial verbosity with
      top := { funs := [(("mod", 2), .defined "mod" ["a", "b"] (modBody type first second))] } }
  have hmod : Leads (.initial verbosity)
      (defineFunction (modFunction type first second callee)) () middle :=
    leads_defineFunction rfl
  have hmain : Leads middle (defineFunction (mainFunction a b type callee signature)) ()
      (remainderWorld a b type first second callee verbosity) := leads_defineFunction rfl
  exact hmod.bind (hmain.bind (gives_pure _ ()))

/-- The function without parameters calls the other one with its numerals. -/
theorem gives_callByName_main (hb : b ≠ 0) :
    Gives (remainderWorld a b type first second callee verbosity)
      (callByName (fuel + 11) "main" 0 []) (.scalar (.integer (a - divideInteger a b * b))) := by
  obtain ⟨world, hworld⟩ : ∃ world, world =
      remainderWorld a b type first second callee verbosity := ⟨_, rfl⟩
  rw [← hworld]
  have hmain : Chain.lookupFunction ([] ++ world.outerChain) "main" 0 =
      .ok (.defined "main" [] (mainBody a b type callee)) := by
    rw [hworld]
    rfl
  have hmod : Chain.lookupFunction (([{}] : DynamicChain) ++ world.outerChain) "mod" 2 =
      .ok (.defined "mod" ["a", "b"] (modBody type first second)) := by
    rw [hworld]
    rfl
  have hvalues : Gives world
      (evaluateAll (fuel + 7) [{}] [.literal (.integer a) type, .literal (.integer b) type])
      [.scalar (.integer a), .scalar (.integer b)] := gives_pure world _
  have hcall : Gives world (evaluate (fuel + 8) [{}]
      (.call "mod" [.literal (.integer a) type, .literal (.integer b) type] type callee))
      (.scalar (.integer (a - divideInteger a b * b))) :=
    gives_call hvalues hmod (gives_invoke_mod hb)
  have hframe : Gives world (bindParameters [] [] [{}]) [{}] := gives_pure world _
  exact (gives_findFunction hmain).bind (gives_invoke rfl hframe (gives_return hcall))

end

/-- The run of the program gives the remainder of the two numerals. -/
theorem runProgram_remainder {b : ℤ} (a : ℤ) (hb : b ≠ 0) (verbosity : Int) (fuel : Nat) :
    ∃ after, runProgram (fuel + 11) (remainderAnnotated a b) (.initial verbosity) =
      .ok (.scalar (.integer (a - divideInteger a b * b))) after := by
  obtain ⟨transcript, hrun⟩ :=
    (leads_runProgram leads_forM_defineFunction (gives_callByName_main hb)).exists_eq
  exact ⟨_, hrun⟩

theorem parseExpression_remainder :
    parseExpression "a - a / b * b" =
      .ok (.remainder (.access "a" .null none none) (.access "b" .null none none) none, 7) := by
  cbv

/-- Division of integers rounds toward zero: what it leaves of the dividend is smaller than the
divisor and has the sign of the dividend, if it is not zero, and there is one quotient only that
leaves such a remainder. So the quotient changes its sign with each of the operands. In every state
in which `a` and `b` hold the integers, the expression `a - a / b * b` is parsed and evaluated to
the remainder, and a program that calls a function with this expression for two numerals is parsed,
accepted and run with this result. -/
theorem integer_division_truncates (a b : ℤ) (hb : b ≠ 0) :
    applySymbol "/" (.scalar (.integer a)) (.scalar (.integer b)) =
      .ok (.integer (divideInteger a b)) ∧
    IsRemainder a b (a - divideInteger a b * b) ∧
    (∀ q r, a = q * b + r → IsRemainder a b r →
      q = divideInteger a b ∧ r = a - divideInteger a b * b) ∧
    divideInteger (-a) b = -divideInteger a b ∧ divideInteger a (-b) = -divideInteger a b ∧
    (∃ tree, parseExpression "a - a / b * b" = .ok (tree, 7) ∧
      ∀ locals world slot slot' fuel,
        (locals ++ world.outerChain).lookupVariable "a" = .ok slot →
        (locals ++ world.outerChain).lookupVariable "b" = .ok slot' →
        slot.value = .scalar (.integer a) → slot'.value = .scalar (.integer b) →
        ∃ transcript, evaluate (fuel + 4) locals tree world =
          .ok (.scalar (.integer (a - divideInteger a b * b))) { world with transcript }) ∧
    ∃ tree annotated tables, parseProgram (remainderSource a b) = .ok tree ∧
      (checkProgram .initial tree).Yields (annotated, tables) ∧
      ∀ verbosity fuel, ∃ after, runProgram (fuel + 11) annotated (.initial verbosity) =
        .ok (.scalar (.integer (a - divideInteger a b * b))) after := by
  have hremainder := isRemainder_divideInteger a hb
  refine ⟨applySymbol_divide hb, hremainder, fun q r hq hr => ?_, ?_, ?_, ?_, ?_⟩
  · exact hr.unique hremainder hq (by ring)
  · rw [divideInteger_eq_tdiv, divideInteger_eq_tdiv, Int.neg_tdiv]
  · rw [divideInteger_eq_tdiv, divideInteger_eq_tdiv, Int.tdiv_neg]
  · refine ⟨_, parseExpression_remainder, ?_⟩
    intro locals world slot slot' fuel hfind hfind' hvalue hvalue'
    exact (gives_remainder_access hb hfind hfind' hvalue hvalue').exists_eq
  · obtain ⟨tables, hyields⟩ := yields_remainderProgram a b
    exact ⟨_, _, tables, parseProgram_remainderSource a b, hyields, runProgram_remainder a hb⟩

/-- A negative dividend: the quotient is rounded up to -3, and -1 is left. -/
theorem integer_division_truncates_negative :
    divideInteger (-7) 2 = -3 ∧ IsRemainder (-7) 2 (-1) ∧
      ∃ tree annotated tables, parseProgram (remainderSource (-7) 2) = .ok tree ∧
        (checkProgram .initial tree).Yields (annotated, tables) ∧
        ∃ after, runProgram 11 annotated (.initial 0) = .ok (.scalar (.integer (-1))) after := by
  have hquotient : divideInteger (-7) 2 = -3 := by decide
  obtain ⟨-, hremainder, -, -, -, -, tree, annotated, tables, hparse, hyields, hrun⟩ :=
    integer_division_truncates (-7) 2 (by decide)
  rw [hquotient] at hremainder hrun
  exact ⟨hquotient, hremainder, tree, annotated, tables, hparse, hyields, hrun 0 0⟩

end BlockScript
