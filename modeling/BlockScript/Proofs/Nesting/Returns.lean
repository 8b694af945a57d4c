import BlockScript.Proofs.Nesting.Printed
import BlockScript.Proofs.Nesting.Settled
/-!
# Returns in printed programs

If the returns of a method stand last in their blocks, the line behind a return leaves the block,
except in a labelled group of a switch, where it is the break that every such group ends with.

## Main definitions

* `Java.BlockReturnsLast` — statements with returns at the ends of their blocks

## Main results

* `Java.settles_linesOf` — the lines of a block
* `Java.Program.IsProper.settles_lines` — the lines of a program
-/

namespace BlockScript.Java

/-! ### Trees -/

/-- Whether a statement is a return. -/
def Statement.isExit : Statement → Bool
  | exit _ => true
  | _ => false

mutual

/-- In the blocks of a statement, returns stand last. Labelled groups of a switch end with a break
in addition, and there is no other. -/
inductive Statement.ReturnsLast : Statement → Prop
  | expression (value) : Statement.ReturnsLast (.expression value)
  | localVariable (type name value) : Statement.ReturnsLast (.localVariable type name value)
  | assignment (target value) : Statement.ReturnsLast (.assignment target value)
  | ifElse {thenBody elseBody} (condition) : BlockReturnsLast thenBody →
      BlockReturnsLast elseBody → Statement.ReturnsLast (.ifElse condition thenBody elseBody)
  | switch {groups} (condition) : GroupsReturnLast groups →
      Statement.ReturnsLast (.switch condition groups)
  | whileLoop {body} (condition) : BlockReturnsLast body →
      Statement.ReturnsLast (.whileLoop condition body)
  | exit (value) : Statement.ReturnsLast (.exit value)

/-- In a block and in those inside of it, returns stand last. -/
inductive BlockReturnsLast : List Statement → Prop
  | nil : BlockReturnsLast []
  | cons {statement rest} : Statement.ReturnsLast statement →
      (statement.isExit = true → rest = []) → BlockReturnsLast rest →
      BlockReturnsLast (statement :: rest)

/-- In the groups of a switch, returns stand last. -/
inductive GroupsReturnLast : List (Option Expression × List Statement) → Prop
  | nil : GroupsReturnLast []
  | default {body rest} : BlockReturnsLast body → GroupsReturnLast rest →
      GroupsReturnLast ((none, body) :: rest)
  | labelled {body rest} (label) : BlockReturnsLast body → GroupsReturnLast rest →
      GroupsReturnLast ((some label, body ++ [.breakOut]) :: rest)

end

/-! ### Quiet lines -/

section

variable {text : String} {value : Option Expression}

theorem isWordPart_of_isWord (h : isWord text = true) : ∀ c ∈ text.toList, isWordPart c = true := by
  obtain ⟨c, rest, hchars, hc, hrest⟩ := exists_of_isWord h
  rw [hchars]
  exact List.forall_mem_cons.mpr ⟨((Bool.and_eq_true _ _).mp hc).2, hrest⟩

/-- A text that begins with a name. -/
theorem splits_of_isWord {rest : List Char} {whole : String} (h : isWord text = true)
    (hwhole : whole.toList = text.toList ++ rest)
    (hrest : ∀ c ∈ rest.head?, isWordPart c = false) : Splits whole text.toList rest where
  toList_eq := hwhole
  word := isWordPart_of_isWord h
  rest := hrest
  head?_ne := by
    obtain ⟨c, others, hchars, hc, -⟩ := exists_of_isWord h
    rw [hwhole, hchars]
    exact fun heq => ne_of_class (p := isWordStart) (by decide) hc (Option.some.inj heq)

/-- Whether a text is a name, and not the keyword of a return or a break. -/
def isOtherWord (text : String) : Bool :=
  isWord text && text != "return" && text != "break"

theorem IsTypeName.isOtherWord {type : String} (h : IsTypeName type) : isOtherWord type = true := by
  obtain ⟨ty, rfl⟩ := h
  cases ty <;> decide

/-- A line that begins with another word. -/
theorem Settles.ofWord (first : String) (c : Char) (rest : List Char)
    (h : isOtherWord first = true) (htext : text.toList = first.toList ++ c :: rest)
    (hc : isWordPart c = false) (level : Nat) : Settles level Anything [lineAt level text] := by
  simp only [isOtherWord, Bool.and_eq_true, bne_iff_ne] at h
  obtain ⟨⟨hword, hreturn⟩, hbreak⟩ := h
  have hsplits := splits_of_isWord hword htext (by simpa using hc)
  have hquiet := hsplits.isQuiet_of_word level (fun heq => hreturn (String.toList_injective heq))
    fun heq => hbreak (String.toList_injective heq)
  exact .quiet hquiet (indentation_lineAt hsplits.head?_ne level)

/-- A line that begins with a closing brace. -/
theorem isQuiet_of_brace {rest : List Char} (htext : text.toList = '\x7d' :: rest) (level : Nat) :
    IsQuiet (lineAt level text) := by
  have hsplits : Splits text [] ('\x7d' :: rest) :=
    ⟨htext, fun _ hmem => absurd hmem List.not_mem_nil, by simp; decide, by simp [htext]⟩
  exact hsplits.isQuiet_of_word level (by decide) (by decide)

theorem isQuiet_call {form : Expression} (hcall : form.isCall = true) (h : form.IsLexical)
    (level : Nat) : IsQuiet (lineAt level (form.text ++ ";")) := by
  cases form with
  | call function arguments =>
    have hsplits : Splits ((Expression.call function arguments).text ++ ";") function.toList
        ('(' :: (", ".intercalate (Expression.texts arguments) ++ ");").toList) :=
      splits_of_isWord h.1 (by simp) (by simp; decide)
    exact hsplits.isQuiet_of_rest level (by simp) (by simp)
  | _ => cases hcall

theorem isQuiet_assignment {target : Expression} (hplace : target.isPlace = true)
    (h : target.IsLexical) (value : String) (level : Nat) :
    IsQuiet (lineAt level (target.text ++ " = " ++ value ++ ";")) := by
  cases target with
  | name identifier =>
    have hsplits : Splits (identifier ++ " = " ++ value ++ ";") identifier.toList
        (' ' :: '=' :: ' ' :: (value ++ ";").toList) :=
      splits_of_isWord h (by simp) (by simp; decide)
    exact hsplits.isQuiet_of_rest level (by simp) (by simp)
  | element array index =>
    have hsplits : Splits ((Expression.element array index).text ++ " = " ++ value ++ ";")
        array.toList ('[' :: (index.text ++ "] = " ++ value ++ ";").toList) :=
      splits_of_isWord h.1 (by simp) (by simp; decide)
    exact hsplits.isQuiet_of_rest level (by simp) (by simp)
  | _ => cases hplace

/-- What is declared stands in front of its initial value. -/
theorem exists_withValue (declared : String) (value : Option Expression) :
    ∃ more, withValue declared value = declared ++ more := by
  cases value with
  | none => exact ⟨"", String.append_empty.symm⟩
  | some form => exact ⟨" = " ++ form.text, String.append_assoc⟩

/-- A variable is declared in a line that begins with its type. -/
theorem Settles.declaration {type : String} (h : IsTypeName type) (name : String)
    (value : Option Expression) (level : Nat) :
    Settles level Anything [lineAt level (withValue (type ++ " " ++ name) value ++ ";")] := by
  obtain ⟨more, hmore⟩ := exists_withValue (type ++ " " ++ name) value
  rw [hmore]
  exact .ofWord type ' ' (name ++ more ++ ";").toList h.isOtherWord (by simp) (by decide) level

end

/-! ### Statements -/

section

variable {level : Nat} {text label : String} {lines : List String}

theorem Settles.line (hstart : BeginsWithWord text) (hquiet : IsQuiet (lineAt level text)) :
    Settles level Anything [lineAt level text] :=
  .quiet hquiet (indentation_lineAt hstart.head?_ne_blank level)

theorem leaves_lineAt (hcontent : text.toList.head? ≠ some ' ') (hne : text.toList ≠ [])
    (level : Nat) : Leaves (level + 1) (lineAt level text) := by
  refine ⟨fun hempty => hne ?_, ?_⟩
  · have hchars := toList_lineAt level text
    rw [hempty] at hchars
    exact (List.append_eq_nil_iff.mp hchars.symm).2
  · rw [indentation_lineAt hcontent]
    omega

theorem Leaves.inside {line : String} (h : Leaves level line) : Leaves (level + 1) line :=
  ⟨h.1, Nat.lt_trans h.2 (by omega)⟩

/-- Lines in braces, with the line behind them, which begins with the closing brace. -/
theorem Settles.braced {next : String → Prop} (h : Settles (level + 1) next lines) (text : String)
    (hnext : ∀ line, Leaves (level + 1) line → next line) {rest : List Char}
    (htext : text.toList = '\x7d' :: rest) :
    Settles level Anything (lines ++ [lineAt level text]) := by
  have hcontent : text.toList.head? ≠ some ' ' := by simp [htext]
  have hclosing := Settles.quiet (isQuiet_of_brace htext level) (indentation_lineAt hcontent level)
  refine h.outer.append hclosing (fun line hline => ?_) nofun
  obtain rfl := Option.some.inj hline
  exact hnext _ (leaves_lineAt hcontent (by simp [htext]) level)

/-- A body in braces behind a line that begins with a word. -/
theorem Settles.body {head : String} (first : String) (c : Char) (rest : List Char)
    (h : isOtherWord first = true) (hhead : head.toList = first.toList ++ c :: rest)
    (hc : isWordPart c = false) {body : List Statement}
    (hbody : Settles (level + 1) (Closes (level + 1)) (Statement.linesOf (level + 1) body)) :
    Settles level Anything
      (if body.isEmpty then [lineAt level head ++ "\x7d"]
        else lineAt level head ::
          (Statement.linesOf (level + 1) body ++ [lineAt level "\x7d"])) := by
  cases body with
  | nil =>
    rw [List.isEmpty_nil, if_pos rfl, lineAt_append]
    refine .ofWord first c (rest ++ ['\x7d']) h ?_ hc level
    rw [String.toList_append, hhead, List.append_assoc]
    rfl
  | cons statement others =>
    have hline := Settles.ofWord first c rest h hhead hc level
    exact hline.passes (hbody.braced "\x7d" (fun _ => .inl) rfl)

/-- A labelled group, which ends with a break. -/
theorem Settles.group (h : Settles (level + 1) (Closes (level + 1)) lines)
    (hstart : BeginsWithWord label) (hquiet : IsQuiet (lineAt level label))
    (hcase : isCase (lineAt level label) = true) :
    Settles level (Leaves (level + 1))
      (lineAt level label :: lines ++ [lineAt (level + 1) "break;"]) where
  deep := by
    have hlabel := indentation_lineAt hstart.head?_ne_blank level
    have hbreak : indentation (lineAt (level + 1) "break;") = 4 * (level + 1) :=
      indentation_lineAt (by decide) _
    refine List.forall_mem_append.mpr ⟨List.forall_mem_cons.mpr ⟨?_, h.outer.deep⟩,
      List.forall_mem_singleton.mpr ?_⟩ <;> omega
  isChain rest hrest hchain := by
    have hbreak : indentation (lineAt (level + 1) "break;") = 4 * (level + 1) :=
      indentation_lineAt (by decide) _
    have hsettled : ∀ other ∈ rest.head?, Settled (lineAt (level + 1) "break;") other := by
      intro other hother own hown
      obtain rfl : own = level + 1 := by omega
      refine ⟨fun hreturn => ?_, fun _ => hrest other hother⟩
      rw [isReturn, contentOf_lineAt (by decide)] at hreturn
      exact absurd hreturn (by decide)
    rw [List.append_assoc]
    refine isChain_cons_of_head (fun other _ => hquiet.settled other) ?_
    refine h.isChain _ (fun line hline => ?_) (isChain_cons_of_head hsettled hchain)
    obtain rfl := Option.some.inj hline
    refine .inr ⟨?_, hbreak⟩
    rw [isBreak, contentOf_lineAt (by decide)]
    decide
  breaks := by
    have hlabel := indentation_lineAt hstart.head?_ne_blank level
    have hbreak : indentation (lineAt (level + 1) "break;") = 4 * (level + 1) :=
      indentation_lineAt (by decide) _
    refine h.breaks.group hquiet.2 hcase (by omega) fun other hother => ?_
    rw [hbreak]
    exact h.deep other hother

end

theorem linesOf_append (level : Nat) (statements others : List Statement) :
    Statement.linesOf level (statements ++ others) =
      Statement.linesOf level statements ++ Statement.linesOf level others := by
  induction statements with
  | nil => rfl
  | cons statement rest ih =>
    rw [List.cons_append, Statement.linesOf, Statement.linesOf, ih, List.append_assoc]

/-- The groups of a switch begin with their labels. -/
theorem leaves_of_mem_head?_groupLines (groups : List (Option Expression × List Statement))
    (level : Nat) :
    ∀ line ∈ (Statement.groupLines level groups).head?, Leaves (level + 1) line := by
  match groups with
  | [] => nofun
  | (some label, body) :: rest =>
    rintro _ ⟨⟩
    exact leaves_lineAt (by simp) (by simp) level
  | (none, body) :: rest =>
    rintro _ ⟨⟩
    exact leaves_lineAt (by decide) (by decide) level

/-- What a statement asks of the line behind it. -/
def Statement.Asks (statement : Statement) (level : Nat) (line : String) : Prop :=
  statement.isExit = true → Closes level line

open Statement (AreProper AreProperGroups)

mutual

/-- The lines of a statement are settled, and behind a return the block is over. -/
theorem settles_lines : ∀ {statement : Statement}, statement.ReturnsLast → statement.IsProper →
    ∀ level, Settles level (statement.Asks level) (statement.lines level)
  | _, .expression value, ⟨hcall, hvalue⟩, level => by
    have hstart := (value.beginsWithWord hvalue (by rw [hcall]; rfl)).append ";"
    exact (Settles.line hstart (isQuiet_call hcall hvalue level)).weaken fun _ _ => trivial
  | _, .localVariable type name value, ⟨htype, _, _⟩, level =>
    (Settles.declaration htype name value level).weaken fun _ _ => trivial
  | _, .assignment target value, ⟨hplace, htarget, _⟩, level => by
    have hstart : BeginsWithWord target.text :=
      target.beginsWithWord htarget (by rw [hplace, Bool.or_true])
    have hline := Settles.line (((hstart.append " = ").append value.text).append ";")
      (isQuiet_assignment hplace htarget value.text level)
    exact hline.weaken fun _ _ => trivial
  | _, @Statement.ReturnsLast.ifElse thenBody elseBody condition hthen helse,
      ⟨_, hproperThen, hproperElse⟩, level => by
    have hhead : Settles level Anything
        [lineAt level ("if (" ++ condition.text ++ ") \x7b")] :=
      .ofWord "if" ' ' ('(' :: (condition.text ++ ") \x7b").toList) (by decide) (by simp)
        (by decide) level
    have hbody := settles_linesOf hthen hproperThen (level + 1)
    have hother := settles_linesOf helse hproperElse (level + 1)
    simp only [Statement.lines]
    cases elseBody with
    | nil =>
      have hall := hhead.passes (hbody.braced "\x7d" (fun _ => .inl) rfl)
      have hlines : Settles level ((Statement.ifElse condition thenBody []).Asks level) _ :=
        hall.weaken fun _ _ => trivial
      simpa using hlines
    | cons first rest =>
      have hthen := hhead.passes (hbody.braced "\x7d else \x7b" (fun _ => .inl) rfl)
      have hall := hthen.passes (hother.braced "\x7d" (fun _ => .inl) rfl)
      have hlines :
          Settles level ((Statement.ifElse condition thenBody (first :: rest)).Asks level) _ :=
        hall.weaken fun _ _ => trivial
      simpa using hlines
  | _, @Statement.ReturnsLast.switch groups condition hgroups, ⟨_, hproper⟩, level => by
    have hhead : Settles level Anything
        [lineAt level ("switch (" ++ condition.text ++ ") \x7b")] :=
      .ofWord "switch" ' ' ('(' :: (condition.text ++ ") \x7b").toList) (by decide) (by simp)
        (by decide) level
    have hbody := settles_groupLines hgroups hproper (level + 1)
    have hinside := hbody.braced "\x7d" (fun _ => Leaves.inside) rfl
    exact (hhead.passes hinside).weaken fun _ _ => trivial
  | _, @Statement.ReturnsLast.whileLoop body condition hbody, ⟨_, hproper⟩, level => by
    have hhead : ("while (" ++ condition.text ++ ") \x7b").toList =
        "while".toList ++ ' ' :: '(' :: (condition.text ++ ") \x7b").toList := by simp
    have hlines := Settles.body "while" ' ' _ (by decide) hhead (by decide)
      (settles_linesOf hbody hproper (level + 1))
    exact hlines.weaken fun _ _ => trivial
  | _, .exit none, _, level => by
    have hsplits : Splits "return;" "return".toList [';'] :=
      splits_of_isWord (by decide) rfl (by simp; decide)
    have hline := Settles.exit (hsplits.isBreak_eq_false level (.inl (by decide)))
      (indentation_lineAt hsplits.head?_ne level)
    exact hline.weaken fun _ hasks => hasks rfl
  | _, .exit (some value), _, level => by
    have hsplits : Splits ("return " ++ value.text ++ ";") "return".toList
        (' ' :: (value.text ++ ";").toList) :=
      splits_of_isWord (by decide) (by simp) (by simp; decide)
    have hline := Settles.exit (hsplits.isBreak_eq_false level (.inl (by decide)))
      (indentation_lineAt hsplits.head?_ne level)
    exact hline.weaken fun _ hasks => hasks rfl

/-- The lines of a block are settled if its end is behind them. -/
theorem settles_linesOf : ∀ {statements : List Statement}, BlockReturnsLast statements →
    AreProper statements → ∀ level,
    Settles level (Closes level) (Statement.linesOf level statements)
  | _, .nil, _, level => .nil level _
  | _, .cons h hlast hrest, ⟨hproper, hproperRest⟩, level => by
    refine (settles_lines h hproper level).append (settles_linesOf hrest hproperRest level) ?_
      fun _ _ hcloses _ => hcloses
    intro line hline hexit
    rw [hlast hexit] at hline
    cases hline

theorem settles_groupLines : ∀ {groups : List (Option Expression × List Statement)},
    GroupsReturnLast groups → AreProperGroups groups → ∀ level,
    Settles level (Leaves (level + 1)) (Statement.groupLines level groups)
  | _, .nil, _, level => .nil level _
  | _, .default hbody hrest, ⟨_, hproper, hproperRest⟩, level => by
    have hlabel : Settles level Anything [lineAt level "default:"] :=
      .ofWord "default" ':' [] (by decide) rfl (by decide) level
    have hgroup := (settles_linesOf hbody hproper (level + 1)).outer
    have hothers := settles_groupLines hrest hproperRest level
    refine hlabel.passes (hgroup.append hothers (fun line hline => ?_) fun _ _ => .inl)
    exact .inl (leaves_of_mem_head?_groupLines _ level line hline)
  | _, .labelled label hbody hrest, ⟨_, hproper, hproperRest⟩, level => by
    have hproper := (Statement.areProper_append.mp hproper).1
    have hstart : BeginsWithWord ("case " ++ label.text ++ ":") :=
      (BeginsWithWord.append ⟨'c', rfl, rfl⟩ _).append _
    have hcase : isCase (lineAt level ("case " ++ label.text ++ ":")) = true := by
      rw [isCase, contentOf_lineAt hstart.head?_ne_blank, Statement.isLabel_case]
      simp
    have hsplits : Splits ("case " ++ label.text ++ ":") "case".toList
        (' ' :: (label.text ++ ":").toList) :=
      splits_of_isWord (by decide) (by simp) (by simp; decide)
    have hquiet := hsplits.isQuiet_of_word level (by decide) (by decide)
    have hgroup := (settles_linesOf hbody hproper (level + 1)).group hstart hquiet hcase
    have hall := hgroup.append (settles_groupLines hrest hproperRest level)
      (leaves_of_mem_head?_groupLines _ level) fun _ _ => id
    simpa [Statement.groupLines, linesOf_append, Statement.linesOf, Statement.lines] using hall

end

/-! ### Programs -/

theorem Field.IsProper.settles_line {field : Field} (h : field.IsProper) :
    Settles 1 Anything [field.line] := by
  have htype := h.type.isOtherWord
  obtain ⟨shape, type, name, value⟩ := field
  cases shape with
  | array =>
    obtain ⟨more, hmore⟩ := exists_withValue (type ++ "[] " ++ name) value
    simp only [Field.line, hmore]
    exact .ofWord type '[' ("] " ++ name ++ more ++ ";").toList htype (by simp) (by decide) 1
  | plain => exact .declaration h.type name value 1
  | constant =>
    obtain ⟨more, hmore⟩ := exists_withValue ("final " ++ type ++ " " ++ name) value
    simp only [Field.line, hmore]
    exact .ofWord "final" ' ' (type ++ " " ++ name ++ more ++ ";").toList (by decide) (by simp)
      (by decide) 1

theorem Method.IsProper.settles_lines {method : Method} (h : method.IsProper)
    (hlast : BlockReturnsLast method.body) : Settles 1 Anything method.lines := by
  have hresult : isOtherWord method.result = true := by
    rcases h.result with hvoid | htype
    · rw [hvoid]
      decide
    · exact htype.isOtherWord
  have hhead : ∀ parameters : String,
      (method.result ++ " " ++ method.name ++ "(" ++ parameters ++ ") \x7b").toList =
        method.result.toList ++ ' ' :: (method.name ++ "(" ++ parameters ++ ") \x7b").toList := by
    simp
  exact .body method.result ' ' _ hresult (hhead _) (by decide) (settles_linesOf hlast h.body 2)

theorem settles_entryLines (exits : Bool) : Settles 1 Anything (entryLines exits) := by
  have hhead : Settles 1 Anything [lineAt 1 "public static void main(String[] args) \x7b"] :=
    .ofWord "public" ' ' _ (by decide) rfl (by decide) 1
  have hcall : Settles 2 Anything
      [lineAt 2 (if exits then "System.exit(new Main().main());" else "new Main().main();")] := by
    cases exits with
    | true => exact .ofWord "System.exit" '(' _ (by decide) rfl (by decide) 2
    | false => exact .ofWord "new" ' ' _ (by decide) rfl (by decide) 2
  exact hhead.passes (hcall.braced "\x7d" (fun _ _ => trivial) rfl)

theorem settles_empty : Settles 0 Anything [""] :=
  .quiet ⟨rfl, rfl⟩ rfl

theorem settles_flatMap {α : Type} {members : List α} {lines : α → List String}
    (h : ∀ member ∈ members, Settles 0 Anything (lines member)) :
    Settles 0 Anything (members.flatMap lines) := by
  induction members with
  | nil => exact .nil 0 _
  | cons member rest ih =>
    obtain ⟨hmember, hrest⟩ := List.forall_mem_cons.mp h
    exact hmember.passes (ih hrest)

/-- The lines of a program are settled if the returns of its methods stand last. -/
theorem Program.IsProper.settles_lines {program : Program} (h : program.IsProper)
    (hlast : ∀ method ∈ program.methods, BlockReturnsLast method.body) :
    Settles 0 Anything program.lines := by
  have hhead : Settles 0 Anything ["public class Main \x7b"] := by
    rw [← lineAt_zero "public class Main \x7b"]
    exact .ofWord "public" ' ' _ (by decide) rfl (by decide) 0
  have hfields : Settles 0 Anything
      (if program.fields.isEmpty then [] else "" :: program.fields.map Field.line) := by
    split
    · exact .nil 0 _
    · rw [List.map_eq_flatMap]
      have hlines := settles_flatMap fun field hmem => (h.fields field hmem).settles_line.outer
      exact settles_empty.passes hlines
  have hentry : Settles 0 Anything
      (program.entry.elim [] fun exits => "" :: entryLines exits) := by
    cases program.entry with
    | none => exact .nil 0 _
    | some exits => exact settles_empty.passes (settles_entryLines exits).outer
  have hmethods : Settles 0 Anything
      (program.methods.flatMap fun method => "" :: method.lines) :=
    settles_flatMap fun method hmem =>
      settles_empty.passes ((h.methods method hmem).settles_lines (hlast method hmem)).outer
  have hend : Settles 0 Anything ["", "\x7d"] := by
    rw [← lineAt_zero "\x7d"]
    exact settles_empty.passes (.quiet (isQuiet_of_brace rfl 0) rfl)
  rw [Program.lines_eq]
  exact hhead.passes (((hfields.passes hentry).passes hmethods).passes hend)

end BlockScript.Java
