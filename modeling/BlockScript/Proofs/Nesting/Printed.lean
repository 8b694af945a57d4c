import BlockScript.Proofs.Escape
import BlockScript.Proofs.Nesting.Outline
/-!
# The outline of printed programs

The text of an expression leaves the open brackets as they are: its own brackets come in pairs, and
its literals are closed where they end, since quotes and line ends in them are escaped. The lines of
a statement are indented by their depths, and so are those of a whole class, if names are names in
Java.

## Main definitions

* `Java.Restores` — printers that leave the open brackets as they are
* `Java.Statement.IsProper`, `Java.Program.IsProper` — trees with names and operators of Java

## Main results

* `Java.Expression.isNeutral_text` — the texts of expressions
* `Java.Statement.restores_lines` — the lines of statements
* `Java.Program.IsProper.outlines_lines` — the lines of programs
-/

namespace BlockScript.Java

/-! ### Words and literals -/

section

variable {text : String} {cs : List Char} {opened : List Bracket} {quote : Char}

theorem BeginsWithWord.append (h : BeginsWithWord text) (others : String) :
    BeginsWithWord (text ++ others) := by
  obtain ⟨c, hc, hword⟩ := h
  refine ⟨c, ?_, hword⟩
  rw [String.toList_append, List.head?_append, Option.mem_def.mp hc]
  rfl

theorem exists_of_isWord (h : isWord text = true) :
    ∃ c rest, text.toList = c :: rest ∧ isWordStart c = true ∧ ∀ d ∈ rest, isWordPart d = true := by
  unfold isWord at h
  split at h
  · cases h
  · rename_i c rest hchars
    obtain ⟨hc, hrest⟩ := (Bool.and_eq_true _ _).mp h
    exact ⟨c, rest, hchars, hc, List.all_eq_true.mp hrest⟩

theorem beginsWithWord_of_isWord (h : isWord text = true) : BeginsWithWord text := by
  obtain ⟨c, rest, hchars, hc, -⟩ := exists_of_isWord h
  exact ⟨c, by rw [hchars]; rfl, hc⟩

theorem isNeutral_word (h : isWord text = true) : IsNeutral text.toList := by
  obtain ⟨c, rest, hchars, hc, hrest⟩ := exists_of_isWord h
  have hpart : isWordPart c = true := ((Bool.and_eq_true _ _).mp hc).2
  refine isNeutral_class (p := isWordPart) (by decide) ?_
  rw [hchars]
  exact List.forall_mem_cons.mpr ⟨hpart, hrest⟩

theorem isNeutral_operator (op : Operator) : IsNeutral op.text.toList := by
  have hall : op.text.toList.all isOperatorCharacter = true := by
    cases op <;> decide
  exact isNeutral_class (p := isOperatorCharacter) (by decide) (List.all_eq_true.mp hall)

theorem isNeutral_digits (h : ∀ c ∈ cs, c.isDigit = true) : IsNeutral cs :=
  isNeutral_class (p := Char.isDigit) (by decide) h

/-- A number, with or without a sign. -/
theorem isNeutral_numeral {negative : Bool} {whole fraction power : List Char} {e : Int}
    (hwhole : AreDigits whole) (hfraction : ∀ c ∈ fraction, c.isDigit = true)
    (hpower : Decimal.IsPower power e) :
    IsNeutral ((if negative then ['-'] else []) ++
      (whole ++ (Decimal.pointed fraction ++ power))) := by
  have hsign : IsNeutral (if negative then ['-'] else []) := by
    cases negative with
    | true => exact fun _ => rfl
    | false => exact .nil
  have hpointed : IsNeutral (Decimal.pointed fraction) := by
    unfold Decimal.pointed
    split
    · exact .nil
    · have hpoint : IsNeutral ['.'] := fun _ => rfl
      exact hpoint.append (isNeutral_digits hfraction)
  have hpower : IsNeutral power := by
    cases hpower with
    | none => exact .nil
    | positive hdigits =>
      have hmark : IsNeutral ['E', '+'] := fun _ => rfl
      exact hmark.append (isNeutral_digits hdigits.2)
    | negative hdigits =>
      have hmark : IsNeutral ['E', '-'] := fun _ => rfl
      exact hmark.append (isNeutral_digits hdigits.2)
  exact hsign.append ((isNeutral_digits hwhole.2).append (hpointed.append hpower))

/-- What is written for a character of a literal neither closes nor breaks the literal. -/
theorem foldlM_escapeChar (hquote : quote = '\'' ∨ quote = '"') (c : Char)
    (opened : List Bracket) :
    (Text.escapeChar (some quote) c).foldlM Position.step? ⟨.quoted quote, opened⟩ =
      some ⟨.quoted quote, opened⟩ := by
  have hbackslash : quote ≠ '\\' := by
    rcases hquote with rfl | rfl <;> decide
  rcases Text.escapeChar_cases hquote c with ⟨hplain, hc⟩ | ⟨d, hescape, hd⟩
  · have hc := Terminal.isPlain_eq_true_iff.mp hc
    simp only [not_or] at hc
    simp [hplain, Position.step?, hc]
  · have hline : ¬(d = '\n' ∨ d = '\r') := by
      rintro (rfl | rfl) <;> cases hd
    simp [hescape, Position.step?, hbackslash.symm, hline]

/-- A literal is closed where it ends. -/
theorem isNeutral_quoted (hquote : quote = '\'' ∨ quote = '"') (text : String) :
    IsNeutral (quote :: (Text.escape (some quote) text).toList ++ [quote]) := by
  intro opened
  have hinside : (Text.escape (some quote) text).toList.foldlM Position.step?
      ⟨.quoted quote, opened⟩ = some ⟨.quoted quote, opened⟩ := by
    rw [Text.escape, String.toList_ofList]
    induction text.toList with
    | nil => rfl
    | cons c rest ih =>
      rw [List.flatMap_cons, List.foldlM_append, foldlM_escapeChar hquote]
      exact ih
  have hopening : Position.step? ⟨.code, opened⟩ quote = some ⟨.quoted quote, opened⟩ := by
    rcases hquote with rfl | rfl <;> rfl
  have hclosing : Position.step? ⟨.quoted quote, opened⟩ quote = some ⟨.code, opened⟩ := by
    rcases hquote with rfl | rfl <;> rfl
  rw [Reads, List.foldlM_append, List.foldlM_cons, hopening, Option.bind_eq_bind,
    Option.bind_some, hinside]
  simp [hclosing]

theorem isNeutral_literal (value : Scalar) : IsNeutral value.javaLiteral.toList := by
  cases value with
  | nil => exact fun _ => rfl
  | boolean value =>
    cases value with
    | true => exact fun _ => rfl
    | false => exact fun _ => rfl
  | integer value =>
    have hpieces : (toString value).toList =
        (if decide (value < 0) = true then ['-'] else []) ++
          (Nat.toDigits 10 value.natAbs ++ (Decimal.pointed [] ++ [])) := by
      simp only [toList_toString, Decimal.pointed, if_true, List.append_nil, decide_eq_true_eq]
    exact hpieces ▸ isNeutral_numeral (areDigits_toDigits _) (by simp) .none
  | decimal value =>
    obtain ⟨whole, fraction, power, e, hwhole, hfraction, hpower, htext⟩ :=
      value.exists_pieces_of_text
    exact htext ▸ isNeutral_numeral hwhole hfraction hpower
  | character value => simpa [Scalar.javaLiteral] using isNeutral_quoted (.inl rfl) value
  | string value => simpa [Scalar.javaLiteral] using isNeutral_quoted (.inr rfl) value

/-- Texts with commas between them. -/
theorem isNeutral_intercalate {texts : List String} (h : ∀ text ∈ texts, IsNeutral text.toList) :
    IsNeutral (", ".intercalate texts).toList := by
  induction texts with
  | nil => exact .nil
  | cons text rest ih =>
    obtain ⟨htext, hrest⟩ := List.forall_mem_cons.mp h
    cases rest with
    | nil => simpa using htext
    | cons next others =>
      have hcomma : IsNeutral ", ".toList := fun _ => rfl
      rw [String.intercalate_cons_cons, String.toList_append, String.toList_append]
      exact (htext.append hcomma).append (ih hrest)

end

/-! ### Expressions -/

namespace Expression

mutual

/-- The text of an expression leaves the open brackets as they are. -/
theorem isNeutral_text : ∀ {form : Expression}, form.IsLexical → IsNeutral form.text.toList
  | literal value, _ => isNeutral_literal value
  | name _, h => isNeutral_word h
  | element array index, h => by
    obtain ⟨harray, hindex⟩ := h
    have hbrackets := (isNeutral_text hindex).inBrackets (c := '[') rfl
    simpa [Bracket.closing] using (isNeutral_word harray).append hbrackets
  | call function arguments, h => by
    obtain ⟨hfunction, harguments⟩ := h
    have hinside := isNeutral_intercalate (isNeutral_texts harguments)
    have hbrackets := hinside.inBrackets (c := '(') rfl
    simpa [Bracket.closing] using (isNeutral_word hfunction).append hbrackets
  | binary symbol left right, h => by
    obtain ⟨⟨op, rfl⟩, hleft, hright⟩ := h
    have hblank : IsNeutral [' '] := fun _ => rfl
    have hbinary := (((isNeutral_text hleft).append hblank).append
      (isNeutral_operator op)).append (hblank.append (isNeutral_text hright))
    simpa using hbinary
  | power base exponent, h => by
    have hcomma : IsNeutral [',', ' '] := fun _ => rfl
    have hinside := ((isNeutral_text h.1).append hcomma).append (isNeutral_text h.2)
    have hfunction : IsNeutral "(int) Math.pow".toList := fun _ => rfl
    simpa [Bracket.closing] using hfunction.append (hinside.inBrackets (c := '(') rfl)
  | parentheses inner, h => by
    have hinner : inner.IsLexical := h
    simpa [Bracket.closing] using (isNeutral_text hinner).inBrackets (c := '(') rfl
  | braces values, h => by
    have hvalues : AreLexical values := h
    have hinside := isNeutral_intercalate (isNeutral_texts hvalues)
    simpa [Bracket.closing] using hinside.inBrackets (c := '\x7b') rfl

theorem isNeutral_texts : ∀ {forms : List Expression}, AreLexical forms →
    ∀ text ∈ texts forms, IsNeutral text.toList
  | [], _ => fun _ hmem => absurd hmem List.not_mem_nil
  | _ :: _, ⟨h, hrest⟩ => List.forall_mem_cons.mpr ⟨isNeutral_text h, isNeutral_texts hrest⟩

end

end Expression

/-! ### Lines -/

/-- The lines of a printer leave the open brackets as they are and are indented by their depths, in
whatever braces they stand. -/
def Restores (lines : Nat → List String) : Prop :=
  ∀ inGroup outer, Outlines (.brace inGroup :: outer) (lines (depth (.brace inGroup :: outer)))
    (.brace inGroup :: outer)

section

variable {text last : String} {value : Option Expression} {opened behind : List Bracket}
  {lines others : Nat → List String}

theorem Restores.nil : Restores fun _ => [] :=
  fun _ _ => .nil _

theorem Restores.append (h : Restores lines) (h' : Restores others) :
    Restores fun level => lines level ++ others level :=
  fun inGroup outer => (h inGroup outer).append (h' inGroup outer)

/-- One line of code that does not end with a colon. -/
theorem Restores.code (hstart : BeginsWithWord text) (hlast : text.toList.getLast? ≠ some ':')
    (hneutral : IsNeutral text.toList) : Restores fun level => [lineAt level text] :=
  fun _ _ => .code hstart hlast (hneutral _)

theorem getLast?_append_ne (text : String) {c : Char} (h : last.toList.getLast? = some c)
    (hc : c ≠ ':') : (text ++ last).toList.getLast? ≠ some ':' := by
  rw [String.toList_append, List.getLast?_append, h]
  exact fun heq => hc (Option.some.inj heq)

/-- One line of code with a semicolon at its end. -/
theorem Restores.simple (hstart : BeginsWithWord text) (hneutral : IsNeutral text.toList) :
    Restores fun level => [lineAt level (text ++ ";")] := by
  refine .code (hstart.append ";") (getLast?_append_ne text rfl (by decide)) ?_
  rw [String.toList_append]
  exact hneutral.append fun _ => rfl

theorem lineAt_append (level : Nat) (text others : String) :
    lineAt level text ++ others = lineAt level (text ++ others) :=
  String.append_assoc

theorem lineAt_zero (text : String) : lineAt 0 text = text :=
  String.empty_append

/-- An initial value that may be absent. -/
def IsLexicalIfPresent (value : Option Expression) : Prop :=
  ∀ form ∈ value, form.IsLexical

theorem beginsWithWord_withValue (h : BeginsWithWord text) (value : Option Expression) :
    BeginsWithWord (withValue text value) := by
  cases value with
  | none => exact h
  | some form => exact (h.append " = ").append form.text

theorem isNeutral_withValue (h : IsNeutral text.toList) (hvalue : IsLexicalIfPresent value) :
    IsNeutral (withValue text value).toList := by
  cases value with
  | none => exact h
  | some form =>
    have hequals : IsNeutral " = ".toList := fun _ => rfl
    have hform := Expression.isNeutral_text (hvalue form rfl)
    simpa [withValue] using (h.append hequals).append hform

end

/-! ### Statements -/

/-- Whether an expression is a call. -/
def Expression.isCall : Expression → Bool
  | call .. => true
  | _ => false

/-- Whether an expression is a variable or an element. -/
def Expression.isPlace : Expression → Bool
  | name _ | element .. => true
  | _ => false

theorem Expression.beginsWithWord {form : Expression} (h : form.IsLexical)
    (hform : (form.isCall || form.isPlace) = true) : BeginsWithWord form.text := by
  cases form with
  | call function arguments =>
    simp only [text_call, String.append_assoc]
    exact (beginsWithWord_of_isWord h.1).append _
  | name identifier => exact beginsWithWord_of_isWord h
  | element array index =>
    simp only [text_element, String.append_assoc]
    exact (beginsWithWord_of_isWord h.1).append _
  | _ => cases hform

/-- The name of a type in Java. -/
def IsTypeName (text : String) : Prop :=
  ∃ ty : Ty, text = ty.javaName

theorem IsTypeName.isWord {text : String} (h : IsTypeName text) : isWord text = true := by
  obtain ⟨ty, rfl⟩ := h
  cases ty <;> decide

namespace Statement

mutual

/-- Whether the names and operators of a statement are those of Java, and only calls are evaluated
for their effects, and only variables and elements assigned to. -/
def IsProper : Statement → Prop
  | expression value => value.isCall ∧ value.IsLexical
  | localVariable type name value => IsTypeName type ∧ isWord name ∧ IsLexicalIfPresent value
  | assignment target value => target.isPlace ∧ target.IsLexical ∧ value.IsLexical
  | ifElse condition thenBody elseBody =>
    condition.IsLexical ∧ AreProper thenBody ∧ AreProper elseBody
  | switch condition groups => condition.IsLexical ∧ AreProperGroups groups
  | whileLoop condition body => condition.IsLexical ∧ AreProper body
  | breakOut => True
  | exit value => IsLexicalIfPresent value

/-- Whether several statements are proper. -/
def AreProper : List Statement → Prop
  | [] => True
  | statement :: rest => statement.IsProper ∧ AreProper rest

/-- Whether the groups of a switch are proper. -/
def AreProperGroups : List (Option Expression × List Statement) → Prop
  | [] => True
  | (label, body) :: rest => IsLexicalIfPresent label ∧ AreProper body ∧ AreProperGroups rest

end

theorem isProper_of_mem {statements : List Statement} (h : AreProper statements) :
    ∀ statement ∈ statements, statement.IsProper := by
  induction statements with
  | nil => exact fun _ hmem => absurd hmem List.not_mem_nil
  | cons statement rest ih => exact List.forall_mem_cons.mpr ⟨h.1, ih h.2⟩

theorem areProper_append {statements others : List Statement} :
    AreProper (statements ++ others) ↔ AreProper statements ∧ AreProper others := by
  induction statements with
  | nil => exact (true_and _).to_iff.symm
  | cons statement rest ih =>
    rw [List.cons_append, AreProper, AreProper, ih, and_assoc]

section

variable (keyword : String) {inside : String} {body : List Statement}

/-- A line that ends with something in parentheses and an opening brace. -/
theorem reads_heading (hkeyword : ∀ opened, Reads opened keyword.toList (.parenthesis :: opened))
    (hinside : IsNeutral inside.toList) (opened : List Bracket) :
    Reads opened (keyword ++ inside ++ ") \x7b").toList (.brace false :: opened) :=
  ((hkeyword opened).inText _ (hinside _)).inText _ rfl

theorem outlines_heading (hstart : BeginsWithWord keyword)
    (hkeyword : ∀ opened, Reads opened keyword.toList (.parenthesis :: opened))
    (hinside : IsNeutral inside.toList) (opened : List Bracket) :
    Outlines opened [lineAt (depth opened) (keyword ++ inside ++ ") \x7b")]
      (.brace false :: opened) :=
  .code ((hstart.append _).append _) (getLast?_append_ne _ rfl (by decide))
    (reads_heading keyword hkeyword hinside opened)

/-- A body in braces. If it is empty, the braces are in one line. -/
theorem outlines_braced (hstart : BeginsWithWord keyword)
    (hkeyword : ∀ opened, Reads opened keyword.toList (.parenthesis :: opened))
    (hinside : IsNeutral inside.toList) (hbody : Restores fun level => linesOf level body)
    (opened : List Bracket) :
    Outlines opened
      (if body.isEmpty then [lineAt (depth opened) (keyword ++ inside ++ ") \x7b") ++ "\x7d"]
        else lineAt (depth opened) (keyword ++ inside ++ ") \x7b") ::
          (linesOf (depth opened + 1) body ++ [lineAt (depth opened) "\x7d"])) opened := by
  cases body with
  | nil =>
    rw [List.isEmpty_nil, if_pos rfl, lineAt_append]
    have hreads := (reads_heading keyword hkeyword hinside opened).inText "\x7d" rfl
    exact .code (((hstart.append _).append _).append _) (getLast?_append_ne _ rfl (by decide))
      hreads
  | cons first rest =>
    have hhead := outlines_heading keyword hstart hkeyword hinside opened
    exact hhead.append ((hbody false opened).append (.closing false opened))

end

theorem isLabel_case (text : String) : isLabel ("case " ++ text ++ ":").toList = true := by
  have hlast : ("case " ++ text ++ ":").toList.getLast? = some ':' := by
    rw [String.toList_append, List.getLast?_append]
    rfl
  rw [isLabel, hlast]
  simp

mutual

/-- The lines of a statement leave the open brackets as they are. -/
theorem restores_lines : ∀ {statement : Statement}, statement.IsProper →
    Restores fun level => statement.lines level
  | expression value, ⟨hcall, hvalue⟩ =>
    .simple (value.beginsWithWord hvalue (by rw [hcall]; rfl)) (value.isNeutral_text hvalue)
  | localVariable type name value, ⟨htype, hname, hvalue⟩ => by
    have hblank : IsNeutral " ".toList := fun _ => rfl
    have hneutral : IsNeutral (type ++ " " ++ name).toList := by
      simpa using ((isNeutral_word htype.isWord).append hblank).append (isNeutral_word hname)
    have hstart := ((beginsWithWord_of_isWord htype.isWord).append " ").append name
    exact .simple (beginsWithWord_withValue hstart value) (isNeutral_withValue hneutral hvalue)
  | assignment target value, ⟨hplace, htarget, hvalue⟩ => by
    have hstart : BeginsWithWord target.text :=
      target.beginsWithWord htarget (by rw [hplace, Bool.or_true])
    have hequals : IsNeutral " = ".toList := fun _ => rfl
    have hneutral := ((target.isNeutral_text htarget).append hequals).append
      (value.isNeutral_text hvalue)
    exact .simple ((hstart.append " = ").append value.text) (by simpa using hneutral)
  | ifElse condition thenBody elseBody, ⟨hcondition, hthen, helse⟩ => by
    intro inGroup outer
    have hhead := outlines_heading "if (" ⟨'i', rfl, rfl⟩ (fun _ => rfl)
      (condition.isNeutral_text hcondition) (.brace inGroup :: outer)
    have hbody := restores_linesOf hthen false (.brace inGroup :: outer)
    have hclosing := Outlines.closing false (.brace inGroup :: outer)
    simp only [lines]
    cases elseBody with
    | nil =>
      have hall := (hhead.append hbody).append hclosing
      simpa using hall
    | cons first rest =>
      have hmiddle := Outlines.reopening false (.brace inGroup :: outer)
      have hother := restores_linesOf helse false (.brace inGroup :: outer)
      have hall := ((hhead.append hbody).append (hmiddle.append hother)).append hclosing
      simpa using hall
  | switch condition groups, ⟨hcondition, hgroups⟩ => by
    intro inGroup outer
    have hhead := outlines_heading "switch (" ⟨'s', rfl, rfl⟩ (fun _ => rfl)
      (condition.isNeutral_text hcondition) (.brace inGroup :: outer)
    obtain ⟨begun, hbody⟩ := outlines_groupLines hgroups false (.brace inGroup :: outer)
    exact hhead.append (hbody.append (.closing begun (.brace inGroup :: outer)))
  | whileLoop condition body, ⟨hcondition, hbody⟩ => fun inGroup outer =>
    outlines_braced "while (" ⟨'w', rfl, rfl⟩ (fun _ => rfl)
      (condition.isNeutral_text hcondition) (restores_linesOf hbody) (.brace inGroup :: outer)
  | breakOut, _ => by
    have hneutral : IsNeutral "break".toList := fun _ => rfl
    have hline := Restores.simple ⟨'b', rfl, rfl⟩ hneutral
    exact hline
  | exit none, _ => by
    have hneutral : IsNeutral "return".toList := fun _ => rfl
    have hline := Restores.simple ⟨'r', rfl, rfl⟩ hneutral
    exact hline
  | exit (some value), hvalue => by
    have hneutral : IsNeutral ("return " ++ value.text).toList := by
      rw [String.toList_append]
      exact IsNeutral.append (fun _ => rfl) (value.isNeutral_text (hvalue value rfl))
    exact .simple (BeginsWithWord.append ⟨'r', rfl, rfl⟩ value.text) hneutral

/-- The lines of several statements leave the open brackets as they are. -/
theorem restores_linesOf : ∀ {statements : List Statement}, AreProper statements →
    Restores fun level => linesOf level statements
  | [], _ => .nil
  | _ :: _, ⟨h, hrest⟩ => (restores_lines h).append (restores_linesOf hrest)

/-- The lines of the groups of a switch leave the brackets outside of the switch as they are. -/
theorem outlines_groupLines : ∀ {groups : List (Option Expression × List Statement)},
    AreProperGroups groups → ∀ inGroup outer, ∃ begun, Outlines (.brace inGroup :: outer)
      (groupLines (depth outer + 1) groups) (.brace begun :: outer)
  | [], _, inGroup, outer => ⟨inGroup, .nil _⟩
  | (some label, body) :: rest, ⟨hlabel, hbody, hrest⟩, inGroup, outer => by
    have hneutral : IsNeutral ("case " ++ label.text ++ ":").toList := by
      have hkeyword : IsNeutral "case ".toList := fun _ => rfl
      have htext := hkeyword.append (label.isNeutral_text (hlabel label rfl))
      have hcolon : IsNeutral [':'] := fun _ => rfl
      simpa using htext.append hcolon
    have hlabel := Outlines.label (isLabel_case label.text)
      ((BeginsWithWord.append ⟨'c', rfl, rfl⟩ _).append _) hneutral inGroup outer
    have hinside := restores_linesOf hbody true outer
    obtain ⟨begun, hothers⟩ := outlines_groupLines hrest true outer
    exact ⟨begun, hlabel.append (hinside.append hothers)⟩
  | (none, body) :: rest, ⟨_, hbody, hrest⟩, inGroup, outer => by
    have hneutral : IsNeutral "default:".toList := fun _ => rfl
    have hlabel := Outlines.label (by decide) ⟨'d', rfl, rfl⟩ hneutral inGroup outer
    have hinside := restores_linesOf hbody true outer
    obtain ⟨begun, hothers⟩ := outlines_groupLines hrest true outer
    exact ⟨begun, hlabel.append (hinside.append hothers)⟩

end

end Statement

/-! ### Blocks -/

mutual

/-- The blocks in a statement. -/
def Statement.blocks : Statement → List (List Statement)
  | .ifElse _ thenBody elseBody =>
    thenBody :: blocksInAll thenBody ++ elseBody :: blocksInAll elseBody
  | .switch _ groups => blocksInGroups groups
  | .whileLoop _ body => body :: blocksInAll body
  | _ => []

/-- The blocks in several statements. -/
def blocksInAll : List Statement → List (List Statement)
  | [] => []
  | statement :: rest => statement.blocks ++ blocksInAll rest

/-- The blocks in the groups of a switch. -/
def blocksInGroups : List (Option Expression × List Statement) → List (List Statement)
  | [] => []
  | (_, body) :: rest => body :: blocksInAll body ++ blocksInGroups rest

end

/-- The blocks of a method. -/
def Method.blocks (method : Method) : List (List Statement) :=
  method.body :: blocksInAll method.body

section

open Statement (AreProper AreProperGroups)

mutual

/-- The blocks in proper statements are proper. -/
theorem areProper_of_mem_blocks : ∀ {statement : Statement}, statement.IsProper →
    ∀ block ∈ statement.blocks, AreProper block
  | .ifElse _ _ _, ⟨_, hthen, helse⟩ =>
    List.forall_mem_append.mpr ⟨
      List.forall_mem_cons.mpr ⟨hthen, areProper_of_mem_blocksInAll hthen⟩,
      List.forall_mem_cons.mpr ⟨helse, areProper_of_mem_blocksInAll helse⟩⟩
  | .switch _ _, ⟨_, hgroups⟩ => areProper_of_mem_blocksInGroups hgroups
  | .whileLoop _ _, ⟨_, hbody⟩ =>
    List.forall_mem_cons.mpr ⟨hbody, areProper_of_mem_blocksInAll hbody⟩
  | .expression _, _ | .localVariable .., _ | .assignment .., _ | .breakOut, _ | .exit _, _ =>
    fun _ hmem => absurd hmem List.not_mem_nil

theorem areProper_of_mem_blocksInAll : ∀ {statements : List Statement}, AreProper statements →
    ∀ block ∈ blocksInAll statements, AreProper block
  | [], _ => fun _ hmem => absurd hmem List.not_mem_nil
  | _ :: _, ⟨h, hrest⟩ =>
    List.forall_mem_append.mpr ⟨areProper_of_mem_blocks h, areProper_of_mem_blocksInAll hrest⟩

theorem areProper_of_mem_blocksInGroups : ∀ {groups : List (Option Expression × List Statement)},
    AreProperGroups groups → ∀ block ∈ blocksInGroups groups, AreProper block
  | [], _ => fun _ hmem => absurd hmem List.not_mem_nil
  | (_, _) :: _, ⟨_, hbody, hrest⟩ =>
    List.forall_mem_append.mpr ⟨
      List.forall_mem_cons.mpr ⟨hbody, areProper_of_mem_blocksInAll hbody⟩,
      areProper_of_mem_blocksInGroups hrest⟩

end

end

/-! ### Programs -/

/-- Whether the names and operators of a field are those of Java. -/
structure Field.IsProper (field : Field) : Prop where
  type : IsTypeName field.type
  name : isWord field.name
  value : IsLexicalIfPresent field.value

/-- Whether the names and operators of a method are those of Java. -/
structure Method.IsProper (method : Method) : Prop where
  result : method.result = "void" ∨ IsTypeName method.result
  name : isWord method.name
  parameters : ∀ parameter ∈ method.parameters, IsTypeName parameter.1 ∧ isWord parameter.2
  body : Statement.AreProper method.body

/-- Whether the names and operators of a class are those of Java. -/
structure Program.IsProper (program : Program) : Prop where
  fields : ∀ field ∈ program.fields, field.IsProper
  methods : ∀ method ∈ program.methods, method.IsProper

/-- The inside of a class. -/
def inClass : List Bracket :=
  [.brace false]

/-- The line of a field leaves the class open. -/
theorem Field.IsProper.outlines_line {field : Field} (h : field.IsProper) :
    Outlines inClass [field.line] inClass := by
  have hblank : IsNeutral " ".toList := fun _ => rfl
  have htype := isNeutral_word h.type.isWord
  have hname := isNeutral_word h.name
  have hstart := beginsWithWord_of_isWord h.type.isWord
  obtain ⟨shape, type, name, value⟩ := field
  have hline : ∀ declared : String, BeginsWithWord declared → IsNeutral declared.toList →
      Outlines inClass [lineAt 1 (withValue declared value ++ ";")] inClass :=
    fun _ hdeclared hneutral =>
      Restores.simple (beginsWithWord_withValue hdeclared value)
        (isNeutral_withValue hneutral h.value) false []
  cases shape with
  | array =>
    have hbrackets : IsNeutral "[] ".toList := fun _ => rfl
    exact hline (type ++ "[] " ++ name) ((hstart.append _).append _)
      (by simpa using (htype.append hbrackets).append hname)
  | plain =>
    exact hline (type ++ " " ++ name) ((hstart.append _).append _)
      (by simpa using (htype.append hblank).append hname)
  | constant =>
    have hfinal : IsNeutral "final ".toList := fun _ => rfl
    have hneutral : IsNeutral ("final " ++ type ++ " " ++ name).toList := by
      simpa using ((hfinal.append htype).append hblank).append hname
    exact hline ("final " ++ type ++ " " ++ name)
      (((BeginsWithWord.append ⟨'f', rfl, rfl⟩ type).append _).append _) hneutral

theorem Method.IsProper.isWord_result {method : Method} (h : method.IsProper) :
    isWord method.result = true := by
  rcases h.result with hvoid | htype
  · rw [hvoid]
    decide
  · exact htype.isWord

/-- The lines of a method leave the class open. -/
theorem Method.IsProper.outlines_lines {method : Method} (h : method.IsProper) :
    Outlines inClass method.lines inClass := by
  have hword := h.isWord_result
  have hstart := beginsWithWord_of_isWord hword
  have hkeyword : ∀ opened, Reads opened (method.result ++ " " ++ method.name ++ "(").toList
      (.parenthesis :: opened) := by
    intro opened
    have hresult := (isNeutral_word hword opened).inText " " rfl
    exact (hresult.inText _ (isNeutral_word h.name _)).inText "(" rfl
  have hparameters : IsNeutral (", ".intercalate
      (method.parameters.map fun parameter => parameter.1 ++ " " ++ parameter.2)).toList := by
    refine isNeutral_intercalate (List.forall_mem_map.mpr fun parameter hmem => ?_)
    obtain ⟨htype, hname⟩ := h.parameters parameter hmem
    have hblank : IsNeutral " ".toList := fun _ => rfl
    simpa using ((isNeutral_word htype.isWord).append hblank).append (isNeutral_word hname)
  exact Statement.outlines_braced _ (((hstart.append _).append _).append _) hkeyword hparameters
    (Statement.restores_linesOf h.body) inClass

/-- The lines of the entry point leave the class open. -/
theorem outlines_entryLines (exits : Bool) : Outlines inClass (entryLines exits) inClass := by
  have hhead : Outlines inClass [lineAt 1 "public static void main(String[] args) \x7b"]
      [.brace false, .brace false] :=
    .code ⟨'p', rfl, rfl⟩ (by decide) rfl
  have hcall : Outlines [.brace false, .brace false]
      [lineAt 2 (if exits then "System.exit(new Main().main());" else "new Main().main();")]
      [.brace false, .brace false] := by
    cases exits with
    | true => exact .code ⟨'S', rfl, rfl⟩ (by decide) rfl
    | false => exact .code ⟨'n', rfl, rfl⟩ (by decide) rfl
  exact hhead.append (hcall.append (.closing false inClass))

theorem outlines_empty (opened : List Bracket) : Outlines opened [""] opened :=
  ⟨[_], rfl, .cons (fun h => absurd rfl h) .nil⟩

/-- Members of a class in a row. -/
theorem outlines_flatMap {α : Type} {members : List α} {lines : α → List String}
    (h : ∀ member ∈ members, Outlines inClass (lines member) inClass) :
    Outlines inClass (members.flatMap lines) inClass := by
  induction members with
  | nil => exact .nil _
  | cons member rest ih =>
    obtain ⟨hmember, hrest⟩ := List.forall_mem_cons.mp h
    exact hmember.append (ih hrest)

/-- A class has its fields, its entry point and its methods between its braces. -/
theorem Program.lines_eq (program : Program) :
    program.lines = "public class Main \x7b" ::
      ((if program.fields.isEmpty then [] else "" :: program.fields.map Field.line) ++
        program.entry.elim [] (fun exits => "" :: entryLines exits) ++
        program.methods.flatMap (fun method => "" :: method.lines) ++ ["", "\x7d"]) := by
  rw [Program.lines]
  cases program.entry <;> rfl

/-- The lines of a program have balanced brackets and are indented by their depths. -/
theorem Program.IsProper.outlines_lines {program : Program} (h : program.IsProper) :
    Outlines [] program.lines [] := by
  have hhead : Outlines [] ["public class Main \x7b"] inClass := by
    rw [← lineAt_zero "public class Main \x7b"]
    exact .code ⟨'p', rfl, rfl⟩ (by decide) rfl
  have hfields : Outlines inClass
      (if program.fields.isEmpty then [] else "" :: program.fields.map Field.line) inClass := by
    split
    · exact .nil _
    · rw [List.map_eq_flatMap]
      have hlines := outlines_flatMap fun field hmem => (h.fields field hmem).outlines_line
      exact (outlines_empty _).append hlines
  have hentry : Outlines inClass
      (program.entry.elim [] fun exits => "" :: entryLines exits) inClass := by
    cases program.entry with
    | none => exact .nil _
    | some exits => exact (outlines_empty _).append (outlines_entryLines exits)
  have hmethods : Outlines inClass (program.methods.flatMap fun method => "" :: method.lines)
      inClass :=
    outlines_flatMap fun method hmem =>
      (outlines_empty _).append (h.methods method hmem).outlines_lines
  have hend : Outlines inClass ["", "\x7d"] [] := by
    rw [← lineAt_zero "\x7d"]
    exact (outlines_empty _).append (.closing false [])
  rw [Program.lines_eq]
  exact hhead.append (((hfields.append hentry).append hmethods).append hend)

/-- The lines of the text of a program are those that it was put together from. -/
theorem Program.IsProper.splitLines_text {program : Program} (h : program.IsProper) :
    splitLines program.text = program.lines := by
  obtain ⟨depths, houtline, -⟩ := h.outlines_lines
  have hends := ne_lineEnd_of_outline? houtline
  exact splitLines_intercalate (fun line hmem c hc => (hends line hmem c hc).1) nofun

end BlockScript.Java
