import BlockScript.Proofs.Java.Lexer
import Mathlib.Data.List.Forall2
/-!
# The outline of a Java text

A reader goes through the lines of a text and keeps the brackets that are open. Brackets in literals
do not count; a closing bracket has to fit the innermost open one, and no literal goes on behind the
end of its line. A line is as deep as there are open braces around it, and one level deeper for each
brace in which a group of a switch has begun. Labels stand outside of their groups, and a line that
begins with a closing brace stands outside of the brace.

## Main definitions

* `Java.Bracket`, `Java.Position` — where a reader stands
* `Java.outline?` — how deep the lines of a text are, and the brackets that are open behind them
* `Java.Outlines` — lines that are indented by their depths

## Main results

* `Java.Outlines.append` — lines in a row
* `Java.Outlines.code`, `Java.Outlines.closing`, `Java.Outlines.label` — the lines of a printed
  program
-/

namespace BlockScript.Java

/-! ### Brackets -/

/-- An open bracket. -/
inductive Bracket where
  | parenthesis
  | square
  /-- A brace, with whether a group of a switch has begun in it. -/
  | brace (inGroup : Bool)
  deriving DecidableEq, Repr

namespace Bracket

/-- The bracket that a character opens. -/
def ofOpening? : Char → Option Bracket
  | '(' => some parenthesis
  | '[' => some square
  | '\x7b' => some (brace false)
  | _ => none

/-- The character that closes a bracket. -/
def closing : Bracket → Char
  | parenthesis => ')'
  | square => ']'
  | brace _ => '\x7d'

/-- How many levels deeper the lines behind a bracket are. -/
def levels : Bracket → Nat
  | parenthesis | square => 0
  | brace false => 1
  | brace true => 2

end Bracket

/-- How deep a line is between the given brackets. -/
def depth : List Bracket → Nat
  | [] => 0
  | bracket :: outer => depth outer + bracket.levels

@[simp]
theorem depth_inBrace (outer : List Bracket) : depth (.brace false :: outer) = depth outer + 1 :=
  rfl

/-! ### Reading -/

/-- Whether a reader is inside a literal. -/
inductive Mode where
  | code
  | quoted (quote : Char)
  /-- Behind a backslash in a literal. -/
  | escaped (quote : Char)
  deriving DecidableEq, Repr

/-- Where a reader stands in a line. -/
structure Position where
  /-- Whether it is inside a literal. -/
  mode : Mode
  /-- The brackets that are open, the innermost first. -/
  opened : List Bracket
  deriving DecidableEq, Repr

/-- Reads one character of a line. -/
def Position.step? (place : Position) (c : Char) : Option Position :=
  if c = '\n' ∨ c = '\r' then none
  else match place.mode with
    | .escaped quote => some { place with mode := .quoted quote }
    | .quoted quote =>
      if c = quote then some { place with mode := .code }
      else if c = '\\' then some { place with mode := .escaped quote }
      else some place
    | .code =>
      if c = '\'' ∨ c = '"' then some { place with mode := .quoted c }
      else match Bracket.ofOpening? c with
        | some bracket => some { place with opened := bracket :: place.opened }
        | none =>
          if c = ')' ∨ c = ']' ∨ c = '\x7d' then
            match place.opened with
            | [] => none
            | bracket :: outer =>
              if c = bracket.closing then some { place with opened := outer } else none
          else some place

/-- The brackets that are open behind a text without line ends, if no literal is. -/
def openedBehind? (opened : List Bracket) (cs : List Char) : Option (List Bracket) :=
  match cs.foldlM Position.step? ⟨.code, opened⟩ with
  | some ⟨.code, behind⟩ => some behind
  | _ => none

/-! ### Lines -/

/-- The lines of a text. -/
def splitLines (text : String) : List String :=
  (text.toList.splitOn '\n').map String.ofList

/-- A line without the blanks in front of it. -/
def contentOf (line : String) : List Char :=
  line.toList.dropWhile (· == ' ')

/-- Whether a line is the label of a group of a switch. -/
def isLabel (content : List Char) : Bool :=
  content.getLast? == some ':' &&
    (content == "default:".toList || "case ".toList.isPrefixOf content)

/-- The brackets that are open, with or without a group in the innermost brace. -/
def withGroup (inGroup : Bool) : List Bracket → List Bracket
  | .brace _ :: outer => .brace inGroup :: outer
  | opened => opened

/-- How deep a line is that begins where some brackets are open. -/
def depthOf (opened : List Bracket) (content : List Char) : Nat :=
  if isLabel content then depth (withGroup false opened)
  else if content.head? = some '\x7d' then depth opened.tail
  else depth opened

/-- How deep the lines of a text are, and which brackets are open behind them. A label begins a
group in the innermost brace. -/
def outline? (opened : List Bracket) : List String → Option (List Nat × List Bracket)
  | [] => some ([], opened)
  | line :: rest => do
    let behind ← openedBehind? opened line.toList
    let next := if isLabel (contentOf line) then withGroup true behind else behind
    let (depths, after) ← outline? next rest
    return (depthOf opened (contentOf line) :: depths, after)

/-- How many blanks a line begins with. -/
def indentation (line : String) : Nat :=
  (line.toList.takeWhile (· == ' ')).length

/-- A line has four blanks for each level, unless it is empty. -/
def IsIndented (line : String) (depth : Nat) : Prop :=
  line ≠ "" → indentation line = 4 * depth

instance {line : String} {depth : Nat} : Decidable (IsIndented line depth) :=
  inferInstanceAs (Decidable (_ → _))

/-- Lines that lead from some open brackets to others, and are indented by their depths. -/
def Outlines (opened : List Bracket) (lines : List String) (after : List Bracket) : Prop :=
  ∃ depths, outline? opened lines = some (depths, after) ∧ List.Forall₂ IsIndented lines depths

/-! ### Pieces of lines -/

/-- A piece of code leads from some open brackets to others. -/
def Reads (opened : List Bracket) (cs : List Char) (behind : List Bracket) : Prop :=
  cs.foldlM Position.step? ⟨.code, opened⟩ = some ⟨.code, behind⟩

/-- A piece of code that leaves the open brackets as they are, whatever they are. -/
def IsNeutral (cs : List Char) : Prop :=
  ∀ opened, Reads opened cs opened

/-- The characters that mean something to the reader. -/
def marks : List Char :=
  ['(', ')', '[', ']', '\x7b', '\x7d', '\'', '"', '\n', '\r']

section

variable {opened middle behind : List Bracket} {bracket : Bracket} {cs others : List Char}
  {c : Char}

theorem Reads.openedBehind? (h : Reads opened cs behind) :
    openedBehind? opened cs = some behind := by
  rw [Java.openedBehind?, h]

theorem Reads.append (h : Reads opened cs middle) (h' : Reads middle others behind) :
    Reads opened (cs ++ others) behind := by
  rw [Reads, List.foldlM_append, h]
  exact h'

/-- The same for pieces that are given as texts. -/
theorem Reads.inText {text : String} (h : Reads opened text.toList middle) (next : String)
    (h' : Reads middle next.toList behind) : Reads opened (text ++ next).toList behind := by
  rw [String.toList_append]
  exact h.append h'

theorem IsNeutral.nil : IsNeutral [] :=
  fun _ => rfl

theorem IsNeutral.append (h : IsNeutral cs) (h' : IsNeutral others) : IsNeutral (cs ++ others) :=
  fun opened => (h opened).append (h' opened)

theorem step?_plain (h : c ∉ marks) (opened : List Bracket) :
    Position.step? ⟨.code, opened⟩ c = some ⟨.code, opened⟩ := by
  simp only [marks, List.mem_cons, List.not_mem_nil, or_false, not_or] at h
  have hopening : Bracket.ofOpening? c = none := by
    unfold Bracket.ofOpening?
    split <;> simp_all
  simp [Position.step?, hopening, h]

/-- Characters that mean nothing to the reader are passed over. -/
theorem isNeutral_plain (h : ∀ c ∈ cs, c ∉ marks) : IsNeutral cs := by
  induction cs with
  | nil => exact .nil
  | cons c rest ih =>
    obtain ⟨hc, hrest⟩ := List.forall_mem_cons.mp h
    intro opened
    rw [Reads, List.foldlM_cons, step?_plain hc]
    exact ih hrest opened

/-- A class of characters that mean nothing to the reader. -/
theorem isNeutral_class {p : Char → Bool} (hp : marks.any p = false) (h : ∀ c ∈ cs, p c = true) :
    IsNeutral cs :=
  isNeutral_plain fun c hc hmem => List.any_eq_false.mp hp c hmem (h c hc)

theorem reads_opening (h : Bracket.ofOpening? c = some bracket) (opened : List Bracket) :
    Reads opened [c] (bracket :: opened) := by
  unfold Bracket.ofOpening? at h
  split at h <;> cases h <;> rfl

theorem reads_closing (bracket : Bracket) (opened : List Bracket) :
    Reads (bracket :: opened) [bracket.closing] opened := by
  cases bracket <;> rfl

/-- What stands in brackets is as neutral as the brackets are. -/
theorem IsNeutral.inBrackets (h : IsNeutral cs) (hopening : Bracket.ofOpening? c = some bracket) :
    IsNeutral (c :: cs ++ [bracket.closing]) :=
  fun opened => ((reads_opening hopening opened).append (h _)).append (reads_closing bracket opened)

end

/-! ### Printed lines -/

section

variable {opened middle after : List Bracket} {lines others : List String} {text : String}
  {content : List Char}

theorem toList_lineAt (level : Nat) (text : String) :
    (lineAt level text).toList = List.replicate (4 * level) ' ' ++ text.toList := by
  rw [lineAt, String.toList_append, String.toList_ofList]

theorem contentOf_lineAt (h : text.toList.head? ≠ some ' ') (level : Nat) :
    contentOf (lineAt level text) = text.toList := by
  have hblanks : ∀ c ∈ List.replicate (4 * level) ' ', (c == ' ') = true :=
    fun c hc => beq_iff_eq.mpr (List.eq_of_mem_replicate hc)
  rw [contentOf, toList_lineAt, List.dropWhile_append_of_pos hblanks]
  cases hchars : text.toList with
  | nil => rfl
  | cons c rest =>
    refine List.dropWhile_cons_of_neg fun hc => h ?_
    rw [hchars, beq_iff_eq.mp hc]
    rfl

theorem indentation_lineAt (h : text.toList.head? ≠ some ' ') (level : Nat) :
    indentation (lineAt level text) = 4 * level := by
  have hblanks : ∀ c ∈ List.replicate (4 * level) ' ', (c == ' ') = true :=
    fun c hc => beq_iff_eq.mpr (List.eq_of_mem_replicate hc)
  have hrest : ∀ c ∈ text.toList.head?, (c == ' ') = false := by
    intro c hc
    refine beq_false_of_ne fun heq => h ?_
    rw [Option.mem_def.mp hc, heq]
  rw [indentation, toList_lineAt, takeWhile_append_of_head hblanks hrest, List.length_replicate]

theorem isIndented_lineAt (h : text.toList.head? ≠ some ' ') (level : Nat) :
    IsIndented (lineAt level text) level :=
  fun _ => indentation_lineAt h level

theorem isNeutral_blanks (level : Nat) : IsNeutral (List.replicate (4 * level) ' ') :=
  isNeutral_class (p := (· == ' ')) (by decide) fun _ hc =>
    beq_iff_eq.mpr (List.eq_of_mem_replicate hc)

/-- Whether a text begins like a name. -/
def BeginsWithWord (text : String) : Prop :=
  ∃ c ∈ text.toList.head?, isWordStart c = true

theorem BeginsWithWord.head?_ne {c : Char} (h : BeginsWithWord text) (hc : isWordStart c = false) :
    text.toList.head? ≠ some c := by
  obtain ⟨d, hd, hword⟩ := h
  rw [Option.mem_def.mp hd]
  rintro ⟨⟩
  rw [hc] at hword
  cases hword

theorem BeginsWithWord.head?_ne_blank (h : BeginsWithWord text) : text.toList.head? ≠ some ' ' :=
  h.head?_ne (by decide)

theorem BeginsWithWord.head?_ne_brace (h : BeginsWithWord text) :
    text.toList.head? ≠ some '\x7d' :=
  h.head?_ne (by decide)

theorem isLabel_eq_false (h : content.getLast? ≠ some ':') : isLabel content = false := by
  rw [isLabel, beq_false_of_ne h, Bool.false_and]

/-- The reader does not get past the end of a line. -/
theorem ne_lineEnd_of_foldlM {place behind : Position} {cs : List Char}
    (h : cs.foldlM Position.step? place = some behind) : ∀ c ∈ cs, c ≠ '\n' ∧ c ≠ '\r' := by
  induction cs generalizing place with
  | nil => exact fun _ hmem => absurd hmem List.not_mem_nil
  | cons c rest ih =>
    rw [List.foldlM_cons] at h
    obtain ⟨next, hstep, hrest⟩ := Option.bind_eq_some_iff.mp h
    refine List.forall_mem_cons.mpr ⟨not_or.mp fun hend => ?_, ih hrest⟩
    rw [Position.step?, if_pos hend] at hstep
    cases hstep

theorem ne_lineEnd_of_openedBehind? {behind : List Bracket} {cs : List Char}
    (h : openedBehind? opened cs = some behind) : ∀ c ∈ cs, c ≠ '\n' ∧ c ≠ '\r' := by
  unfold openedBehind? at h
  split at h
  · rename_i hread
    exact ne_lineEnd_of_foldlM hread
  · cases h

/-- No line that the reader goes through has the end of a line inside. -/
theorem ne_lineEnd_of_outline? {depths : List Nat}
    (h : outline? opened lines = some (depths, after)) :
    ∀ line ∈ lines, ∀ c ∈ line.toList, c ≠ '\n' ∧ c ≠ '\r' := by
  induction lines generalizing opened depths with
  | nil => exact fun _ hmem => absurd hmem List.not_mem_nil
  | cons line rest ih =>
    obtain ⟨behind, hbehind, h⟩ := Option.bind_eq_some_iff.mp h
    obtain ⟨⟨depths, last⟩, hrest, h⟩ := Option.bind_eq_some_iff.mp h
    cases h
    exact List.forall_mem_cons.mpr ⟨ne_lineEnd_of_openedBehind? hbehind, ih hrest⟩

/-- A text is split where its lines were put together. -/
theorem splitLines_intercalate (hlines : ∀ line ∈ lines, ∀ c ∈ line.toList, c ≠ '\n')
    (hne : lines ≠ []) : splitLines ("\n".intercalate lines) = lines := by
  have hnone : ∀ cs ∈ lines.map String.toList, '\n' ∉ cs := by
    rw [List.forall_mem_map]
    exact fun line hmem hend => hlines line hmem _ hend rfl
  have hsplit := List.splitOn_intercalate '\n' hnone (by simpa using hne)
  rw [splitLines, String.toList_intercalate]
  refine (congrArg (List.map String.ofList) hsplit).trans ?_
  simp [Function.comp_def]

namespace Outlines

theorem nil (opened : List Bracket) : Outlines opened [] opened :=
  ⟨[], rfl, .nil⟩

theorem append (h : Outlines opened lines middle) (h' : Outlines middle others after) :
    Outlines opened (lines ++ others) after := by
  obtain ⟨depths, hdepths, hlines⟩ := h
  obtain ⟨depths', hdepths', hothers⟩ := h'
  refine ⟨depths ++ depths', ?_, List.rel_append hlines hothers⟩
  clear hlines hothers
  induction lines generalizing opened depths with
  | nil =>
    cases hdepths
    exact hdepths'
  | cons line rest ih =>
    obtain ⟨behind, hbehind, hdepths⟩ := Option.bind_eq_some_iff.mp hdepths
    obtain ⟨⟨depths, last⟩, hrest, hdepths⟩ := Option.bind_eq_some_iff.mp hdepths
    cases hdepths
    have hboth := ih _ hrest
    simp only [List.cons_append, outline?, hbehind, hboth, Option.bind_eq_bind, Option.bind_some]
    rfl

/-- One line that is no label. -/
theorem line (opened : List Bracket) (text : String) (hcontent : text.toList.head? ≠ some ' ')
    (hlast : text.toList.getLast? ≠ some ':') (hreads : Reads opened text.toList after) :
    Outlines opened [lineAt (depthOf opened text.toList) text] after := by
  have hbehind : openedBehind? opened (lineAt (depthOf opened text.toList) text).toList =
      some after := by
    rw [toList_lineAt]
    exact ((isNeutral_blanks _ opened).append hreads).openedBehind?
  refine ⟨[_], ?_, .cons (isIndented_lineAt hcontent _) .nil⟩
  rw [outline?, hbehind, contentOf_lineAt hcontent, isLabel_eq_false hlast]
  rfl

/-- A line that begins with a word and is no label. -/
theorem code (hstart : BeginsWithWord text) (hlast : text.toList.getLast? ≠ some ':')
    (hreads : Reads opened text.toList after) :
    Outlines opened [lineAt (depth opened) text] after := by
  have hline := line opened text hstart.head?_ne_blank hlast hreads
  rwa [depthOf, isLabel_eq_false hlast, if_neg Bool.false_ne_true,
    if_neg hstart.head?_ne_brace] at hline

/-- A line that begins with the closing brace of what is around it. -/
theorem closing (inGroup : Bool) (outer : List Bracket) :
    Outlines (.brace inGroup :: outer) [lineAt (depth outer) "\x7d"] outer :=
  line (.brace inGroup :: outer) "\x7d" (by decide) (by decide) rfl

/-- A line that closes a brace and opens another one. -/
theorem reopening (inGroup : Bool) (outer : List Bracket) :
    Outlines (.brace inGroup :: outer) [lineAt (depth outer) "\x7d else \x7b"]
      (.brace false :: outer) :=
  line (.brace inGroup :: outer) "\x7d else \x7b" (by decide) (by decide) rfl

/-- A label stands one level inside of its brace, and a group begins behind it. -/
theorem label (hlabel : isLabel text.toList = true) (hstart : BeginsWithWord text)
    (hneutral : IsNeutral text.toList) (inGroup : Bool) (outer : List Bracket) :
    Outlines (.brace inGroup :: outer) [lineAt (depth outer + 1) text] (.brace true :: outer) := by
  have hbehind : openedBehind? (.brace inGroup :: outer) (lineAt (depth outer + 1) text).toList =
      some (.brace inGroup :: outer) := by
    rw [toList_lineAt]
    exact (((isNeutral_blanks _).append hneutral) _).openedBehind?
  refine ⟨[_], ?_, .cons (isIndented_lineAt hstart.head?_ne_blank _) .nil⟩
  rw [outline?, hbehind, contentOf_lineAt hstart.head?_ne_blank, hlabel, depthOf, hlabel]
  rfl

end Outlines

end

end BlockScript.Java
