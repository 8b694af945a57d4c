import BlockScript.Proofs.Nesting.Outline
import Mathlib.Data.List.Chain
import Mathlib.Tactic.Tauto
/-!
# What follows a return

What stands behind a line is decided by pairs of neighbouring lines. The line behind a return leaves
the block, or it is a break that leaves the block in turn, and every break has the label of a case
in front of it. A row of lines is described by what its last line asks of the line behind it, so
that rows can be put together.

## Main definitions

* `Java.isReturn`, `Java.isBreak`, `Java.isCase` — the lines of returns, breaks and cases
* `Java.Settled` — what may stand behind a return and behind a break
* `Java.Settles` — lines that are settled if the line behind them is right
* `Java.InOneBlock`, `Java.InCase` — where lines stand, by their depths

## Main results

* `Java.Settles.append` — lines in a row
* `Java.Settles.follows_return` — what follows a return in its block
-/

namespace BlockScript.Java

/-! ### Lines -/

/-- Whether a line is a return. A line that begins with a variable of the name `return` goes on with
an equals sign or a bracket, and a call of a function of that name with a parenthesis. -/
def isReturn (line : String) : Bool :=
  (contentOf line).takeWhile isWordPart == "return".toList &&
    match (contentOf line).dropWhile isWordPart with
    | [';'] => true
    | ' ' :: c :: _ => c != '='
    | _ => false

/-- Whether a line is a break. -/
def isBreak (line : String) : Bool :=
  contentOf line == "break;".toList

/-- Whether a line is the label of a case with a value. -/
def isCase (line : String) : Bool :=
  isLabel (contentOf line) && "case ".toList.isPrefixOf (contentOf line)

/-- A line that is neither a return nor a break. -/
def IsQuiet (line : String) : Prop :=
  isReturn line = false ∧ isBreak line = false

section

variable {level : Nat} {text : String} {word rest : List Char}

theorem dropWhile_append_of_head {p : Char → Bool} {cs rest : List Char}
    (hcs : ∀ c ∈ cs, p c = true) (hrest : ∀ c ∈ rest.head?, p c = false) :
    (cs ++ rest).dropWhile p = rest := by
  rw [List.dropWhile_append_of_pos hcs]
  cases rest with
  | nil => rfl
  | cons c rest => exact List.dropWhile_cons_of_neg (by simp [hrest c rfl])

/-- A text begins with a word, and goes on with something that is no part of the word. -/
structure Splits (text : String) (word rest : List Char) : Prop where
  toList_eq : text.toList = word ++ rest
  word : ∀ c ∈ word, isWordPart c = true
  rest : ∀ c ∈ rest.head?, isWordPart c = false
  head?_ne : text.toList.head? ≠ some ' '

namespace Splits

theorem takeWhile_eq (h : Splits text word rest) (level : Nat) :
    (contentOf (lineAt level text)).takeWhile isWordPart = word := by
  rw [contentOf_lineAt h.head?_ne, h.toList_eq, takeWhile_append_of_head h.word h.rest]

theorem dropWhile_eq (h : Splits text word rest) (level : Nat) :
    (contentOf (lineAt level text)).dropWhile isWordPart = rest := by
  rw [contentOf_lineAt h.head?_ne, h.toList_eq, dropWhile_append_of_head h.word h.rest]

theorem isBreak_eq_false (h : Splits text word rest) (level : Nat)
    (hne : word ≠ "break".toList ∨ rest ≠ [';']) : isBreak (lineAt level text) = false := by
  refine beq_false_of_ne fun heq => ?_
  have hword := h.takeWhile_eq level
  have hrest := h.dropWhile_eq level
  rw [heq] at hword hrest
  exact hne.elim (fun hne => hne hword.symm) fun hne => hne hrest.symm

/-- A line with another first word. -/
theorem isQuiet_of_word (h : Splits text word rest) (level : Nat) (hreturn : word ≠ "return".toList)
    (hbreak : word ≠ "break".toList) : IsQuiet (lineAt level text) := by
  refine ⟨?_, h.isBreak_eq_false level (.inl hbreak)⟩
  rw [isReturn, h.takeWhile_eq, beq_false_of_ne hreturn, Bool.false_and]

/-- A line whose first word is a name, whichever it is. -/
theorem isQuiet_of_rest (h : Splits text word rest) (level : Nat) (hrest : rest ≠ [';'])
    (hblank : ∀ c others, rest = ' ' :: c :: others → c = '=') : IsQuiet (lineAt level text) := by
  refine ⟨?_, h.isBreak_eq_false level (.inr hrest)⟩
  rw [isReturn, h.dropWhile_eq]
  split
  · exact absurd rfl hrest
  · rename_i c others
    rw [hblank c others rfl]
    simp
  · exact Bool.and_false _

end Splits

end

/-! ### Neighbouring lines -/

/-- A line that is less deep than a level. -/
def Leaves (level : Nat) (line : String) : Prop :=
  line ≠ "" ∧ indentation line < 4 * level

/-- A line that can stand behind the last line of a block of a given level. -/
def Closes (level : Nat) (line : String) : Prop :=
  Leaves level line ∨ isBreak line = true ∧ indentation line = 4 * level

/-- What may stand behind a return and behind a break. -/
def Settled (line next : String) : Prop :=
  ∀ level, indentation line = 4 * level →
    (isReturn line = true → Closes level next) ∧ (isBreak line = true → Leaves level next)

/-- Every break belongs to the group of a case with a value. -/
def BreaksInCases (lines : List String) : Prop :=
  ∀ before line after, lines = before ++ line :: after → isBreak line = true →
    ∃ outside label inside, before = outside ++ label :: inside ∧ isCase label = true ∧
      indentation label + 4 = indentation line ∧
        ∀ other ∈ inside, indentation line ≤ indentation other

/-- Lines of a level or deeper that are settled if the line behind them is right. -/
structure Settles (level : Nat) (next : String → Prop) (lines : List String) : Prop where
  deep : ∀ line ∈ lines, 4 * level ≤ indentation line
  isChain : ∀ rest, (∀ line ∈ rest.head?, next line) → rest.IsChain Settled →
    (lines ++ rest).IsChain Settled
  breaks : BreaksInCases lines

/-- Any line. -/
def Anything (_ : String) : Prop :=
  True

section

variable {level : Nat} {next next' : String → Prop} {line : String} {lines others : List String}

theorem IsQuiet.settled (h : IsQuiet line) (other : String) : Settled line other := by
  intro level _
  rw [h.1, h.2]
  exact ⟨nofun, nofun⟩

theorem isChain_cons_of_head (h : ∀ other ∈ lines.head?, Settled line other)
    (hlines : lines.IsChain Settled) : (line :: lines).IsChain Settled := by
  cases lines with
  | nil => exact .singleton line
  | cons other rest => exact .cons_cons (h other rfl) hlines

theorem BreaksInCases.nil : BreaksInCases [] := by
  intro before line after h
  simp at h

theorem BreaksInCases.append (h : BreaksInCases lines) (h' : BreaksInCases others) :
    BreaksInCases (lines ++ others) := by
  intro before line after hsplit hbreak
  obtain ⟨middle, rfl, hothers⟩ | ⟨middle, hlines, hafter⟩ :=
    List.append_eq_append_iff.mp hsplit
  · obtain ⟨outside, label, inside, rfl, hlabel⟩ := h' middle line after hothers hbreak
    exact ⟨lines ++ outside, label, inside, by simp, hlabel⟩
  · cases middle with
    | nil =>
      rw [List.append_nil] at hlines
      subst hlines
      obtain ⟨outside, label, inside, hnil, hlabel⟩ := h' [] line after hafter.symm hbreak
      simp at hnil
    | cons first middle =>
      obtain ⟨rfl, -⟩ := List.cons.inj hafter
      exact h before line middle hlines hbreak

theorem BreaksInCases.singleton (h : isBreak line = false) : BreaksInCases [line] := by
  intro before other after hsplit hbreak
  have hmem : other ∈ [line] := by
    rw [hsplit]
    simp
  rw [List.mem_singleton.mp hmem, h] at hbreak
  cases hbreak

/-- The break at the end of a group belongs to it. -/
theorem BreaksInCases.group {label : String} (h : BreaksInCases lines)
    (hlabel : isBreak label = false)
    (hcase : isCase label = true) (hlevel : indentation label + 4 = indentation line)
    (hdeep : ∀ other ∈ lines, indentation line ≤ indentation other) :
    BreaksInCases (label :: lines ++ [line]) := by
  intro before other after hsplit hbreak
  obtain ⟨middle, rfl, hothers⟩ | ⟨middle, hlines, hafter⟩ :=
    List.append_eq_append_iff.mp hsplit
  · cases middle with
    | nil =>
      obtain ⟨rfl, -⟩ := List.cons.inj hothers
      exact ⟨[], label, lines, by simp, hcase, hlevel, hdeep⟩
    | cons first middle => simp at hothers
  · cases middle with
    | nil =>
      obtain ⟨rfl, -⟩ := List.cons.inj hafter
      rw [List.append_nil] at hlines
      exact ⟨[], label, lines, hlines.symm, hcase, hlevel, hdeep⟩
    | cons first middle =>
      obtain ⟨rfl, -⟩ := List.cons.inj hafter
      exact (singleton hlabel).append h before other middle hlines hbreak

namespace Settles

theorem nil (level : Nat) (next : String → Prop) : Settles level next [] :=
  ⟨fun _ hmem => absurd hmem List.not_mem_nil, fun _ _ hrest => hrest, .nil⟩

/-- Lines in a row: the second ones begin with what the first ones ask for, and if there are none,
what stands behind them does. -/
theorem append (h : Settles level next lines) (h' : Settles level next' others)
    (hhead : ∀ line ∈ others.head?, next line)
    (hnext : others = [] → ∀ line, next' line → next line) :
    Settles level next' (lines ++ others) where
  deep := List.forall_mem_append.mpr ⟨h.deep, h'.deep⟩
  isChain rest hrest hchain := by
    rw [List.append_assoc]
    refine h.isChain _ (fun line hline => ?_) (h'.isChain rest hrest hchain)
    cases others with
    | nil => exact hnext rfl line (hrest line hline)
    | cons first others => exact hhead line hline
  breaks := h.breaks.append h'.breaks

theorem passes (h : Settles level Anything lines) (h' : Settles level next' others) :
    Settles level next' (lines ++ others) :=
  h.append h' (fun _ _ => trivial) fun _ _ _ => trivial

theorem weaken (h : Settles level next lines) (hnext : ∀ line, next' line → next line) :
    Settles level next' lines where
  deep := h.deep
  isChain rest hrest := h.isChain rest fun line hline => hnext line (hrest line hline)
  breaks := h.breaks

/-- Lines that are deeper still. -/
theorem outer (h : Settles (level + 1) next lines) : Settles level next lines where
  deep line hmem := Nat.le_trans (by omega) (h.deep line hmem)
  isChain := h.isChain
  breaks := h.breaks

theorem quiet (hquiet : IsQuiet line) (hlevel : indentation line = 4 * level) :
    Settles level Anything [line] where
  deep := List.forall_mem_singleton.mpr (Nat.le_of_eq hlevel.symm)
  isChain _ _ := isChain_cons_of_head fun other _ => hquiet.settled other
  breaks := .singleton hquiet.2

/-- A line that may be a return. -/
theorem exit (hbreak : isBreak line = false) (hlevel : indentation line = 4 * level) :
    Settles level (Closes level) [line] where
  deep := List.forall_mem_singleton.mpr (Nat.le_of_eq hlevel.symm)
  isChain rest hrest := by
    refine isChain_cons_of_head fun other hother own hown => ?_
    obtain rfl : own = level := by omega
    rw [hbreak]
    exact ⟨fun _ => hrest other hother, nofun⟩
  breaks := .singleton hbreak

end Settles

end

/-! ### Lines with their depths -/

/-- A line stands behind another one in the same block: no line between them is less deep. -/
def InOneBlock (line : String × Nat) (between : List (String × Nat))
    (other : String × Nat) : Prop :=
  other.2 = line.2 ∧ ∀ inner ∈ between, line.2 ≤ inner.2

/-- Behind the given lines, a line of the given depth stands in the group of a case with a value. -/
def InCase (before : List (String × Nat)) (depth : Nat) : Prop :=
  ∃ outside label inside, before = outside ++ label :: inside ∧ isCase label.1 = true ∧
    label.2 + 1 = depth ∧ ∀ inner ∈ inside, depth ≤ inner.2

section

variable {lines : List String} {depths : List Nat} {a b : String × Nat}
  {before between after : List (String × Nat)}

theorem ne_empty_of_isReturn {line : String} (h : isReturn line = true) : line ≠ "" := by
  rintro rfl
  exact absurd h (by decide)

theorem ne_empty_of_isCase {line : String} (h : isCase line = true) : line ≠ "" := by
  rintro rfl
  exact absurd h (by decide)

/-- A line that is less deep than a level by its blanks is so by its depth. -/
theorem Leaves.lt {line : String × Nat} {level : Nat} (h : Leaves level line.1)
    (hindented : IsIndented line.1 line.2) : line.2 < level := by
  have hlevel := hindented h.1
  have hlt := h.2
  omega

theorem ne_empty_of_isBreak {line : String} (h : isBreak line = true) : line ≠ "" := by
  rintro rfl
  exact absurd h (by decide)

theorem ne_empty_of_lt_indentation {line : String} {n : Nat} (h : n < indentation line) :
    line ≠ "" := by
  rintro rfl
  exact absurd h (Nat.not_lt_zero n)

/-- A break behind a return is the last line of its block. -/
theorem eq_nil_of_isChain (hpairs : ∀ line ∈ a :: (between ++ b :: after), IsIndented line.1 line.2)
    (hchain : ((a :: (between ++ b :: after)).map Prod.fst).IsChain Settled)
    (hreturn : isReturn a.1 = true) (hblock : InOneBlock a between b) :
    between = [] ∧ isBreak b.1 = true := by
  obtain ⟨hdepth, hbetween⟩ := hblock
  have ha := hpairs a List.mem_cons_self (ne_empty_of_isReturn hreturn)
  have hinside : ∀ line ∈ between ++ [b], ¬Leaves a.2 line.1 := by
    intro line hmem hleaves
    have hlt : line.2 < a.2 := hleaves.lt (hpairs line (by simp at hmem ⊢; tauto))
    rcases List.mem_append.mp hmem with hline | hline
    · exact absurd (hbetween line hline) (Nat.not_le_of_lt hlt)
    · rw [List.mem_singleton.mp hline, hdepth] at hlt
      exact absurd hlt (Nat.lt_irrefl _)
  cases between with
  | nil =>
    obtain ⟨hsettled, -⟩ := List.isChain_cons_cons.mp hchain
    rcases (hsettled a.2 ha).1 hreturn with hleaves | ⟨hbreak, -⟩
    · exact absurd hleaves (hinside b (by simp))
    · exact ⟨rfl, hbreak⟩
  | cons x rest =>
    -- the line behind the break would be in the block as well
    exfalso
    obtain ⟨hsettled, hchain⟩ := List.isChain_cons_cons.mp hchain
    rcases (hsettled a.2 ha).1 hreturn with hleaves | ⟨hbreak, hx⟩
    · exact hinside x (by simp) hleaves
    · cases rest with
      | nil =>
        obtain ⟨hsettled, -⟩ := List.isChain_cons_cons.mp hchain
        exact hinside b (by simp) ((hsettled a.2 hx).2 hbreak)
      | cons y rest =>
        obtain ⟨hsettled, -⟩ := List.isChain_cons_cons.mp hchain
        exact hinside y (by simp) ((hsettled a.2 hx).2 hbreak)

/-- A break behind a return is that of the group around them. -/
theorem BreaksInCases.inCase (h : BreaksInCases lines)
    (hlines : lines = (before ++ a :: b :: after).map Prod.fst)
    (hpairs : ∀ line ∈ before ++ a :: b :: after, IsIndented line.1 line.2)
    (hreturn : isReturn a.1 = true) (hbreak : isBreak b.1 = true) (hdepth : b.2 = a.2) :
    InCase before a.2 := by
  have ha := hpairs a (by simp) (ne_empty_of_isReturn hreturn)
  have hb := hpairs b (by simp) (ne_empty_of_isBreak hbreak)
  obtain ⟨outside, label, inside, hsplit, hcase, hlevel, hdeep⟩ :=
    h ((before ++ [a]).map Prod.fst) b.1 (after.map Prod.fst) (by simp [hlines]) hbreak
  obtain ⟨outer, others, hpieces, rfl, hothers⟩ := List.map_eq_append_iff.mp hsplit
  obtain ⟨own, inner, rfl, rfl, rfl⟩ := List.map_eq_cons_iff.mp hothers
  have hpieces' : ∀ line ∈ outer ++ own :: inner, IsIndented line.1 line.2 := by
    intro line hmem
    rw [← hpieces] at hmem
    exact hpairs line (by simp at hmem ⊢; tauto)
  have hown := hpieces' own (by simp) (ne_empty_of_isCase hcase)
  rcases List.eq_nil_or_concat inner with rfl | ⟨rest, last, rfl⟩
  · -- the return itself would be the label
    obtain ⟨-, hlast⟩ := List.append_inj' hpieces rfl
    cases hlast
    omega
  · have hlines : before ++ [a] = (outer ++ own :: rest) ++ [last] := by simpa using hpieces
    obtain ⟨hbefore, -⟩ := List.append_inj' hlines rfl
    refine ⟨outer, own, rest, hbefore, hcase, by omega, fun line hmem => ?_⟩
    have hline := hdeep line.1 (List.mem_map_of_mem (by simp [hmem]))
    have hblanks := hpieces' line (by simp [hmem])
      (ne_empty_of_lt_indentation (n := 0) (by omega))
    omega

/-- In lines that are settled, what follows a return in its block is the break of its group. -/
theorem Settles.follows_return (h : Settles 0 Anything lines)
    (hindented : List.Forall₂ IsIndented lines depths)
    (hsplit : lines.zip depths = before ++ a :: (between ++ b :: after))
    (hreturn : isReturn a.1 = true) (hblock : InOneBlock a between b) :
    between = [] ∧ isBreak b.1 = true ∧ InCase before a.2 := by
  obtain ⟨hlength, hzip⟩ := List.forall₂_iff_zip.mp hindented
  have hpairs : ∀ line ∈ before ++ a :: (between ++ b :: after), IsIndented line.1 line.2 :=
    fun line hmem => hzip (hsplit ▸ hmem)
  have hlines : lines = (before ++ a :: (between ++ b :: after)).map Prod.fst := by
    rw [← hsplit, List.map_fst_zip (Nat.le_of_eq hlength)]
  have hchain : lines.IsChain Settled := by
    have hall := h.isChain [] nofun .nil
    rwa [List.append_nil] at hall
  rw [hlines, List.map_append] at hchain
  have hbehind : ∀ line ∈ a :: (between ++ b :: after), IsIndented line.1 line.2 :=
    fun line hmem => hpairs line (List.mem_append_right before hmem)
  obtain ⟨rfl, hbreak⟩ := eq_nil_of_isChain hbehind hchain.right_of_append hreturn hblock
  exact ⟨rfl, hbreak, h.breaks.inCase hlines hpairs hreturn hbreak hblock.1⟩

end

end BlockScript.Java
