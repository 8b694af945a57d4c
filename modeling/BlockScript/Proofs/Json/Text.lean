import BlockScript.Json.Reader
import BlockScript.Json.Writer
/-!
# JSON values and their texts

A JSON value without numbers can be read back from its text, whatever the strings in it hold. The
text has no carriage returns, so that reading it with any end of line changes nothing.

## Main definitions

* `Json.IsPlain` — a value without numbers

## Main results

* `Json.readString_quoted` — strings are read back character by character
* `Json.readValue_indentedAt` — a value is read back in front of any rest
* `Json.read_indented` — a text denotes the value that it was written for
* `Json.return_not_mem_indented` — no text has a carriage return
-/

namespace BlockScript.Json

open Text

/-! ### Strings -/

theorem hexValue?_digitChar : ∀ d < 16, hexValue? (Nat.digitChar d) = some d := by
  decide

/-- Four hexadecimal digits denote the number that they were written for. -/
theorem hexQuad?_hexDigits {n : Nat} (h : n < 0x10000) (rest : List Char) :
    hexQuad? (hexDigits 4 n ++ rest) = some (n, rest) := by
  have hdigit : ∀ m, hexValue? (Nat.digitChar (m % 16)) = some (m % 16) :=
    fun m => hexValue?_digitChar _ (Nat.mod_lt _ (by decide))
  simp only [hexDigits, List.nil_append, List.cons_append, hexQuad?, hdigit]
  congr 2
  omega

theorem numberedEscape?_hexDigits {c : Char} (h : c.toNat < 0x20) (rest : List Char) :
    numberedEscape? (hexDigits 4 c.toNat ++ rest) = some (c, rest) := by
  rw [numberedEscape?, hexQuad?_hexDigits (by omega)]
  simp only [Option.map_some]
  rw [if_neg (by omega), if_neg (by omega), Char.ofNat_toNat]

/-- One written character is read as it was. -/
theorem readString_stringChar (bound : Nat) (done : List Char) (c : Char) (rest : List Char) :
    readString (bound + 1) done (stringChar c ++ rest) = readString bound (c :: done) rest := by
  unfold stringChar
  split
  -- the characters with escapes of their own
  all_goals try rfl
  next hquote hbackslash _ _ _ _ _ =>
    split
    next hcontrol =>
      simp only [List.cons_append, readString, numberedEscape?_hexDigits hcontrol]
    next hcontrol =>
      rw [List.singleton_append, readString.eq_6]
      · rw [if_neg hbackslash, if_neg hcontrol]
      all_goals grind

/-- The inside of a string is read up to the quote behind it. -/
theorem readString_flatMap (text : List Char) (bound : Nat) (done rest : List Char)
    (hbound : text.length ≤ bound) :
    readString bound done (text.flatMap stringChar ++ '"' :: rest) =
      .ok (String.ofList (done.reverse ++ text), rest) := by
  induction text generalizing bound done with
  | nil =>
    rw [List.append_nil]
    cases bound <;> rfl
  | cons c text ih =>
    rw [List.length_cons] at hbound
    obtain ⟨bound, rfl⟩ := Nat.exists_eq_add_of_le' (Nat.lt_of_lt_of_le (Nat.succ_pos _) hbound)
    rw [List.flatMap_cons, List.append_assoc, readString_stringChar, ih bound _ (by omega)]
    simp

theorem toList_quotedString (text : String) :
    (quotedString text).toList = '"' :: (text.toList.flatMap stringChar ++ ['"']) := by
  rw [quotedString, String.toList_ofList, List.cons_append]

theorem one_le_length_stringChar (c : Char) : 1 ≤ (stringChar c).length := by
  unfold stringChar
  split
  all_goals try exact Nat.le_add_left 1 _
  split <;> exact Nat.le_add_left 1 _

theorem length_le_length_flatMap (text : List Char) :
    text.length ≤ (text.flatMap stringChar).length := by
  induction text with
  | nil => exact Nat.le_refl 0
  | cons c text ih =>
    have hc := one_le_length_stringChar c
    rw [List.flatMap_cons, List.length_append, List.length_cons]
    omega

/-- A string is read up to its end. -/
theorem readString_text (text : String) {bound : Nat}
    (hbound : (text.toList.flatMap stringChar).length ≤ bound) (rest : List Char) :
    readString bound [] (text.toList.flatMap stringChar ++ '"' :: rest) = .ok (text, rest) := by
  have hlength := length_le_length_flatMap text.toList
  rw [readString_flatMap _ _ _ _ (by omega), List.reverse_nil, List.nil_append,
    String.ofList_toList]

/-! ### Lines -/

theorem skipSpace_of_isSpace_eq_false {c : Char} (h : isSpace c = false) (rest : List Char) :
    skipSpace (c :: rest) = c :: rest := by
  simp [skipSpace, h]

/-- The beginning of a line is skipped. -/
theorem skipSpace_lineStart (depth : Nat) (rest : List Char) :
    skipSpace ((lineStart depth).toList ++ rest) = skipSpace rest := by
  have hall : ∀ c ∈ '\n' :: List.replicate (2 * depth) ' ', isSpace c = true := by
    intro c hc
    rcases List.mem_cons.mp hc with rfl | hc
    · rfl
    · rw [List.eq_of_mem_replicate hc]
      rfl
  rw [lineStart, String.toList_ofList, skipSpace, List.dropWhile_append_of_pos hall, skipSpace]

theorem skipSpace_blank (rest : List Char) : skipSpace (' ' :: rest) = skipSpace rest :=
  rfl

/-! ### Values -/

mutual

/-- Whether a value holds no numbers. -/
def IsPlain : Json → Prop
  | null | boolean _ | string _ => True
  | integer _ | real _ | special _ => False
  | array items => AllPlain items
  | object members => MembersPlain members

/-- Whether several values hold no numbers. -/
def AllPlain : List Json → Prop
  | [] => True
  | item :: rest => item.IsPlain ∧ AllPlain rest

/-- Whether the values of several members hold no numbers. -/
def MembersPlain : List (String × Json) → Prop
  | [] => True
  | (_, value) :: rest => value.IsPlain ∧ MembersPlain rest

end

/-- What separates the lines between brackets. -/
def lineBreak (depth : Nat) : String :=
  "," ++ lineStart depth

theorem toList_bracketed (opening closing : Char) (depth : Nat) {lines : List String}
    (hlines : lines ≠ []) :
    (bracketed (String.singleton opening) (String.singleton closing) depth lines).toList =
      opening :: ((lineStart (depth + 1)).toList ++
        (((lineBreak (depth + 1)).intercalate lines).toList ++
          ((lineStart depth).toList ++ [closing]))) := by
  obtain ⟨line, lines, rfl⟩ := List.exists_cons_of_ne_nil hlines
  simp only [bracketed, lineBreak, String.toList_append, String.toList_singleton,
    List.append_assoc, List.cons_append, List.nil_append]

/-- The first of several lines, and what separates it from the others. -/
theorem toList_intercalate_cons_cons (depth : Nat) (line next : String) (lines : List String) :
    ((lineBreak depth).intercalate (line :: next :: lines)).toList =
      line.toList ++ ',' :: ((lineStart depth).toList ++
        ((lineBreak depth).intercalate (next :: lines)).toList) := by
  have hbreak : (lineBreak depth).toList = ',' :: (lineStart depth).toList := by
    rw [lineBreak, String.toList_append]
    rfl
  rw [String.intercalate_cons_cons, String.toList_append, String.toList_append, hbreak,
    List.append_assoc, List.cons_append]

theorem toList_indentedAt_array_nil (depth : Nat) :
    (indentedAt depth (array [])).toList = ['[', ']'] := by
  rw [indentedAt, indentedItems, bracketed, String.toList_append]
  rfl

theorem toList_indentedAt_object_nil (depth : Nat) :
    (indentedAt depth (object [])).toList = ['\x7b', '\x7d'] := by
  rw [indentedAt, indentedMembers, bracketed, String.toList_append]
  rfl

/-- The text of an array that is not empty. -/
theorem toList_indentedAt_array (depth : Nat) (item : Json) (items : List Json) :
    (indentedAt depth (array (item :: items))).toList =
      '[' :: ((lineStart (depth + 1)).toList ++
        (((lineBreak (depth + 1)).intercalate (indentedItems (depth + 1) (item :: items))).toList ++
          ((lineStart depth).toList ++ [']']))) := by
  rw [indentedAt]
  exact toList_bracketed '[' ']' depth (by rw [indentedItems]; exact List.cons_ne_nil _ _)

/-- The text of an object that is not empty. -/
theorem toList_indentedAt_object (depth : Nat) (name : String) (value : Json)
    (members : List (String × Json)) :
    (indentedAt depth (object ((name, value) :: members))).toList =
      '\x7b' :: ((lineStart (depth + 1)).toList ++
        (((lineBreak (depth + 1)).intercalate
            (indentedMembers (depth + 1) ((name, value) :: members))).toList ++
          ((lineStart depth).toList ++ ['\x7d']))) := by
  rw [indentedAt]
  exact toList_bracketed '\x7b' '\x7d' depth (by rw [indentedMembers]; exact List.cons_ne_nil _ _)

/-- The text of a value begins with a character that is neither a blank nor a closing bracket. -/
theorem exists_head_indentedAt {json : Json} (h : json.IsPlain) (depth : Nat) :
    ∃ c cs, (indentedAt depth json).toList = c :: cs ∧ isSpace c = false ∧ c ≠ ']' := by
  cases json with
  | null =>
    rw [indentedAt]
    exact ⟨'n', "ull".toList, rfl, rfl, by decide⟩
  | boolean value =>
    rw [indentedAt]
    cases value with
    | true => exact ⟨'t', "rue".toList, rfl, rfl, by decide⟩
    | false => exact ⟨'f', "alse".toList, rfl, rfl, by decide⟩
  | string value =>
    rw [indentedAt]
    exact ⟨'"', _, toList_quotedString value, rfl, by decide⟩
  | array items =>
    cases items with
    | nil => exact ⟨'[', [']'], toList_indentedAt_array_nil depth, rfl, by decide⟩
    | cons item items => exact ⟨'[', _, toList_indentedAt_array depth item items, rfl, by decide⟩
  | object members =>
    cases members with
    | nil => exact ⟨'\x7b', ['\x7d'], toList_indentedAt_object_nil depth, rfl, by decide⟩
    | cons member members =>
      exact ⟨'\x7b', _, toList_indentedAt_object depth member.1 member.2 members, rfl, by decide⟩
  | integer _ | real _ | special _ => exact h.elim

theorem skipSpace_indentedAt {json : Json} (h : json.IsPlain) (depth : Nat) (rest : List Char) :
    skipSpace ((indentedAt depth json).toList ++ rest) = (indentedAt depth json).toList ++ rest := by
  obtain ⟨c, cs, hc, hspace, -⟩ := exists_head_indentedAt h depth
  rw [hc, List.cons_append, skipSpace_of_isSpace_eq_false hspace]

theorem length_indentedAt_pos {json : Json} (h : json.IsPlain) (depth : Nat) :
    0 < (indentedAt depth json).toList.length := by
  obtain ⟨c, cs, hc, -, -⟩ := exists_head_indentedAt h depth
  rw [hc]
  exact Nat.succ_pos _

/-- The lines of items begin as the first item does. -/
theorem exists_head_items {item : Json} {items : List Json} (h : AllPlain (item :: items))
    (depth : Nat) :
    ∃ c cs, ((lineBreak depth).intercalate (indentedItems depth (item :: items))).toList = c :: cs ∧
      isSpace c = false ∧ c ≠ ']' := by
  obtain ⟨c, cs, hc, hspace, hclosing⟩ := exists_head_indentedAt h.1 depth
  rw [indentedItems]
  cases items with
  | nil =>
    rw [indentedItems, String.intercalate_singleton]
    exact ⟨c, cs, hc, hspace, hclosing⟩
  | cons next items =>
    rw [indentedItems, toList_intercalate_cons_cons, hc]
    exact ⟨c, _, rfl, hspace, hclosing⟩

/-- The text of a member. -/
theorem toList_member (depth : Nat) (name : String) (value : Json) :
    (quotedString name ++ ": " ++ indentedAt depth value).toList =
      '"' :: (name.toList.flatMap stringChar ++ '"' :: ':' :: ' ' ::
        (indentedAt depth value).toList) := by
  have hcolon : ": ".toList = [':', ' '] := rfl
  simp only [String.toList_append, toList_quotedString, hcolon, List.cons_append, List.append_assoc,
    List.nil_append]

/-- The lines of members begin with a quote. -/
theorem exists_head_members (depth : Nat) (name : String) (value : Json)
    (members : List (String × Json)) :
    ∃ cs, ((lineBreak depth).intercalate
      (indentedMembers depth ((name, value) :: members))).toList = '"' :: cs := by
  rw [indentedMembers]
  cases members with
  | nil =>
    rw [indentedMembers, String.intercalate_singleton, toList_member]
    exact ⟨_, rfl⟩
  | cons next members =>
    rw [indentedMembers, toList_intercalate_cons_cons, toList_member]
    exact ⟨_, rfl⟩

/-- What stands at the beginning of a line is found. -/
theorem skipSpace_line (depth : Nat) (c : Char) (h : isSpace c = false) (rest : List Char) :
    skipSpace ((lineStart depth).toList ++ c :: rest) = c :: rest := by
  rw [skipSpace_lineStart, skipSpace_of_isSpace_eq_false h]

theorem ok_bind {α β : Type} (a : α) (next : α → Reading β) : (Except.ok a >>= next) = next a :=
  rfl

/-- A member is read if its value is. -/
theorem readMembers_member {value : Json} (h : value.IsPlain) {name : String} {depth bound : Nat}
    {rest : List Char} (hname : (name.toList.flatMap stringChar).length ≤ bound)
    (hvalue : readValue bound ((indentedAt depth value).toList ++ rest) = .ok (value, rest))
    (done : List (String × Json)) :
    readMembers (bound + 1) done
        ((quotedString name ++ ": " ++ indentedAt depth value).toList ++ rest) =
      match skipSpace rest with
      | '\x7d' :: rest => .ok (((name, value) :: done).reverse, rest)
      | ',' :: rest => readMembers bound ((name, value) :: done) (skipSpace rest)
      | rest => missing .comma rest := by
  rw [toList_member, List.cons_append, List.append_assoc, List.cons_append, readMembers,
    readString_text name hname]
  have hcolon : ∀ rest, skipSpace (':' :: rest) = ':' :: rest :=
    skipSpace_of_isSpace_eq_false rfl
  simp only [ok_bind, List.cons_append, hcolon]
  rw [skipSpace_blank, skipSpace_indentedAt h, hvalue]
  rfl

mutual

/-- A value is read in front of any rest. -/
theorem readValue_indentedAt (json : Json) (h : json.IsPlain) (depth bound : Nat)
    (hbound : (indentedAt depth json).toList.length ≤ bound) (rest : List Char) :
    readValue bound ((indentedAt depth json).toList ++ rest) = .ok (json, rest) := by
  obtain ⟨bound, rfl⟩ := Nat.exists_eq_add_of_le'
    (Nat.lt_of_lt_of_le (length_indentedAt_pos h depth) hbound)
  cases json with
  | null =>
    rw [indentedAt]
    rfl
  | boolean value =>
    rw [indentedAt]
    cases value <;> rfl
  | string value =>
    rw [indentedAt, toList_quotedString] at hbound ⊢
    simp only [List.length_cons, List.length_append] at hbound
    have hread : readString bound [] _ = _ := readString_text value (by omega) rest
    rw [List.cons_append, List.append_assoc, List.singleton_append]
    simp only [readValue, hread]
    rfl
  | array items =>
    cases items with
    | nil =>
      rw [toList_indentedAt_array_nil]
      rfl
    | cons item items =>
      rw [toList_indentedAt_array] at hbound ⊢
      simp only [List.length_cons, List.length_append] at hbound
      have hread : readItems bound [] _ = _ :=
        readItems_indentedItems (item :: items) (List.cons_ne_nil _ _) h (depth + 1) depth bound []
          (by omega) rest
      obtain ⟨c, cs, hc, hspace, hclosing⟩ := exists_head_items h (depth + 1)
      simp only [hc, List.cons_append, List.append_assoc, List.nil_append] at hread ⊢
      simp only [readValue, skipSpace_line _ _ hspace]
      split
      next heq => exact absurd (List.cons.inj heq).1 hclosing
      next =>
        rw [hread]
        rfl
  | object members =>
    cases members with
    | nil =>
      rw [toList_indentedAt_object_nil]
      rfl
    | cons member members =>
      obtain ⟨name, value⟩ := member
      rw [toList_indentedAt_object] at hbound ⊢
      simp only [List.length_cons, List.length_append] at hbound
      have hread : readMembers bound [] _ = _ :=
        readMembers_indentedMembers ((name, value) :: members) (List.cons_ne_nil _ _) h (depth + 1)
          depth bound [] (by omega) rest
      obtain ⟨cs, hc⟩ := exists_head_members (depth + 1) name value members
      simp only [hc, List.cons_append, List.append_assoc, List.nil_append] at hread ⊢
      simp only [readValue, skipSpace_line _ '"' rfl]
      split
      next heq => exact absurd (List.cons.inj heq).1 (by decide)
      next =>
        rw [hread]
        rfl
  | integer _ | real _ | special _ => exact h.elim

/-- Items are read up to the bracket behind them. -/
theorem readItems_indentedItems (items : List Json) (hne : items ≠ []) (h : AllPlain items)
    (depth outer bound : Nat) (done : List Json)
    (hbound : ((lineBreak depth).intercalate (indentedItems depth items)).toList.length < bound)
    (rest : List Char) :
    readItems bound done (((lineBreak depth).intercalate (indentedItems depth items)).toList ++
      ((lineStart outer).toList ++ ']' :: rest)) = .ok (done.reverse ++ items, rest) := by
  obtain ⟨bound, rfl⟩ := Nat.exists_eq_add_of_le' (Nat.lt_of_le_of_lt (Nat.zero_le _) hbound)
  cases items with
  | nil => exact absurd rfl hne
  | cons item items =>
    have hpos := length_indentedAt_pos h.1 depth
    cases items with
    | nil =>
      rw [indentedItems, indentedItems, String.intercalate_singleton] at hbound ⊢
      rw [readItems, readValue_indentedAt item h.1 depth bound (by omega)]
      simp only [ok_bind, skipSpace_line _ ']' rfl, List.reverse_cons]
      rfl
    | cons next items =>
      have hlines := toList_intercalate_cons_cons depth (indentedAt depth item)
        (indentedAt depth next) (indentedItems depth items)
      rw [← indentedItems, ← indentedItems] at hlines
      rw [hlines] at hbound ⊢
      simp only [List.length_append, List.length_cons] at hbound
      have hrest := readItems_indentedItems (next :: items) (List.cons_ne_nil _ _) h.2 depth outer
        bound (item :: done) (by omega) rest
      obtain ⟨c, cs, hc, hspace, -⟩ := exists_head_items h.2 depth
      rw [hc, List.cons_append] at hrest
      rw [List.append_assoc, readItems, readValue_indentedAt item h.1 depth bound (by omega), hc]
      simp only [ok_bind, List.cons_append, List.append_assoc]
      rw [skipSpace_of_isSpace_eq_false rfl]
      simp only [skipSpace_line _ _ hspace]
      rw [hrest]
      simp

/-- Members are read up to the brace behind them. -/
theorem readMembers_indentedMembers (members : List (String × Json)) (hne : members ≠ [])
    (h : MembersPlain members) (depth outer bound : Nat) (done : List (String × Json))
    (hbound : ((lineBreak depth).intercalate (indentedMembers depth members)).toList.length < bound)
    (rest : List Char) :
    readMembers bound done (((lineBreak depth).intercalate (indentedMembers depth members)).toList ++
      ((lineStart outer).toList ++ '\x7d' :: rest)) = .ok (done.reverse ++ members, rest) := by
  obtain ⟨bound, rfl⟩ := Nat.exists_eq_add_of_le' (Nat.lt_of_le_of_lt (Nat.zero_le _) hbound)
  cases members with
  | nil => exact absurd rfl hne
  | cons member members =>
    obtain ⟨name, value⟩ := member
    have hlength : (quotedString name ++ ": " ++ indentedAt depth value).toList.length =
        (name.toList.flatMap stringChar).length + (indentedAt depth value).toList.length + 4 := by
      simp only [toList_member, List.length_cons, List.length_append]
      omega
    cases members with
    | nil =>
      rw [indentedMembers, indentedMembers, String.intercalate_singleton] at hbound ⊢
      have hvalue := readValue_indentedAt value h.1 depth bound (by omega)
      rw [readMembers_member h.1 (by omega) (hvalue _)]
      simp only [skipSpace_line _ '\x7d' rfl, List.reverse_cons]
    | cons next members =>
      obtain ⟨nextName, nextValue⟩ := next
      have hlines := toList_intercalate_cons_cons depth
        (quotedString name ++ ": " ++ indentedAt depth value)
        (quotedString nextName ++ ": " ++ indentedAt depth nextValue)
        (indentedMembers depth members)
      rw [← indentedMembers, ← indentedMembers] at hlines
      rw [hlines] at hbound ⊢
      simp only [List.length_append, List.length_cons] at hbound hlength
      have hvalue := readValue_indentedAt value h.1 depth bound (by omega)
      have hrest := readMembers_indentedMembers ((nextName, nextValue) :: members)
        (List.cons_ne_nil _ _) h.2 depth outer bound ((name, value) :: done) (by omega) rest
      obtain ⟨cs, hc⟩ := exists_head_members depth nextName nextValue members
      rw [hc, List.cons_append] at hrest
      rw [hc, List.append_assoc, readMembers_member h.1 (by omega) (hvalue _), List.cons_append,
        skipSpace_of_isSpace_eq_false rfl]
      simp only [List.append_assoc, List.cons_append, skipSpace_line _ '"' rfl]
      rw [hrest]
      simp

end

/-- A text denotes the value that it was written for. -/
theorem read_indented {json : Json} (h : json.IsPlain) : read json.indented = .ok json := by
  have hread := readValue_indentedAt json h 0 (3 * json.indented.toList.length + 3)
    (by rw [indented]; omega) []
  rw [List.append_nil, ← indented] at hread
  have hskip := skipSpace_indentedAt h 0 []
  rw [List.append_nil, ← indented] at hskip
  rw [read, hskip, hread]
  rfl

/-! ### Carriage returns -/

theorem return_not_mem_hexDigits (width n : Nat) : '\r' ∉ hexDigits width n := by
  have hdigit : ∀ d < 16, '\r' ≠ Nat.digitChar d := by decide
  induction width generalizing n with
  | zero => simp [hexDigits]
  | succ width ih =>
    rw [hexDigits, List.mem_append, List.mem_singleton, not_or]
    exact ⟨ih _, hdigit _ (Nat.mod_lt _ (by decide))⟩

theorem return_not_mem_stringChar (c : Char) : '\r' ∉ stringChar c := by
  unfold stringChar
  split
  all_goals try decide
  next _ _ _ hreturn _ _ _ =>
    split
    next =>
      rw [List.mem_cons, List.mem_cons, not_or, not_or]
      exact ⟨by decide, by decide, return_not_mem_hexDigits 4 _⟩
    next =>
      rw [List.mem_singleton]
      exact fun h => hreturn h.symm

theorem return_not_mem_quotedString (text : String) : '\r' ∉ (quotedString text).toList := by
  have hchars : '\r' ∉ text.toList.flatMap stringChar := by
    rw [List.mem_flatMap]
    rintro ⟨c, -, hc⟩
    exact return_not_mem_stringChar c hc
  rw [toList_quotedString]
  simp [hchars]

theorem return_not_mem_lineStart (depth : Nat) : '\r' ∉ (lineStart depth).toList := by
  rw [lineStart, String.toList_ofList]
  simp

theorem return_not_mem_intercalate {depth : Nat} {lines : List String}
    (h : ∀ line ∈ lines, '\r' ∉ line.toList) :
    '\r' ∉ ((lineBreak depth).intercalate lines).toList := by
  induction lines with
  | nil => simp
  | cons line lines ih =>
    obtain ⟨hline, hlines⟩ := List.forall_mem_cons.mp h
    cases lines with
    | nil => rwa [String.intercalate_singleton]
    | cons next lines =>
      rw [toList_intercalate_cons_cons, List.mem_append, List.mem_cons, List.mem_append, not_or,
        not_or, not_or]
      exact ⟨hline, by decide, return_not_mem_lineStart depth, ih hlines⟩

theorem return_not_mem_bracketed (opening closing : Char) (depth : Nat) {lines : List String}
    (hopening : '\r' ≠ opening) (hclosing : '\r' ≠ closing)
    (h : ∀ line ∈ lines, '\r' ∉ line.toList) :
    '\r' ∉ (bracketed (String.singleton opening) (String.singleton closing) depth lines).toList := by
  by_cases hlines : lines = []
  · subst hlines
    simp [bracketed, hopening, hclosing]
  · rw [toList_bracketed _ _ _ hlines]
    simp only [List.mem_cons, List.mem_append, List.not_mem_nil, or_false, not_or]
    exact ⟨hopening, return_not_mem_lineStart _, return_not_mem_intercalate h,
      return_not_mem_lineStart _, hclosing⟩

mutual

/-- No carriage return is written. -/
theorem return_not_mem_indentedAt (json : Json) (h : json.IsPlain) (depth : Nat) :
    '\r' ∉ (indentedAt depth json).toList := by
  cases json with
  | null =>
    rw [indentedAt]
    decide
  | boolean value =>
    rw [indentedAt]
    cases value <;> decide
  | string value =>
    rw [indentedAt]
    exact return_not_mem_quotedString value
  | array items =>
    rw [indentedAt]
    exact return_not_mem_bracketed '[' ']' depth (by decide) (by decide)
      (return_not_mem_indentedItems items h (depth + 1))
  | object members =>
    rw [indentedAt]
    exact return_not_mem_bracketed '\x7b' '\x7d' depth (by decide) (by decide)
      (return_not_mem_indentedMembers members h (depth + 1))
  | integer _ | real _ | special _ => exact h.elim

theorem return_not_mem_indentedItems (items : List Json) (h : AllPlain items) (depth : Nat) :
    ∀ line ∈ indentedItems depth items, '\r' ∉ line.toList := by
  cases items with
  | nil => simp [indentedItems]
  | cons item items =>
    rw [indentedItems, List.forall_mem_cons]
    exact ⟨return_not_mem_indentedAt item h.1 depth, return_not_mem_indentedItems items h.2 depth⟩

theorem return_not_mem_indentedMembers (members : List (String × Json)) (h : MembersPlain members)
    (depth : Nat) : ∀ line ∈ indentedMembers depth members, '\r' ∉ line.toList := by
  cases members with
  | nil => simp [indentedMembers]
  | cons member members =>
    obtain ⟨name, value⟩ := member
    have hvalue := return_not_mem_indentedAt value h.1 depth
    have hname := return_not_mem_quotedString name
    rw [indentedMembers, List.forall_mem_cons]
    refine ⟨?_, return_not_mem_indentedMembers members h.2 depth⟩
    simp [hname, hvalue]

end

theorem return_not_mem_indented {json : Json} (h : json.IsPlain) : '\r' ∉ json.indented.toList :=
  return_not_mem_indentedAt json h 0

end BlockScript.Json
