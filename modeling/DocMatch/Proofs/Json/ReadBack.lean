import DocMatch.Proofs.Json.Scalars

/-!
Reading a JSON text that was written. Compact texts and texts in lines differ in their spacing only:
what stands before an item or a member, before the bracket that closes them, and after a colon. In
whatever way a tree is spaced with blanks, it is read as itself, if its floating point numbers are.

    compact     [1,{"a":2}]
    in lines    [⏎  1,⏎  {⏎    "a": 2⏎  }⏎]
                 └gap       └gap   └pad  └gap

The steps that reading may take are counted by the length of the text: a value takes two for each of
its characters at most, and so do the items and members, and one more.
-/

namespace DocMatch

namespace Json

/-- Blanks between the marks of a text: before an item or a closing bracket of some level, and after
a colon. -/
structure Spacing where
  gap : Nat → List Char
  pad : List Char
  gap_isSpace : ∀ level, ∀ c ∈ gap level, Draft.isSpace c = true
  pad_isSpace : ∀ c ∈ pad, Draft.isSpace c = true

namespace Spacing

mutual

/-- The text of a tree at a level. -/
def write (s : Spacing) (level : Nat) : Json → List Char
  | array [] => ['[', ']']
  | array items => '[' :: writeItems s (level + 1) items ++ s.gap level ++ [']']
  | object [] => ['{', '}']
  | object members => '{' :: writeMembers s (level + 1) members ++ s.gap level ++ ['}']
  | j => scalar j

def writeItems (s : Spacing) (level : Nat) : List Json → List Char
  | [] => []
  | [j] => s.gap level ++ write s level j
  | j :: rest => s.gap level ++ write s level j ++ ',' :: writeItems s level rest

def writeMembers (s : Spacing) (level : Nat) : List (String × Json) → List Char
  | [] => []
  | [(name, j)] => s.gap level ++ quote name ++ ':' :: s.pad ++ write s level j
  | (name, j) :: rest =>
    s.gap level ++ quote name ++ ':' :: s.pad ++ write s level j ++ ',' ::
      writeMembers s level rest

end

variable {s : Spacing} {level : Nat}

/-! Texts with the blanks and brackets set apart. -/

theorem writeItems_singleton (j : Json) :
    s.writeItems level [j] = s.gap level ++ s.write level j := rfl

theorem writeItems_cons_cons (j next : Json) (more : List Json) :
    s.writeItems level (j :: next :: more) =
      s.gap level ++ (s.write level j ++ ',' :: s.writeItems level (next :: more)) := by
  rw [writeItems, List.append_assoc]
  nofun

theorem writeMembers_singleton (name : String) (j : Json) :
    s.writeMembers level [(name, j)] =
      s.gap level ++ (quote name ++ ':' :: (s.pad ++ s.write level j)) := by
  rw [writeMembers]
  simp

theorem writeMembers_cons_cons (name : String) (j : Json) (next : String × Json)
    (more : List (String × Json)) :
    s.writeMembers level ((name, j) :: next :: more) =
      s.gap level ++ (quote name ++ ':' :: (s.pad ++ (s.write level j ++ ',' ::
        s.writeMembers level (next :: more)))) := by
  rw [writeMembers]
  · simp
  · nofun

theorem write_array (j : Json) (more : List Json) :
    s.write level (.array (j :: more)) =
      '[' :: (s.writeItems (level + 1) (j :: more) ++ (s.gap level ++ [']'])) := by
  rw [write]
  · simp
  · nofun

theorem write_object (member : String × Json) (more : List (String × Json)) :
    s.write level (.object (member :: more)) =
      '{' :: (s.writeMembers (level + 1) (member :: more) ++ (s.gap level ++ ['}'])) := by
  rw [write]
  · simp
  · nofun

/-- No blanks at all. -/
def none : Spacing where
  gap _ := []
  pad := []
  gap_isSpace := nofun
  pad_isSpace := nofun

/-- Items and members on lines of their own. -/
def lines : Spacing where
  gap := newLine
  pad := [' ']
  gap_isSpace level c hc := by
    rcases List.mem_cons.1 hc with rfl | hc
    · rfl
    · rw [List.eq_of_mem_replicate hc]
      rfl
  pad_isSpace := List.forall_mem_singleton.2 rfl

mutual

theorem write_none (level : Nat) (j : Json) : none.write level j = j.compact := by
  cases j with
  | array items =>
    cases items with
    | nil => rfl
    | cons j rest =>
      rw [write_array, writeItems_none (level + 1) (j :: rest), compact]
      rfl
  | object members =>
    cases members with
    | nil => rfl
    | cons member rest =>
      rw [write_object, writeMembers_none (level + 1) (member :: rest), compact]
      rfl
  | _ => rfl

theorem writeItems_none (level : Nat) (items : List Json) :
    none.writeItems level items = compactItems items := by
  cases items with
  | nil => rfl
  | cons j rest =>
    cases rest with
    | nil => exact write_none level j
    | cons next rest =>
      rw [compactItems, writeItems_cons_cons, write_none level j,
        writeItems_none level (next :: rest)]
      · rfl
      · nofun

theorem writeMembers_none (level : Nat) (members : List (String × Json)) :
    none.writeMembers level members = compactMembers members := by
  cases members with
  | nil => rfl
  | cons member rest =>
    obtain ⟨name, j⟩ := member
    cases rest with
    | nil =>
      rw [writeMembers_singleton, write_none level j, compactMembers]
      rfl
    | cons next rest =>
      rw [compactMembers, writeMembers_cons_cons, write_none level j,
        writeMembers_none level (next :: rest)]
      · simp [none]
      · nofun

end

mutual

theorem write_lines (level : Nat) (j : Json) : lines.write level j = j.pretty level := by
  cases j with
  | array items =>
    cases items with
    | nil => rfl
    | cons j rest =>
      rw [write_array, writeItems_lines (level + 1) (j :: rest), pretty]
      · simp [lines]
      · nofun
  | object members =>
    cases members with
    | nil => rfl
    | cons member rest =>
      rw [write_object, writeMembers_lines (level + 1) (member :: rest), pretty]
      · simp [lines]
      · nofun
  | _ => rfl

theorem writeItems_lines (level : Nat) (items : List Json) :
    lines.writeItems level items = prettyItems level items := by
  cases items with
  | nil => rfl
  | cons j rest =>
    cases rest with
    | nil =>
      rw [writeItems_singleton, write_lines level j, prettyItems]
      rfl
    | cons next rest =>
      rw [prettyItems, writeItems_cons_cons, write_lines level j,
        writeItems_lines level (next :: rest)]
      · simp [lines]
      · nofun

theorem writeMembers_lines (level : Nat) (members : List (String × Json)) :
    lines.writeMembers level members = prettyMembers level members := by
  cases members with
  | nil => rfl
  | cons member rest =>
    obtain ⟨name, j⟩ := member
    cases rest with
    | nil =>
      rw [writeMembers_singleton, write_lines level j, prettyMembers]
      simp [lines]
    | cons next rest =>
      rw [prettyMembers, writeMembers_cons_cons, write_lines level j,
        writeMembers_lines level (next :: rest)]
      · simp [lines]
      · nofun

end

end Spacing

/-! ### What is asked of floating point numbers -/

mutual

/-- The floating point numbers of a tree. -/
def floats : Json → List Binary64
  | float x => [x]
  | array items => itemsFloats items
  | object members => membersFloats members
  | _ => []

def itemsFloats : List Json → List Binary64
  | [] => []
  | j :: rest => j.floats ++ itemsFloats rest

def membersFloats : List (String × Json) → List Binary64
  | [] => []
  | (_, j) :: rest => j.floats ++ membersFloats rest

end

/-- A number whose text begins like a number, and is read as it if no more of a number follows. -/
structure ReadsBack (x : Binary64) : Prop where
  head : ∃ c cs, layout.write x = c :: cs ∧ (c = '-' ∨ isDigit c = true)
  read : ∀ bound rest, Draft.EndsNumber rest →
    Draft.readValue (bound + 1) (layout.write x ++ rest) = (.float x, some rest)

namespace Spacing

/-- A value begins with no blank and no closing bracket. -/
theorem write_head (s : Spacing) (level : Nat) (j : Json) (h : ∀ x ∈ j.floats, ReadsBack x) :
    ∃ c cs, s.write level j = c :: cs ∧ Draft.isSpace c = false ∧ c ≠ ']' := by
  have hnumber : ∀ c : Char, c = '-' ∨ isDigit c = true → Draft.isSpace c = false ∧ c ≠ ']' := by
    rintro c (rfl | hc)
    · decide
    · exact ⟨Draft.isSpace_of_isDigit hc, by rintro rfl; cases hc⟩
  cases j with
  | null => exact ⟨'n', _, rfl, by decide⟩
  | boolean b =>
    cases b with
    | true => exact ⟨'t', _, rfl, by decide⟩
    | false => exact ⟨'f', _, rfl, by decide⟩
  | integer n =>
    obtain ⟨c, cs, hcons, hc⟩ := Layout.intDigits_head n
    exact ⟨c, cs, hcons, hnumber c hc⟩
  | float x =>
    obtain ⟨c, cs, hcons, hc⟩ := (h x (List.mem_singleton.2 rfl)).head
    exact ⟨c, cs, hcons, hnumber c hc⟩
  | string t => exact ⟨'"', _, rfl, by decide⟩
  | array items => cases items <;> exact ⟨'[', _, rfl, by decide⟩
  | object members => cases members <;> exact ⟨'{', _, rfl, by decide⟩

end Spacing

end Json

namespace Draft

open Json

variable {sp cs rest : List Char} {bound level : Nat} {s : Spacing}

theorem skipSpace_append (h : ∀ c ∈ sp, isSpace c = true) (cs : List Char) :
    skipSpace (sp ++ cs) = skipSpace cs :=
  List.dropWhile_append_of_pos h

theorem readValue_append (h : ∀ c ∈ sp, isSpace c = true) (bound : Nat) (cs : List Char) :
    readValue bound (sp ++ cs) = readValue bound cs := by
  cases bound with
  | zero => rfl
  | succ bound => simp only [readValue, skipSpace_append h]

theorem readMembers_append (h : ∀ c ∈ sp, isSpace c = true) (bound : Nat) (cs : List Char) :
    readMembers bound (sp ++ cs) = readMembers bound cs := by
  cases bound with
  | zero => rfl
  | succ bound => simp only [readMembers, skipSpace_append h]

/-- Blanks and a mark end a number. -/
theorem endsNumber_append {c : Char} (h : ∀ c ∈ sp, isSpace c = true)
    (hc : (isDigit c || c == '.' || c == 'e' || c == 'E') = false) (rest : List Char) :
    EndsNumber (sp ++ c :: rest) := by
  cases sp with
  | nil =>
    rintro _ ⟨⟩
    exact hc
  | cons d sp =>
    rintro _ ⟨⟩
    have hd := h d List.mem_cons_self
    simp only [isSpace, Bool.or_eq_true, beq_iff_eq] at hd
    rcases hd with ((rfl | rfl) | rfl) | rfl <;> decide

theorem endsNumber_comma (rest : List Char) : EndsNumber (',' :: rest) := by
  rintro _ ⟨⟩
  rfl

/-! ### Arrays and objects -/

theorem readItems_last {item : Draft} (hsp : ∀ c ∈ sp, isSpace c = true)
    (h : readValue bound cs = (item, some (sp ++ ']' :: rest))) :
    readItems (bound + 1) cs = ([item], some rest) := by
  rw [readItems, h]
  simp only [skipSpace_append hsp, skipSpace_cons (show isSpace ']' = false from rfl)]

theorem readItems_next {item : Draft} {items : List Draft} {after : Option (List Char)}
    (h : readValue bound cs = (item, some (',' :: rest)))
    (hrest : readItems bound rest = (items, after)) :
    readItems (bound + 1) cs = (item :: items, after) := by
  rw [readItems, h]
  simp only [skipSpace_cons (show isSpace ',' = false from rfl), hrest]

theorem readValue_array {items : List Draft} {after : Option (List Char)}
    (hhead : ∀ more, skipSpace cs ≠ ']' :: more) (h : readItems bound cs = (items, after)) :
    readValue (bound + 1) ('[' :: cs) = (array items, after) := by
  rw [readValue, skipSpace_cons (show isSpace '[' = false from rfl)]
  simp only [h]

/-- A member is read as its name and what its value is read as. -/
theorem readMembers_last {name : String} {d : Draft} (hsp : ∀ c ∈ sp, isSpace c = true)
    (h : readValue bound cs = (d, some (sp ++ '}' :: rest))) :
    readMembers (bound + 1) (quote name ++ ':' :: cs) = ([(some name, d)], some rest) := by
  rw [quote_append, readMembers, skipSpace_cons (show isSpace '"' = false from rfl)]
  simp only [string?_quote, skipSpace_cons (show isSpace ':' = false from rfl), h,
    skipSpace_append hsp, skipSpace_cons (show isSpace '}' = false from rfl)]

theorem readMembers_next {name : String} {d : Draft} {members : List (Option String × Draft)}
    {after : Option (List Char)} (h : readValue bound cs = (d, some (',' :: rest)))
    (hrest : readMembers bound rest = (members, after)) :
    readMembers (bound + 1) (quote name ++ ':' :: cs) = ((some name, d) :: members, after) := by
  rw [quote_append, readMembers, skipSpace_cons (show isSpace '"' = false from rfl)]
  simp only [string?_quote, skipSpace_cons (show isSpace ':' = false from rfl), h,
    skipSpace_cons (show isSpace ',' = false from rfl), hrest]

theorem readValue_object {members : List (Option String × Draft)} {after : Option (List Char)}
    (hhead : ∀ more, skipSpace cs ≠ '}' :: more) (h : readMembers bound cs = (members, after)) :
    readValue (bound + 1) ('{' :: cs) = (object members, after) := by
  rw [readValue, skipSpace_cons (show isSpace '{' = false from rfl)]
  simp only [h]

/-! ### Whole trees -/

theorem skipSpace_ne {c d : Char} (hsp : ∀ c ∈ sp, isSpace c = true) (hc : isSpace c = false)
    (hne : c ≠ d) : skipSpace (sp ++ c :: cs) ≠ d :: rest := by
  rw [skipSpace_append hsp, skipSpace_cons hc]
  exact fun heq => hne (List.cons.inj heq).1

/-- Items begin with a value, so they do not look like the end of an array. -/
theorem skipSpace_writeItems {j : Json} {more : List Json} (h : ∀ x ∈ j.floats, ReadsBack x)
    (tail rest : List Char) :
    skipSpace (s.writeItems level (j :: more) ++ tail) ≠ ']' :: rest := by
  obtain ⟨c, cs, hcons, hspace, hc⟩ := s.write_head level j h
  cases more with
  | nil =>
    rw [Spacing.writeItems_singleton, hcons, List.append_assoc]
    exact skipSpace_ne (s.gap_isSpace level) hspace hc
  | cons next more =>
    rw [Spacing.writeItems_cons_cons, hcons, List.append_assoc]
    exact skipSpace_ne (s.gap_isSpace level) hspace hc

theorem skipSpace_writeMembers {member : String × Json} {more : List (String × Json)}
    (tail rest : List Char) :
    skipSpace (s.writeMembers level (member :: more) ++ tail) ≠ '}' :: rest := by
  obtain ⟨name, j⟩ := member
  cases more with
  | nil =>
    rw [Spacing.writeMembers_singleton, quote_append, List.append_assoc]
    exact skipSpace_ne (s.gap_isSpace level) rfl (by decide)
  | cons next more =>
    rw [Spacing.writeMembers_cons_cons, quote_append, List.append_assoc]
    exact skipSpace_ne (s.gap_isSpace level) rfl (by decide)

mutual

/-- A written value is read as itself, and reading stops where it ends. -/
theorem readValue_write (j : Json) (hj : ∀ x ∈ j.floats, ReadsBack x) (level bound : Nat)
    (rest : List Char) (hrest : EndsNumber rest)
    (hbound : 2 * (s.write level j).length ≤ bound) :
    readValue bound (s.write level j ++ rest) = (ofJson j, some rest) := by
  -- no value is written with no characters, so there is a step left for it
  obtain ⟨bound, rfl⟩ : ∃ b, bound = b + 1 := by
    obtain ⟨c, cs, hcons, _⟩ := s.write_head level j hj
    rw [hcons, List.length_cons] at hbound
    exact ⟨bound - 1, by omega⟩
  cases j with
  | null => rfl
  | boolean b => cases b <;> rfl
  | integer n => exact readValue_intDigits n hrest
  | float x => exact (hj x (List.mem_singleton.2 rfl)).read bound rest hrest
  | string t => exact readValue_quote t rest
  | array items =>
    cases items with
    | nil => rfl
    | cons j more =>
      -- the brackets give the steps for the array and for its items
      simp only [Spacing.write_array, List.length_cons, List.length_append] at hbound
      have hitems := readItems_write (j :: more) (List.cons_ne_nil _ _) hj (level + 1) bound
        (s.gap level) rest (s.gap_isSpace level) (by omega)
      rw [Spacing.write_array, List.cons_append, List.append_assoc, List.append_assoc]
      refine readValue_array (skipSpace_writeItems ?_ _) hitems
      exact (List.forall_mem_append.1 hj).1
  | object members =>
    cases members with
    | nil => rfl
    | cons member more =>
      simp only [Spacing.write_object, List.length_cons, List.length_append] at hbound
      have hmembers := readMembers_write (member :: more) (List.cons_ne_nil _ _) hj (level + 1)
        bound (s.gap level) rest (s.gap_isSpace level) (by omega)
      rw [Spacing.write_object, List.cons_append, List.append_assoc, List.append_assoc]
      exact readValue_object (skipSpace_writeMembers _) hmembers

theorem readItems_write (items : List Json) (hne : items ≠ [])
    (hitems : ∀ x ∈ itemsFloats items, ReadsBack x) (level bound : Nat) (sp rest : List Char)
    (hsp : ∀ c ∈ sp, isSpace c = true)
    (hbound : 2 * (s.writeItems level items).length + 1 ≤ bound) :
    readItems bound (s.writeItems level items ++ (sp ++ ']' :: rest)) =
      (ofItems items, some rest) := by
  obtain ⟨bound, rfl⟩ : ∃ b, bound = b + 1 := ⟨bound - 1, by omega⟩
  cases items with
  | nil => exact absurd rfl hne
  | cons j items =>
    obtain ⟨hj, hmore⟩ := List.forall_mem_append.1 hitems
    cases items with
    | nil =>
      simp only [Spacing.writeItems_singleton, List.length_append] at hbound
      rw [Spacing.writeItems_singleton, List.append_assoc]
      refine readItems_last hsp ?_
      rw [readValue_append (s.gap_isSpace level)]
      exact readValue_write j hj level bound _ (endsNumber_append hsp rfl rest) (by omega)
    | cons next more =>
      simp only [Spacing.writeItems_cons_cons, List.length_append, List.length_cons] at hbound
      rw [Spacing.writeItems_cons_cons, List.append_assoc, List.append_assoc, List.cons_append]
      refine readItems_next ?_ (readItems_write (next :: more) (List.cons_ne_nil _ _) hmore level
        bound sp rest hsp (by omega))
      rw [readValue_append (s.gap_isSpace level)]
      exact readValue_write j hj level bound _ (endsNumber_comma _) (by omega)

theorem readMembers_write (members : List (String × Json)) (hne : members ≠ [])
    (hmembers : ∀ x ∈ membersFloats members, ReadsBack x) (level bound : Nat)
    (sp rest : List Char) (hsp : ∀ c ∈ sp, isSpace c = true)
    (hbound : 2 * (s.writeMembers level members).length + 1 ≤ bound) :
    readMembers bound (s.writeMembers level members ++ (sp ++ '}' :: rest)) =
      (ofMembers members, some rest) := by
  obtain ⟨bound, rfl⟩ : ∃ b, bound = b + 1 := ⟨bound - 1, by omega⟩
  cases members with
  | nil => exact absurd rfl hne
  | cons member members =>
    obtain ⟨name, j⟩ := member
    obtain ⟨hj, hmore⟩ := List.forall_mem_append.1 hmembers
    cases members with
    | nil =>
      simp only [Spacing.writeMembers_singleton, List.length_append, List.length_cons] at hbound
      rw [Spacing.writeMembers_singleton, List.append_assoc, List.append_assoc, List.cons_append,
        List.append_assoc, readMembers_append (s.gap_isSpace level)]
      refine readMembers_last hsp ?_
      rw [readValue_append s.pad_isSpace]
      exact readValue_write j hj level bound _ (endsNumber_append hsp rfl rest) (by omega)
    | cons next more =>
      simp only [Spacing.writeMembers_cons_cons, List.length_append, List.length_cons] at hbound
      rw [Spacing.writeMembers_cons_cons, List.append_assoc, List.append_assoc, List.cons_append,
        List.append_assoc, List.append_assoc, List.cons_append,
        readMembers_append (s.gap_isSpace level)]
      refine readMembers_next ?_ (readMembers_write (next :: more) (List.cons_ne_nil _ _) hmore
        level bound sp rest hsp (by omega))
      rw [readValue_append s.pad_isSpace]
      exact readValue_write j hj level bound _ (endsNumber_comma _) (by omega)

end

/-- A written text is read as its tree, up to its end. -/
theorem read_write {j : Json} (hj : ∀ x ∈ j.floats, ReadsBack x) (s : Spacing) (level : Nat) :
    read (s.write level j) = (ofJson j, some []) := by
  have h := readValue_write (s := s) j hj level (2 * (s.write level j).length + 2) [] nofun
    (Nat.le_add_right _ 2)
  rwa [List.append_nil] at h

theorem read_compact {j : Json} (hj : ∀ x ∈ j.floats, ReadsBack x) :
    read j.compact = (ofJson j, some []) := by
  rw [← Spacing.write_none 0 j]
  exact read_write hj .none 0

theorem read_pretty {j : Json} (hj : ∀ x ∈ j.floats, ReadsBack x) (level : Nat) :
    read (j.pretty level) = (ofJson j, some []) := by
  rw [← Spacing.write_lines level j]
  exact read_write hj .lines level

end Draft

end DocMatch
