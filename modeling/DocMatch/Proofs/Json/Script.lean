import DocMatch.Json.Draft
import Mathlib.Data.List.TakeDrop
import Mathlib.Data.List.TakeWhile

/-!
JSON texts with their structure. The pieces of a text are its marks, its string literals and its
words, each after some blanks; a script is a tree of pieces, made of nothing but JSON. Whatever is
read as a value is the text of a script, and the script says what it is read as.

    {"a": [1, true]}        object      "a"     array     1     true
    { "a" :  [ 1 ,  true ] }            pieces
-/

namespace DocMatch

namespace Json

/-- A piece of a text: a mark, a string literal with what stands between its quotes, or a run of
other characters. -/
inductive Piece
  | mark (c : Char)
  | literal (body : List Char)
  | word (cs : List Char)
  deriving DecidableEq

/-- The characters of a piece. -/
def Piece.chars : Piece → List Char
  | mark c => [c]
  | literal body => '"' :: body ++ ['"']
  | word cs => cs

/-- The characters of pieces, each after its blanks. -/
def writePieces (ps : List (List Char × Piece)) : List Char :=
  ps.flatMap fun p => p.1 ++ p.2.chars

@[simp] theorem writePieces_nil : writePieces [] = [] := rfl

@[simp] theorem writePieces_cons (p : List Char × Piece) (ps : List (List Char × Piece)) :
    writePieces (p :: ps) = p.1 ++ (p.2.chars ++ writePieces ps) := by
  simp [writePieces]

@[simp] theorem writePieces_append (ps qs : List (List Char × Piece)) :
    writePieces (ps ++ qs) = writePieces ps ++ writePieces qs := List.flatMap_append

/-! ### What scripts are made of -/

/-- Blanks in front of a piece. -/
structure Blanks where
  chars : List Char
  isSpace : ∀ c ∈ chars, Draft.isSpace c = true

/-- How one unit of a string literal is written. -/
inductive Spelling
  | plain (c : Char) (hquote : c ≠ '"') (hslash : c ≠ '\\') (hcontrol : 0x20 ≤ c.toNat)
  | short (e c : Char) (h : Draft.unescape? e = some c)
  | byNumber (a b c d : Char) (n : Nat) (h : Draft.hexValue4? a b c d = some n)

namespace Spelling

/-- The characters that are written. -/
def chars : Spelling → List Char
  | plain c _ _ _ => [c]
  | short e _ _ => ['\\', e]
  | byNumber a b c d _ _ => ['\\', 'u', a, b, c, d]

/-- The unit that they stand for. -/
def unit : Spelling → Nat
  | plain c _ _ _ => c.toNat
  | short _ c _ => c.toNat
  | byNumber _ _ _ _ n _ => n

end Spelling

/-- What stands between the quotes of a string literal. -/
abbrev Body := List Spelling

namespace Body

/-- The characters between the quotes. -/
def chars (body : Body) : List Char := body.flatMap Spelling.chars

/-- The units of the literal. -/
def units (body : Body) : List Nat := body.map Spelling.unit

/-- The text of the literal, if no half of a surrogate pair stands alone in it. -/
def text? (body : Body) : Option String := (Draft.join? body.units).map String.ofList

end Body

/-- The power of ten of a number. -/
structure Power where
  mark : Char
  sign : List Char
  digits : List Char
  mark_eq : mark = 'e' ∨ mark = 'E'
  sign_eq : sign = [] ∨ sign = ['+'] ∨ sign = ['-']
  isDigit : ∀ c ∈ digits, isDigit c = true
  ne_nil : digits ≠ []

namespace Power

def chars (p : Power) : List Char := p.mark :: (p.sign ++ p.digits)

/-- The exponent. -/
def value (p : Power) : Int :=
  if p.sign = ['-'] then -(natOfDigits p.digits : Int) else natOfDigits p.digits

end Power

/-- A number: its sign, its whole part, the places after a point and a power of ten. -/
structure Figure where
  negative : Bool
  whole : List Char
  places : Option (List Char)
  power : Option Power
  whole_isDigit : ∀ c ∈ whole, isDigit c = true
  whole_ne_nil : whole ≠ []
  whole_zero : whole.head? = some '0' → whole.length = 1
  places_isDigit : ∀ ds ∈ places, ∀ c ∈ ds, isDigit c = true
  places_ne_nil : ∀ ds ∈ places, ds ≠ []

namespace Figure

/-- The characters after the whole part. -/
def tail (f : Figure) : List Char :=
  (f.places.map ('.' :: ·)).getD [] ++ (f.power.map Power.chars).getD []

/-- The characters after the sign. -/
def magnitude (f : Figure) : List Char := f.whole ++ f.tail

def chars (f : Figure) : List Char := if f.negative then '-' :: f.magnitude else f.magnitude

/-- What a number is read as. -/
def draft (f : Figure) (rounding : Rounding := .once) : Draft :=
  Draft.number f.negative f.whole f.places (f.power.map Power.value) rounding

end Figure

/-- A value written by a word. -/
inductive Word
  | null
  | boolean (b : Bool)
  | number (f : Figure)

namespace Word

def chars : Word → List Char
  | null => ['n', 'u', 'l', 'l']
  | boolean true => ['t', 'r', 'u', 'e']
  | boolean false => ['f', 'a', 'l', 's', 'e']
  | number f => f.chars

/-- What a word is read as. -/
def draft (w : Word) (rounding : Rounding := .once) : Draft :=
  match w with
  | null => .null
  | boolean b => .boolean b
  | number f => f.draft rounding

end Word

/-! ### Scripts -/

mutual

/-- A value as it is written, from the blanks in front of it. -/
inductive Script
  | word (gap : Blanks) (w : Word)
  | string (gap : Blanks) (body : Body)
  | emptyArray (gap inner : Blanks)
  | array (gap : Blanks) (items : Items)
  | emptyObject (gap inner : Blanks)
  | object (gap : Blanks) (members : Members)

/-- The items of an array up to its closing bracket, each with the blanks after it. -/
inductive Items
  | last (item : Script) (after : Blanks)
  | next (item : Script) (after : Blanks) (rest : Items)

/-- The members of an object up to its closing brace. -/
inductive Members
  | last (before : Blanks) (name : Body) (colon : Blanks) (part : Script) (after : Blanks)
  | next (before : Blanks) (name : Body) (colon : Blanks) (part : Script) (after : Blanks)
      (rest : Members)

end

mutual

/-- The pieces of a script, each after its blanks. -/
def Script.pieces : Script → List (List Char × Piece)
  | .word gap w => [(gap.chars, .word w.chars)]
  | .string gap body => [(gap.chars, .literal body.chars)]
  | .emptyArray gap inner => [(gap.chars, .mark '['), (inner.chars, .mark ']')]
  | .array gap items => (gap.chars, .mark '[') :: items.pieces
  | .emptyObject gap inner => [(gap.chars, .mark '{'), (inner.chars, .mark '}')]
  | .object gap members => (gap.chars, .mark '{') :: members.pieces

def Items.pieces : Items → List (List Char × Piece)
  | .last item after => item.pieces ++ [(after.chars, .mark ']')]
  | .next item after rest => item.pieces ++ (after.chars, .mark ',') :: rest.pieces

def Members.pieces : Members → List (List Char × Piece)
  | .last before name colon part after =>
    (before.chars, .literal name.chars) :: (colon.chars, .mark ':') ::
      (part.pieces ++ [(after.chars, .mark '}')])
  | .next before name colon part after rest =>
    (before.chars, .literal name.chars) :: (colon.chars, .mark ':') ::
      (part.pieces ++ (after.chars, .mark ',') :: rest.pieces)

end

mutual

/-- What a script is read as. -/
def Script.draft (x : Script) (rounding : Rounding := .once) : Draft :=
  match x with
  | .word _ w => w.draft rounding
  | .string _ body => .string body.text?
  | .emptyArray _ _ => .array []
  | .array _ items => .array (items.drafts rounding)
  | .emptyObject _ _ => .object []
  | .object _ members => .object (members.drafts rounding)

def Items.drafts (xs : Items) (rounding : Rounding := .once) : List Draft :=
  match xs with
  | .last item _ => [item.draft rounding]
  | .next item _ rest => item.draft rounding :: rest.drafts rounding

def Members.drafts (ms : Members) (rounding : Rounding := .once) : List (Option String × Draft) :=
  match ms with
  | .last _ name _ part _ => [(name.text?, part.draft rounding)]
  | .next _ name _ part _ rest => (name.text?, part.draft rounding) :: rest.drafts rounding

end

/-- The characters of a script. -/
def Script.chars (x : Script) : List Char := writePieces x.pieces

def Items.chars (xs : Items) : List Char := writePieces xs.pieces

def Members.chars (ms : Members) : List Char := writePieces ms.pieces

section

variable (gap inner before colon after : Blanks) (w : Word) (body : Body) (item : Script)
  (items : Items) (members : Members)

@[simp] theorem Script.chars_word : (Script.word gap w).chars = gap.chars ++ w.chars := by
  simp [chars, pieces, Piece.chars]

@[simp] theorem Script.chars_string :
    (Script.string gap body).chars = gap.chars ++ '"' :: (body.chars ++ ['"']) := by
  simp [chars, pieces, Piece.chars]

@[simp] theorem Script.chars_emptyArray :
    (Script.emptyArray gap inner).chars = gap.chars ++ '[' :: (inner.chars ++ [']']) := by
  simp [chars, pieces, Piece.chars]

@[simp] theorem Script.chars_array :
    (Script.array gap items).chars = gap.chars ++ '[' :: items.chars := by
  simp [chars, pieces, Items.chars, Piece.chars]

@[simp] theorem Script.chars_emptyObject :
    (Script.emptyObject gap inner).chars = gap.chars ++ '{' :: (inner.chars ++ ['}']) := by
  simp [chars, pieces, Piece.chars]

@[simp] theorem Script.chars_object :
    (Script.object gap members).chars = gap.chars ++ '{' :: members.chars := by
  simp [chars, pieces, Members.chars, Piece.chars]

@[simp] theorem Items.chars_last :
    (Items.last item after).chars = item.chars ++ (after.chars ++ [']']) := by
  simp [chars, pieces, Script.chars, Piece.chars]

@[simp] theorem Items.chars_next :
    (Items.next item after items).chars = item.chars ++ (after.chars ++ ',' :: items.chars) := by
  simp [chars, pieces, Script.chars, Piece.chars]

@[simp] theorem Members.chars_last :
    (Members.last before body colon item after).chars =
      before.chars ++ '"' :: (body.chars ++ '"' :: (colon.chars ++ ':' ::
        (item.chars ++ (after.chars ++ ['}'])))) := by
  simp [chars, pieces, Script.chars, Piece.chars]

@[simp] theorem Members.chars_next :
    (Members.next before body colon item after members).chars =
      before.chars ++ '"' :: (body.chars ++ '"' :: (colon.chars ++ ':' ::
        (item.chars ++ (after.chars ++ ',' :: members.chars)))) := by
  simp [chars, pieces, Script.chars, Piece.chars]

end

end Json

namespace Draft

open Json

variable {cs rest : List Char} {d : Draft} {bound : Nat} {rounding : Rounding}

/-! ### The parts of what was read -/

theorem exists_blanks (cs : List Char) : ∃ gap : Blanks, cs = gap.chars ++ skipSpace cs :=
  ⟨⟨cs.takeWhile isSpace, fun _ hc => List.mem_takeWhile_imp hc⟩,
    List.takeWhile_append_dropWhile.symm⟩

/-- Units that were read are spelled by what stands in front of the closing quote. -/
theorem exists_body {units : List Nat} (h : units? cs = some (units, rest)) :
    ∃ body : Body, cs = body.chars ++ '"' :: rest ∧ body.units = units := by
  induction cs using units?.induct generalizing units with
  | case1 => cases h
  | case2 more =>
    obtain ⟨rfl, rfl⟩ : [] = units ∧ more = rest := by simpa [units?] using h
    exact ⟨[], rfl, rfl⟩
  | case3 a b c d more ih =>
    simp only [units?, bind, Option.bind_eq_some_iff] at h
    obtain ⟨n, hn, ⟨units', rest'⟩, hmore, heq⟩ := h
    obtain ⟨rfl, rfl⟩ : n :: units' = units ∧ rest' = rest := by simpa using heq
    obtain ⟨body, rfl, rfl⟩ := ih hmore
    exact ⟨.byNumber a b c d n hn :: body, rfl, rfl⟩
  | case4 e more hne ih =>
    rw [units?] at h
    · simp only [bind, Option.bind_eq_some_iff] at h
      obtain ⟨c, hc, ⟨units', rest'⟩, hmore, heq⟩ := h
      obtain ⟨rfl, rfl⟩ : c.toNat :: units' = units ∧ rest' = rest := by simpa using heq
      obtain ⟨body, rfl, rfl⟩ := ih hmore
      exact ⟨.short e c hc :: body, rfl, rfl⟩
    · exact hne
  | case5 c more hquote hnumber hslash hcontrol ih =>
    rw [units?, if_pos hcontrol] at h
    · cases h
    · exact hquote
    · exact hnumber
    · exact hslash
  | case6 c more hquote hnumber hslash hcontrol ih =>
    rw [units?, if_neg hcontrol] at h
    · simp only [bind, Option.bind_eq_some_iff] at h
      obtain ⟨⟨units', rest'⟩, hmore, heq⟩ := h
      obtain ⟨rfl, rfl⟩ : c.toNat :: units' = units ∧ rest' = rest := by simpa using heq
      -- a backslash at the end of the text has no unit after it
      have hbackslash : c ≠ '\\' := by
        intro hc
        cases more with
        | nil => cases hmore
        | cons e more => exact hslash e more hc rfl
      obtain ⟨body, rfl, rfl⟩ := ih hmore
      exact ⟨.plain c hquote hbackslash (Nat.le_of_not_lt hcontrol) :: body, rfl, rfl⟩
    · exact hquote
    · exact hnumber
    · exact hslash

/-- A literal that was read is some body with the text that it stands for. -/
theorem exists_body_of_string? {text : Option String} (h : string? cs = some (text, rest)) :
    ∃ body : Body, cs = body.chars ++ '"' :: rest ∧ body.text? = text := by
  simp only [string?, Option.map_eq_some_iff] at h
  obtain ⟨⟨units, rest'⟩, hunits, heq⟩ := h
  obtain ⟨rfl, rfl⟩ := Prod.mk.inj heq
  obtain ⟨body, hcs, rfl⟩ := exists_body hunits
  exact ⟨body, hcs, rfl⟩

/-- Digits and what follows them. -/
theorem digits_eq {ds : List Char} (h : digits cs = (ds, rest)) :
    cs = ds ++ rest ∧ ∀ c ∈ ds, isDigit c = true := by
  rw [digits, List.span_eq_takeWhile_dropWhile] at h
  obtain ⟨rfl, rfl⟩ := Prod.mk.inj h
  exact ⟨List.takeWhile_append_dropWhile.symm, fun _ hc => List.mem_takeWhile_imp hc⟩

theorem exists_places {places : Option (List Char)} (h : fraction? cs = some (places, rest)) :
    cs = (places.map ('.' :: ·)).getD [] ++ rest ∧
      (∀ ds ∈ places, ∀ c ∈ ds, isDigit c = true) ∧ ∀ ds ∈ places, ds ≠ [] := by
  unfold fraction? at h
  split at h
  · rename_i more
    rcases hdigits : digits more with ⟨ds, after⟩
    rw [hdigits] at h
    dsimp only at h
    split at h
    · cases h
    · rename_i hne
      obtain ⟨rfl, rfl⟩ : some ds = places ∧ after = rest := by simpa using h
      obtain ⟨rfl, hds⟩ := digits_eq hdigits
      refine ⟨rfl, ?_, ?_⟩
      · rintro _ ⟨⟩
        exact hds
      · rintro _ ⟨⟩ rfl
        exact hne rfl
  · obtain ⟨rfl, rfl⟩ : none = places ∧ cs = rest := by simpa using h
    exact ⟨rfl, nofun, nofun⟩

theorem exists_power {power : Option Int} (h : exponent? cs = some (power, rest)) :
    ∃ p : Option Power, cs = (p.map Power.chars).getD [] ++ rest ∧ p.map Power.value = power := by
  have hsome : ∀ (e : Char) (sign more : List Char), (e == 'e' || e == 'E') = true →
      (sign = [] ∨ sign = ['+'] ∨ sign = ['-']) → cs = e :: (sign ++ more) →
      (if (digits more).1.isEmpty then none else
        some (some (if sign = ['-'] then -(natOfDigits (digits more).1 : Int)
          else natOfDigits (digits more).1), (digits more).2)) = some (power, rest) →
      ∃ p : Option Power, cs = (p.map Power.chars).getD [] ++ rest ∧ p.map Power.value = power := by
    intro e sign more he hsign hcs h
    split at h
    · cases h
    · rename_i hne
      obtain ⟨rfl, rfl⟩ := Prod.mk.inj (Option.some.inj h)
      obtain ⟨hmore, hds⟩ := digits_eq (Prod.eta (digits more)).symm
      have hmark : e = 'e' ∨ e = 'E' := by simpa using he
      refine ⟨some ⟨e, sign, (digits more).1, hmark, hsign, hds, by simpa using hne⟩, ?_, rfl⟩
      rw [hmore] at hcs
      simpa [Power.chars] using hcs
  have hnone : some (none, cs) = some (power, rest) →
      ∃ p : Option Power, cs = (p.map Power.chars).getD [] ++ rest ∧ p.map Power.value = power := by
    rintro ⟨⟩
    exact ⟨none, rfl, rfl⟩
  unfold exponent? at h
  split at h
  · rename_i e more
    split at h
    · rename_i he
      exact hsome e ['-'] more he (.inr (.inr rfl)) rfl h
    · exact hnone h
  · rename_i e more
    split at h
    · rename_i he
      exact hsome e ['+'] more he (.inr (.inl rfl)) rfl h
    · exact hnone h
  · rename_i e more _ _
    split at h
    · rename_i he
      exact hsome e [] more he (.inl rfl) rfl h
    · exact hnone h
  · exact hnone h

/-- A number that was read from after its sign. -/
theorem exists_figure {negative : Bool} (h : number? negative cs rounding = some (d, rest)) :
    ∃ f : Figure, f.negative = negative ∧ cs = f.magnitude ++ rest ∧
      ∀ rounding, number? negative cs rounding = some (f.draft rounding, rest) := by
  unfold number? at h ⊢
  rcases hdigits : digits cs with ⟨whole, tail⟩
  rw [hdigits] at h
  dsimp only at h ⊢
  split at h
  · cases h
  · rename_i hfront
    have hwhole : whole ≠ [] ∧ (whole.head? = some '0' → whole.length ≤ 1) := by
      simpa using hfront
    simp only [bind, pure, Option.bind_eq_some_iff] at h
    obtain ⟨⟨places, mid⟩, hplaces, ⟨power, after⟩, hpower, heq⟩ := h
    obtain ⟨rfl, rfl⟩ := Prod.mk.inj (Option.some.inj heq)
    obtain ⟨rfl, hisDigit⟩ := digits_eq hdigits
    obtain ⟨hmid, hall, hne⟩ := exists_places hplaces
    obtain ⟨p, hafter, rfl⟩ := exists_power hpower
    dsimp only at hafter hpower ⊢
    have hzero : whole.head? = some '0' → whole.length = 1 := fun hhead =>
      Nat.le_antisymm (hwhole.2 hhead) (List.length_pos_iff.2 hwhole.1)
    refine ⟨⟨negative, whole, places, p, hisDigit, hwhole.1, hzero, hall, hne⟩, rfl, ?_, ?_⟩
    · rw [hmid, hafter]
      simp [Figure.magnitude, Figure.tail]
    · intro rounding
      rw [if_neg hfront, hplaces]
      simp only [bind, Option.bind, hpower]
      rfl

/-! ### Every value that is read is a script

The script says what is read, however the numbers in it are rounded. -/

theorem exists_word {gap : Blanks} (hgap : cs = gap.chars ++ skipSpace cs) (w : Word)
    (h : skipSpace cs = w.chars ++ rest)
    (hread : ∀ rounding, readValue bound cs rounding = (w.draft rounding, some rest)) :
    ∃ x : Script, cs = x.chars ++ rest ∧
      ∀ rounding, readValue bound cs rounding = (x.draft rounding, some rest) :=
  ⟨.word gap w, by rw [hgap, h]; simp, hread⟩

theorem exists_number (negative : Bool) {gap : Blanks} (hgap : cs = gap.chars ++ skipSpace cs)
    {more : List Char} (hmore : skipSpace cs = if negative then '-' :: more else more)
    (hread : ∀ rounding, readValue bound cs rounding = orBroken (number? negative more rounding))
    (h : orBroken (number? negative more rounding) = (d, some rest)) :
    ∃ x : Script, cs = x.chars ++ rest ∧
      ∀ rounding, readValue bound cs rounding = (x.draft rounding, some rest) := by
  cases hnumber : number? negative more rounding with
  | none =>
    rw [hnumber] at h
    cases h
  | some read =>
    obtain ⟨d, rest⟩ := read
    rw [hnumber] at h
    cases h
    obtain ⟨f, rfl, rfl, hfigure⟩ := exists_figure hnumber
    refine exists_word hgap (.number f) (hmore.trans ?_) fun rounding => ?_
    · cases hsign : f.negative <;> simp [Word.chars, Figure.chars, hsign]
    · rw [hread, hfigure]
      rfl

mutual

/-- What is read as a value, without breaking, is the text of a script. -/
theorem exists_script (bound : Nat) {cs rest : List Char} {d : Draft}
    (h : readValue bound cs rounding = (d, some rest)) :
    ∃ x : Script, cs = x.chars ++ rest ∧
      ∀ rounding, readValue bound cs rounding = (x.draft rounding, some rest) := by
  cases bound with
  | zero => cases h
  | succ bound =>
    obtain ⟨gap, hgap⟩ := exists_blanks cs
    rw [readValue] at h
    split at h
    · rename_i more heq
      obtain ⟨inner, hinner⟩ := exists_blanks more
      split at h
      · rename_i after hclose
        cases h
        refine ⟨.emptyArray gap inner, ?_, fun rounding => ?_⟩
        · rw [hgap, heq, hinner, hclose]
          simp
        · simp only [readValue, heq, hclose]
          rfl
      · rcases hread : readItems bound more rounding with ⟨items, rest'⟩
        rw [hread] at h
        cases h
        obtain ⟨xs, rfl, hitems⟩ := exists_items bound hread
        refine ⟨.array gap xs, ?_, fun rounding => ?_⟩
        · rw [hgap, heq]
          simp
        · simp only [readValue, heq, hitems]
          rfl
    · rename_i more heq
      obtain ⟨inner, hinner⟩ := exists_blanks more
      split at h
      · rename_i after hclose
        cases h
        refine ⟨.emptyObject gap inner, ?_, fun rounding => ?_⟩
        · rw [hgap, heq, hinner, hclose]
          simp
        · simp only [readValue, heq, hclose]
          rfl
      · rcases hread : readMembers bound more rounding with ⟨members, rest'⟩
        rw [hread] at h
        cases h
        obtain ⟨ms, rfl, hmembers⟩ := exists_members bound hread
        refine ⟨.object gap ms, ?_, fun rounding => ?_⟩
        · rw [hgap, heq]
          simp
        · simp only [readValue, heq, hmembers]
          rfl
    · rename_i more heq
      cases hstring : string? more with
      | none =>
        rw [hstring] at h
        cases h
      | some read =>
        obtain ⟨text, rest'⟩ := read
        rw [hstring] at h
        cases h
        obtain ⟨body, rfl, rfl⟩ := exists_body_of_string? hstring
        refine ⟨.string gap body, ?_, fun rounding => ?_⟩
        · rw [hgap, heq]
          simp
        · simp only [readValue, heq, hstring]
          rfl
    · rename_i more heq
      cases h
      exact exists_word hgap (.boolean true) heq fun _ => by simp only [readValue, heq]; rfl
    · rename_i more heq
      cases h
      exact exists_word hgap (.boolean false) heq fun _ => by simp only [readValue, heq]; rfl
    · rename_i more heq
      cases h
      exact exists_word hgap .null heq fun _ => by simp only [readValue, heq]; rfl
    · rename_i more heq
      exact exists_number true hgap heq (fun _ => by simp only [readValue, heq]) h
    · exact exists_number false hgap rfl (fun _ => by simp only [readValue]; rfl) h

theorem exists_items (bound : Nat) {cs rest : List Char} {items : List Draft}
    (h : readItems bound cs rounding = (items, some rest)) :
    ∃ xs : Items, cs = xs.chars ++ rest ∧
      ∀ rounding, readItems bound cs rounding = (xs.drafts rounding, some rest) := by
  cases bound with
  | zero => cases h
  | succ bound =>
    rw [readItems] at h
    rcases hread : readValue bound cs rounding with ⟨d, _ | more⟩
    · rw [hread] at h
      cases h
    · rw [hread] at h
      obtain ⟨x, rfl, hitem⟩ := exists_script bound hread
      obtain ⟨after, hafter⟩ := exists_blanks more
      dsimp only at h
      split at h
      · rename_i close hclose
        cases h
        refine ⟨.last x after, ?_, fun rounding => ?_⟩
        · rw [hafter, hclose]
          simp
        · simp only [readItems, hitem, hclose]
          rfl
      · rename_i comma hcomma
        rcases hitems : readItems bound comma rounding with ⟨items, rest'⟩
        rw [hitems] at h
        cases h
        obtain ⟨xs, rfl, hmore⟩ := exists_items bound hitems
        refine ⟨.next x after xs, ?_, fun rounding => ?_⟩
        · rw [hafter, hcomma]
          simp
        · simp only [readItems, hitem, hcomma, hmore]
          rfl
      · cases h

theorem exists_members (bound : Nat) {cs rest : List Char}
    {members : List (Option String × Draft)}
    (h : readMembers bound cs rounding = (members, some rest)) :
    ∃ ms : Members, cs = ms.chars ++ rest ∧
      ∀ rounding, readMembers bound cs rounding = (ms.drafts rounding, some rest) := by
  cases bound with
  | zero => cases h
  | succ bound =>
    obtain ⟨before, hbefore⟩ := exists_blanks cs
    rw [readMembers] at h
    split at h
    · rename_i more heq
      cases hstring : string? more with
      | none =>
        rw [hstring] at h
        cases h
      | some read =>
        obtain ⟨text, named⟩ := read
        rw [hstring] at h
        obtain ⟨name, rfl, rfl⟩ := exists_body_of_string? hstring
        obtain ⟨colon, hcolon⟩ := exists_blanks named
        dsimp only at h
        split at h
        · rename_i part hpart
          rcases hread : readValue bound part rounding with ⟨d, _ | more⟩
          · rw [hread] at h
            cases h
          · rw [hread] at h
            obtain ⟨x, rfl, hvalue⟩ := exists_script bound hread
            obtain ⟨after, hafter⟩ := exists_blanks more
            dsimp only at h
            split at h
            · rename_i close hclose
              cases h
              refine ⟨.last before name colon x after, ?_, fun rounding => ?_⟩
              · rw [hbefore, heq, hcolon, hpart, hafter, hclose]
                simp
              · simp only [readMembers, heq, hstring, hpart, hvalue, hclose]
                rfl
            · rename_i comma hcomma
              rcases hmembers : readMembers bound comma rounding with ⟨members, rest'⟩
              rw [hmembers] at h
              cases h
              obtain ⟨ms, rfl, hmore⟩ := exists_members bound hmembers
              refine ⟨.next before name colon x after ms, ?_, fun rounding => ?_⟩
              · rw [hbefore, heq, hcolon, hpart, hafter, hcomma]
                simp
              · simp only [readMembers, heq, hstring, hpart, hvalue, hcomma, hmore]
                rfl
            · cases h
        · cases h
    · cases h

end

end Draft

end DocMatch
