import DocMatch.Json.Draft
import DocMatch.Json.Printer
import DocMatch.Proofs.Number.Digits
import DocMatch.Proofs.Text.Classes
import Mathlib.Data.List.TakeDrop

/-!
Strings and integers that were written are read as what they were. In a string every character is
one unit again, escaped or not, and characters are never halves of a pair; an integer has no zero in
front, and ends where no more of a number can follow.

    string      a " ⏎            "a\"\n"            units 97 34 10
    integer     -10              -10                sign, then digits
-/

namespace DocMatch

namespace Draft

/-! ### Strings -/

variable {rest more : List Char} {units : List Nat}

theorem hexValue?_hexDigit {n : Nat} (h : n < 16) : hexValue? (Json.hexDigit n) = some n := by
  have hall : ∀ n < 16, hexValue? (Json.hexDigit n) = some n := by decide
  exact hall n h

/-- A control is written by its number, in four digits. -/
theorem units?_control {c : Char} (hcontrol : c.toNat < 0x20)
    (h : units? rest = some (units, more)) :
    units? ('\\' :: 'u' :: '0' :: '0' :: Json.hexDigit (c.toNat / 16) ::
        Json.hexDigit (c.toNat % 16) :: rest) = some (c.toNat :: units, more) := by
  have hvalue : hexValue4? '0' '0' (Json.hexDigit (c.toNat / 16)) (Json.hexDigit (c.toNat % 16)) =
      some (c.toNat / 16 * 16 + c.toNat % 16) := by
    simp [hexValue4?, hexValue?_hexDigit (show c.toNat / 16 < 16 by omega),
      hexValue?_hexDigit (show c.toNat % 16 < 16 by omega), show hexValue? '0' = some 0 from rfl]
  have hc : c.toNat / 16 * 16 + c.toNat % 16 = c.toNat := Nat.div_add_mod' _ _
  rw [units?, hvalue, h, hc]
  rfl

/-- However a character is written, it is one unit again. -/
theorem units?_escape (c : Char) (h : units? rest = some (units, more)) :
    units? (Json.escape c ++ rest) = some (c.toNat :: units, more) := by
  unfold Json.escape
  split
  case h_8 hquote hslash _ _ _ _ _ =>
    split
    case isTrue hcontrol => exact units?_control hcontrol h
    case isFalse hcontrol =>
      rw [List.singleton_append, units?, if_neg hcontrol, h]
      · rfl
      · exact hquote
      · exact fun _ _ _ _ _ h _ => hslash h
      · exact fun _ _ h _ => hslash h
  all_goals simp [units?, unescape?, h]

theorem units?_flatMap (cs rest : List Char) :
    units? (cs.flatMap Json.escape ++ '"' :: rest) = some (cs.map Char.toNat, rest) := by
  induction cs with
  | nil => rfl
  | cons c cs ih =>
    rw [List.flatMap_cons, List.append_assoc]
    exact units?_escape c ih

/-- No character is half a pair. -/
theorem not_isLeading (c : Char) : isLeading c.toNat = false := by
  have h : c.toNat < 0xD800 ∨ 0xDFFF < c.toNat ∧ c.toNat < 0x110000 := c.valid
  rw [isLeading, Bool.and_eq_false_iff, decide_eq_false_iff_not, decide_eq_false_iff_not]
  omega

theorem not_isTrailing (c : Char) : isTrailing c.toNat = false := by
  have h : c.toNat < 0xD800 ∨ 0xDFFF < c.toNat ∧ c.toNat < 0x110000 := c.valid
  rw [isTrailing, Bool.and_eq_false_iff, decide_eq_false_iff_not, decide_eq_false_iff_not]
  omega

theorem join?_map_toNat (cs : List Char) : join? (cs.map Char.toNat) = some cs := by
  induction cs with
  | nil => rfl
  | cons c cs ih =>
    cases cs with
    | nil => simp [join?, not_isLeading, not_isTrailing]
    | cons d cs =>
      rw [List.map_cons] at ih
      simp [join?, not_isLeading, not_isTrailing, ih]

/-- A written string is read as its text. -/
theorem string?_quote (s : String) (rest : List Char) :
    string? (s.toList.flatMap Json.escape ++ '"' :: rest) = some (some s, rest) := by
  rw [string?, units?_flatMap, Option.map_some]
  simp only [join?_map_toNat, Option.map_some, String.ofList_toList]

/-! ### Numbers -/

/-- No more of a number follows. -/
def EndsNumber (rest : List Char) : Prop :=
  Ends (fun c => isDigit c || c == '.' || c == 'e' || c == 'E') rest

theorem EndsNumber.ends_digit (h : EndsNumber rest) : Ends isDigit rest := by
  intro c hc
  have := h c hc
  simp only [Bool.or_eq_false_iff] at this
  exact this.1.1.1

theorem fraction?_of_ends (h : EndsNumber rest) : fraction? rest = some (none, rest) := by
  unfold fraction?
  split
  · exact absurd (h '.' rfl) (by decide)
  · rfl

theorem exponent?_of_ends (h : EndsNumber rest) : exponent? rest = some (none, rest) := by
  cases rest with
  | nil => rfl
  | cons c rest =>
    have hc := h c rfl
    simp only [Bool.or_eq_false_iff] at hc
    unfold exponent?
    split <;> simp_all

theorem digits_append {ds : List Char} (hds : ∀ c ∈ ds, isDigit c = true)
    (h : Ends isDigit rest) : digits (ds ++ rest) = (ds, rest) := by
  rw [digits, List.span_eq_takeWhile_dropWhile, takeWhile_of_ends hds h, dropWhile_of_ends hds h]

/-- A number is read part by part; its whole part has no zero in front. -/
theorem number?_append (negative : Bool) {whole tail mid : List Char}
    {fraction : Option (List Char)} {power : Option Int} (hdigits : ∀ c ∈ whole, isDigit c = true)
    (hne : whole ≠ []) (hzero : whole.head? = some '0' → whole.length = 1)
    (hends : Ends isDigit tail) (hfraction : fraction? tail = some (fraction, mid))
    (hpower : exponent? mid = some (power, rest)) :
    number? negative (whole ++ tail) = some (number negative whole fraction power, rest) := by
  have hfront : (whole.isEmpty || (whole.head? == some '0' && 1 < whole.length)) = false := by
    simp only [Bool.or_eq_false_iff, List.isEmpty_eq_false_iff, Bool.and_eq_false_imp, beq_iff_eq,
      decide_eq_false_iff_not]
    exact ⟨hne, fun hhead => by rw [hzero hhead]; decide⟩
  unfold number?
  rw [digits_append hdigits hends]
  simp [hfront, hfraction, hpower]

/-- Digits of a number have no zero in front, but for the one of zero. -/
theorem length_natDigits_of_head? {n : Nat} (h : (Layout.natDigits n).head? = some '0') :
    (Layout.natDigits n).length = 1 := by
  rw [Layout.eq_zero_of_head?_natDigits h]
  rfl

theorem number?_natDigits (negative : Bool) (n : Nat) (h : EndsNumber rest) :
    number? negative (Layout.natDigits n ++ rest) =
      some (number negative (Layout.natDigits n) none none, rest) :=
  number?_append negative (fun _ => Layout.isDigit_of_mem_natDigits) (Layout.natDigits_ne_nil n)
    length_natDigits_of_head? h.ends_digit (fraction?_of_ends h) (exponent?_of_ends h)

/-! ### Values without parts -/

variable {bound : Nat}

theorem quote_append (s : String) (rest : List Char) :
    Json.quote s ++ rest = '"' :: (s.toList.flatMap Json.escape ++ '"' :: rest) := by
  simp [Json.quote]

theorem skipSpace_cons {c : Char} (h : isSpace c = false) (cs : List Char) :
    skipSpace (c :: cs) = c :: cs :=
  List.dropWhile_cons_of_neg (by simp [h])

theorem readValue_quote (s : String) (rest : List Char) :
    readValue (bound + 1) (Json.quote s ++ rest) = (string (some s), some rest) := by
  rw [quote_append, readValue, skipSpace_cons (show isSpace '"' = false from rfl)]
  simp only [string?_quote]
  rfl

theorem isSpace_of_isDigit {c : Char} (h : isDigit c = true) : isSpace c = false := by
  simp only [isSpace, Bool.or_eq_false_iff, beq_eq_false_iff_ne]
  refine ⟨⟨⟨?_, ?_⟩, ?_⟩, ?_⟩ <;> rintro rfl <;> cases h

/-- What begins with a digit is a number. -/
theorem readValue_digit {c : Char} {cs : List Char} (hc : isDigit c = true) :
    readValue (bound + 1) (c :: cs) = orBroken (number? false (c :: cs)) := by
  rw [readValue, skipSpace_cons (isSpace_of_isDigit hc)]
  split
  case h_8 => rfl
  all_goals
    rename_i heq
    obtain ⟨rfl, _⟩ := List.cons.inj heq
    cases hc

/-- Digits alone are an integer, unless they are minus zero. -/
theorem number_natDigits {negative : Bool} {n : Nat} (h : negative = true → n ≠ 0) :
    number negative (Layout.natDigits n) none none =
      integer (if negative then -(n : Int) else n) := by
  have hzero : (negative && n == 0) = false := by
    cases negative with
    | false => rfl
    | true => exact beq_false_of_ne (h rfl)
  simp [number, Layout.natOfDigits_natDigits, hzero]

theorem readValue_intDigits (n : Int) (h : EndsNumber rest) :
    readValue (bound + 1) (Layout.intDigits n ++ rest) = (integer n, some rest) := by
  unfold Layout.intDigits
  split
  case isTrue hn =>
    have hread : readValue (bound + 1) ('-' :: Layout.natDigits n.natAbs ++ rest) =
        orBroken (number? true (Layout.natDigits n.natAbs ++ rest)) := rfl
    have hneg : (if true = true then -(n.natAbs : Int) else n.natAbs) = n := by
      rw [if_pos rfl]
      omega
    rw [hread, number?_natDigits true _ h, @number_natDigits true _ fun _ => by omega, hneg]
    rfl
  case isFalse hn =>
    have habs : (if false = true then -(n.natAbs : Int) else n.natAbs) = n := by
      rw [if_neg Bool.false_ne_true]
      omega
    obtain ⟨c, cs, hcons, hc⟩ := Layout.natDigits_head n.natAbs
    rw [hcons, List.cons_append, readValue_digit hc, ← List.cons_append, ← hcons,
      number?_natDigits false _ h, @number_natDigits false _ nofun, habs]
    rfl

end Draft

end DocMatch
