import DocMatch.Document
import DocMatch.Proofs.Json.Floats
import DocMatch.Proofs.Json.Pieces
import DocMatch.Proofs.Result

/-!
JSON texts that mean the same however their numbers are rounded. Each number is looked at by itself;
if all of them are the same rounded once and rounded in steps, the text has one value.

    0.1, -2.5e3, 1e22                       digits and power of ten are exact
    0.30000000000000004, 6.62607015e-34     alike when both are tried
    51.248178375505404                      not alike
-/

namespace DocMatch

namespace Draft

/-- The number that was read, if it is one. -/
def literal? : Draft → Option Literal
  | integer n => some (Literal.ofInt n)
  | float x => some (.float x)
  | _ => none

/-- Whether the parts of a number write the same number rounded once and in steps. Both are tried,
unless the digits and the power of ten are exact. -/
def partsAlike (negative : Bool) (whole : List Char) (fraction : Option (List Char))
    (power : Option Int) : Bool :=
  Rounding.isShort whole (fraction.getD []) (power.getD 0) ||
    (number negative whole fraction power .inSteps).literal? ==
      (number negative whole fraction power).literal?

/-- Whether the characters after a sign write the same number rounded once and in steps. -/
def roundsAlike (negative : Bool) (cs : List Char) : Bool :=
  let (whole, rest) := digits cs
  (fraction? rest).all fun (fraction, rest) =>
    (exponent? rest).all fun (power, _) => partsAlike negative whole fraction power

end Draft

namespace Json

/-- Whether a piece means the same however numbers are rounded. -/
def Piece.roundsAlike : Piece → Bool
  | word ('-' :: cs) => Draft.roundsAlike true cs
  | word cs => Draft.roundsAlike false cs
  | _ => true

example : ∀ s ∈ ["0.1", "-2.5e3", "1e22", "0.30000000000000004", "6.62607015e-34", "null"],
    (Piece.word s.toList).roundsAlike = true := by decide +kernel

example : (Piece.word "51.248178375505404".toList).roundsAlike = false := by decide +kernel

end Json

open Json

/-! ### The parts of a number -/

namespace Json

namespace Power

/-- What a power of ten begins with is no digit. -/
theorem ends_chars (p : Option Power) : Ends DocMatch.isDigit ((p.map Power.chars).getD []) := by
  cases p with
  | none => simp [Ends]
  | some p =>
    rintro _ ⟨⟩
    rcases p.mark_eq with h | h <;> rw [h] <;> rfl

theorem exponent?_chars (p : Option Power) :
    Draft.exponent? ((p.map Power.chars).getD []) = some (p.map Power.value, []) := by
  cases p with
  | none => rfl
  | some p =>
    have hends : Ends DocMatch.isDigit [] := by simp [Ends]
    have hdigits := Draft.digits_append p.isDigit hends
    rw [List.append_nil] at hdigits
    have hmark : (p.mark == 'e' || p.mark == 'E') = true := by
      rcases p.mark_eq with h | h <;> rw [h] <;> rfl
    rw [Option.map_some, Option.getD_some, Power.chars, Option.map_some, Power.value]
    rcases p.sign_eq with h | h | h
    · obtain ⟨d, ds, hcons⟩ := List.exists_cons_of_ne_nil p.ne_nil
      have hd := p.isDigit d (hcons ▸ List.mem_cons_self)
      have hminus : d ≠ '-' := by rintro rfl; cases hd
      have hplus : d ≠ '+' := by rintro rfl; cases hd
      rw [hcons] at hdigits ⊢
      simp [h, Draft.exponent?, hmark, hminus, hplus, hdigits]
    · simp [h, Draft.exponent?, hmark, hdigits, p.ne_nil]
    · simp [h, Draft.exponent?, hmark, hdigits, p.ne_nil]

end Power

namespace Figure

/-- What follows the whole part does not begin with a digit. -/
theorem tail_cases (f : Figure) : (f.tail = [] ∧ f.places = none ∧ f.power = none) ∨
    ∃ c cs, f.tail = c :: cs ∧ (c = '.' ∨ c = 'e' ∨ c = 'E') ∧
      (f.places.isNone && (f.power.map Power.value).isNone) = false := by
  cases hplaces : f.places with
  | some ds => exact .inr ⟨'.', _, by rw [tail, hplaces]; rfl, .inl rfl, rfl⟩
  | none =>
    cases hpower : f.power with
    | none => exact .inl ⟨by rw [tail, hplaces, hpower]; rfl, rfl, rfl⟩
    | some p => exact .inr ⟨p.mark, _, by rw [tail, hplaces, hpower]; rfl, .inr p.mark_eq, rfl⟩

theorem ends_tail (f : Figure) : Ends isDigit f.tail := by
  rcases f.tail_cases with ⟨h, -⟩ | ⟨c, cs, h, hc, -⟩
  · simp [h, Ends]
  · rw [h]
    rintro _ ⟨⟩
    rcases hc with rfl | rfl | rfl <;> rfl

/-- A number begins with a digit, and with a zero only if no digit comes after it. -/
theorem magnitude_cases (f : Figure) : ∃ d cs, f.magnitude = d :: cs ∧ isDigit d = true ∧
    (d = '0' → cs = f.tail) := by
  obtain ⟨d, ds, hwhole⟩ := List.exists_cons_of_ne_nil f.whole_ne_nil
  refine ⟨d, ds ++ f.tail, by rw [magnitude, hwhole]; rfl,
    f.whole_isDigit d (hwhole ▸ List.mem_cons_self), ?_⟩
  rintro rfl
  have hlength := f.whole_zero (by rw [hwhole]; rfl)
  rw [hwhole, List.length_cons] at hlength
  rw [List.eq_nil_of_length_eq_zero (by omega : ds.length = 0), List.nil_append]

theorem digits_magnitude (f : Figure) : Draft.digits f.magnitude = (f.whole, f.tail) :=
  Draft.digits_append f.whole_isDigit f.ends_tail

theorem fraction?_tail (f : Figure) :
    Draft.fraction? f.tail = some (f.places, (f.power.map Power.chars).getD []) := by
  cases hplaces : f.places with
  | some ds =>
    rw [tail, hplaces]
    exact Draft.fraction?_point (f.places_isDigit ds hplaces) (f.places_ne_nil ds hplaces)
      (Power.ends_chars f.power)
  | none =>
    have htail : f.tail = (f.power.map Power.chars).getD [] := by
      rw [tail, hplaces]
      rfl
    rw [htail]
    cases f.power with
    | none => rfl
    | some p =>
      have hpoint : p.mark ≠ '.' := by
        rcases p.mark_eq with h | h <;> rw [h] <;> decide
      simp [Power.chars, Draft.fraction?, hpoint]

theorem roundsAlike_magnitude (f : Figure) : Draft.roundsAlike f.negative f.magnitude =
    Draft.partsAlike f.negative f.whole f.places (f.power.map Power.value) := by
  rw [Draft.roundsAlike, digits_magnitude]
  simp only [fraction?_tail, Power.exponent?_chars, Option.all_some]

theorem roundsAlike_chars (f : Figure) : (Piece.word f.chars).roundsAlike =
    Draft.partsAlike f.negative f.whole f.places (f.power.map Power.value) := by
  rw [← roundsAlike_magnitude, chars]
  cases hsign : f.negative with
  | true => rfl
  | false =>
    obtain ⟨d, cs, hcons, hd, -⟩ := f.magnitude_cases
    have hminus : d ≠ '-' := by rintro rfl; cases hd
    rw [if_neg Bool.false_ne_true, hcons]
    simp [Piece.roundsAlike, hminus]

end Figure

end Json

/-! ### Numbers that are rounded alike -/

namespace Draft

variable {negative : Bool} {whole : List Char} {fraction : Option (List Char)} {power : Option Int}
  {rounding : Rounding} {limit : Nat}

theorem literal?_of_isShort
    (h : Rounding.isShort whole (fraction.getD []) (power.getD 0) = true) :
    (number negative whole fraction power .inSteps).literal? =
      (number negative whole fraction power).literal? := by
  cases hpart : (fraction.isNone && power.isNone) with
  | false => simp [number, hpart, Rounding.read_inSteps negative h]
  | true =>
    obtain ⟨rfl, rfl⟩ : fraction = none ∧ power = none := by simpa using hpart
    have hfits : natOfDigits whole < Nat.pow 2 64 := by
      have : natOfDigits whole ≤ 2 ^ 53 := by simpa [Rounding.isShort] using h
      exact lt_of_le_of_lt this (by decide)
    simp only [number, Option.isNone_none, Bool.and_self, hfits, decide_true, Bool.or_true]
    rfl

theorem literal?_of_partsAlike (h : partsAlike negative whole fraction power = true) :
    (number negative whole fraction power rounding).literal? =
      (number negative whole fraction power).literal? := by
  cases rounding with
  | once => rfl
  | inSteps =>
    rcases Bool.or_eq_true_iff.1 h with h | h
    · exact literal?_of_isShort h
    · exact beq_iff_eq.1 h

/-- What is read as a number is one. -/
theorem exists_literal? :
    ∃ l, (number negative whole fraction power rounding).literal? = some l := by
  unfold number
  dsimp only
  split
  · split <;> exact ⟨_, rfl⟩
  · exact ⟨_, rfl⟩

theorem toValue_of_literal? {d : Draft} {l : Literal} (h : d.literal? = some l) :
    d.toValue limit = (checkedLiteral l).map Literal.toValue := by
  cases d <;> cases h <;> rfl

theorem toValue_of_partsAlike (h : partsAlike negative whole fraction power = true) :
    (number negative whole fraction power rounding).toValue limit =
      (number negative whole fraction power).toValue limit := by
  obtain ⟨l, hl⟩ := @exists_literal? negative whole fraction power .once
  rw [toValue_of_literal? hl, toValue_of_literal? ((literal?_of_partsAlike h).trans hl)]

end Draft

/-! ### Texts that are read alike -/

namespace Json

variable {rounding : Rounding}

theorem Word.toValue_draft (w : Word) (h : (Piece.word w.chars).roundsAlike = true) (limit : Nat) :
    (w.draft rounding).toValue limit = w.draft.toValue limit := by
  cases w with
  | null => rfl
  | boolean b => rfl
  | number f => exact Draft.toValue_of_partsAlike (f.roundsAlike_chars ▸ h)

mutual

/-- A script with numbers that are rounded alike has one value. -/
theorem Script.toValue_draft (x : Script) (h : x.pieces.all (·.2.roundsAlike) = true)
    (limit : Nat) : (x.draft rounding).toValue limit = x.draft.toValue limit := by
  cases x with
  | word gap w => exact w.toValue_draft (by simpa [Script.pieces] using h) limit
  | string gap body => rfl
  | emptyArray gap inner => rfl
  | array gap items =>
    rw [Script.pieces, List.all_cons, Bool.and_eq_true] at h
    simp only [Script.draft, Draft.toValue, items.toItems_drafts h.2]
  | emptyObject gap inner => rfl
  | object gap members =>
    rw [Script.pieces, List.all_cons, Bool.and_eq_true] at h
    simp only [Script.draft, Draft.toValue, members.toFields_drafts h.2]

theorem Items.toItems_drafts (xs : Items) (h : xs.pieces.all (·.2.roundsAlike) = true)
    (limit : Nat) : Draft.toItems limit (xs.drafts rounding) = Draft.toItems limit xs.drafts := by
  cases xs with
  | last item after =>
    rw [Items.pieces, List.all_append, Bool.and_eq_true] at h
    simp only [Items.drafts, Draft.toItems, item.toValue_draft h.1]
  | next item after rest =>
    rw [Items.pieces, List.all_append, Bool.and_eq_true, List.all_cons, Bool.and_eq_true] at h
    simp only [Items.drafts, Draft.toItems, item.toValue_draft h.1, rest.toItems_drafts h.2.2]

theorem Members.toFields_drafts (ms : Members) (h : ms.pieces.all (·.2.roundsAlike) = true)
    (limit : Nat) :
    Draft.toFields limit (ms.drafts rounding) = Draft.toFields limit ms.drafts := by
  cases ms with
  | last before name colon part after =>
    simp only [Members.pieces, List.all_cons, List.all_append, Bool.and_eq_true] at h
    simp only [Members.drafts, Draft.toFields, part.toValue_draft h.2.2.1]
  | next before name colon part after rest =>
    simp only [Members.pieces, List.all_cons, List.all_append, Bool.and_eq_true] at h
    simp only [Members.drafts, Draft.toFields, part.toValue_draft h.2.2.1,
      rest.toFields_drafts h.2.2.2.2]

end

end Json

theorem Draft.endsWell_iff {cs : List Char} :
    endsWell (some cs) = true ↔ ∀ c ∈ cs, isSpace c = true := by
  rw [endsWell, List.isEmpty_iff, skipSpace, List.dropWhile_eq_nil_iff]

namespace Value

variable {text : String} {v : Value} {rounding rounding' : Rounding}

/-- What was read is the text of a script and some blanks, and the script is the value. -/
theorem exists_script_of_json (h : ofText .json text rounding = .ok v) :
    ∃ (x : Script) (last : Blanks), text.toList = x.chars ++ last.chars ∧
      (∀ rounding, Draft.read text.toList rounding = (x.draft rounding, some last.chars)) ∧
        (x.draft rounding).toValue nestingLimit = .ok v := by
  rw [ofText, mapError_eq_ok, ofJsonText] at h
  rcases hread : Draft.read text.toList rounding with ⟨draft, left⟩
  rw [hread] at h
  simp only [bind_eq_ok] at h
  obtain ⟨v', hv, h⟩ := h
  cases left with
  | none => cases h
  | some left =>
    obtain ⟨x, htext, hscript⟩ := Draft.exists_script _ hread
    obtain rfl : x.draft rounding = draft := congrArg Prod.fst ((hscript _).symm.trans hread)
    split at h
    · rename_i hblanks
      cases h
      exact ⟨x, ⟨left, Draft.endsWell_iff.1 hblanks⟩, htext, hscript, hv⟩
    · cases h

/-- If all numbers of a text are rounded alike, it has the same value however they are rounded. So
what was written is read back in steps too, where its numbers are such. -/
theorem ofText_json_of_roundsAlike (h : ofText .json text rounding = .ok v)
    (hpieces : (piecesOf text).all (·.2.roundsAlike) = true) :
    ofText .json text rounding' = .ok v := by
  obtain ⟨x, last, htext, hread, hv⟩ := exists_script_of_json h
  rw [(piecesOf_eq htext).1] at hpieces
  have hvalue : (x.draft rounding').toValue nestingLimit = .ok v :=
    calc (x.draft rounding').toValue nestingLimit
        = x.draft.toValue nestingLimit := x.toValue_draft hpieces nestingLimit
      _ = (x.draft rounding).toValue nestingLimit := (x.toValue_draft hpieces nestingLimit).symm
      _ = .ok v := hv
  rw [ofText, mapError_eq_ok, ofJsonText, hread]
  simp only [hvalue, Draft.endsWell_iff.2 last.isSpace, if_true]
  rfl

end Value

end DocMatch
