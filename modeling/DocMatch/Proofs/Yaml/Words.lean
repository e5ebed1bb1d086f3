import DocMatch.Proofs.Number.ReadBack
import DocMatch.Proofs.Result
import DocMatch.Proofs.Yaml.Portable

/-!
What YAML takes a JSON word for. The words for nothing and for truth values are the same. A number
with a point or a power of ten is the same numeral for both, and so are the digits of a whole
number; a portable one is an integer of 64 bits, with a sign or without, or so large that it is
rounded.

    -1.5e3               numeral   -15 * 10 ^ 2
    -12                  integer   -12
    18446744073709551615 integer, and as a document value the float 18446744073709552000
-/

namespace DocMatch

namespace Json

namespace Figure

/-- The numeral that a number writes. -/
def numeral (f : Figure) : Numeral :=
  ⟨f.negative, natOfDigits (f.whole ++ f.places.getD []),
    (f.power.map Power.value).getD 0 - (f.places.getD []).length⟩

/-- The integer that its sign and its whole part write. -/
def integer (f : Figure) : Int :=
  if f.negative then -(natOfDigits f.whole : Int) else natOfDigits f.whole

end Figure

end Json

namespace Yaml

namespace Plain

open Json

variable {cs ds : List Char} {f : Figure}

/-! ### Whole numbers -/

theorem digitValue?_of_isDigit {c : Char} (h : isDigit c = true) :
    digitValue? 10 c = some (c.toNat - '0'.toNat) := by
  have hrange := isDigit_iff.1 h
  simp only [digitValue?, h, if_true, Char.reduceToNat, Option.filter_some]
  rw [if_pos (by simp; omega)]

/-- Digits are read from left to right, as in JSON. -/
theorem foldlM_digits (n : Nat) (h : ∀ c ∈ ds, isDigit c = true) :
    ds.foldlM (fun n c => (digitValue? 10 c).map (10 * n + ·)) n =
      some (ds.foldl (fun n c => 10 * n + (c.toNat - '0'.toNat)) n) := by
  induction ds generalizing n with
  | nil => rfl
  | cons c ds ih =>
    obtain ⟨hc, hds⟩ := List.forall_mem_cons.1 h
    rw [List.foldlM_cons, digitValue?_of_isDigit hc, Option.map_some, Option.bind_eq_bind,
      Option.bind_some, ih _ hds]
    rfl

theorem digits?_of_isDigit (h : ∀ c ∈ ds, isDigit c = true) (hne : ds ≠ []) :
    digits? 10 ds = some (natOfDigits ds) := by
  cases ds with
  | nil => exact absurd rfl hne
  | cons c ds => exact foldlM_digits 0 h

theorem foldlM_digits_eq_none (n : Nat) {c : Char} (hc : c ∈ cs) (h : digitValue? 10 c = none) :
    cs.foldlM (fun n c => (digitValue? 10 c).map (10 * n + ·)) n = none := by
  induction cs generalizing n with
  | nil => cases hc
  | cons d cs ih =>
    rw [List.foldlM_cons]
    rcases List.mem_cons.1 hc with rfl | hc
    · rw [h]
      rfl
    · cases hd : digitValue? 10 d with
      | none => rfl
      | some k => exact ih _ hc

theorem digits?_eq_none {c : Char} (hc : c ∈ cs) (h : digitValue? 10 c = none) :
    digits? 10 cs = none := by
  cases cs with
  | nil => rfl
  | cons d cs => exact foldlM_digits_eq_none 0 hc h

theorem isZeroPadded_minus {d : Char} (h : isDigit d = true) (cs : List Char) :
    isZeroPadded ('-' :: d :: cs) = isZeroPadded (d :: cs) := by
  have hminus : d ≠ '-' := by rintro rfl; cases h
  have hplus : d ≠ '+' := by rintro rfl; cases h
  simp [isZeroPadded, hminus, hplus]

/-- A number is no zero with more digits. -/
theorem isZeroPadded_magnitude (f : Figure) : isZeroPadded f.magnitude = false := by
  obtain ⟨d, cs, hmagnitude, hd, hzero⟩ := f.magnitude_cases
  rw [hmagnitude]
  by_cases h : d = '0'
  · subst h
    rw [hzero rfl]
    rcases f.tail_cases with ⟨htail, -⟩ | ⟨c, more, htail, hc, -⟩
    · rw [htail]
      rfl
    · rw [htail]
      rcases hc with rfl | rfl | rfl <;> rfl
  · rw [← isZeroPadded_minus hd]
    simp [isZeroPadded, h]

theorem isZeroPadded_chars (f : Figure) : isZeroPadded f.chars = false := by
  have hmagnitude := isZeroPadded_magnitude f
  obtain ⟨d, cs, hcons, hd, -⟩ := f.magnitude_cases
  rw [Figure.chars]
  cases f.negative
  · exact hmagnitude
  · rw [hcons] at hmagnitude ⊢
    exact (isZeroPadded_minus hd cs).trans hmagnitude

/-- No other notation for integers is a JSON number. -/
theorem natural?_magnitude (f : Figure) : natural? f.magnitude = digits? 10 f.magnitude := by
  obtain ⟨d, cs, hmagnitude, hd, hzero⟩ := f.magnitude_cases
  have hpadded := isZeroPadded_magnitude f
  have hform : ∀ b rest, d :: cs = '0' :: b :: rest → b ≠ 'x' ∧ b ≠ 'o' ∧ b ≠ 'b' := by
    intro b rest heq
    obtain ⟨rfl, rfl⟩ := List.cons.inj heq
    rcases f.tail_cases with ⟨htail, -⟩ | ⟨c, more, htail, hc, -⟩
    · rw [htail] at hzero
      cases hzero rfl
    · rw [htail] at hzero
      obtain ⟨rfl, -⟩ := List.cons.inj (hzero rfl)
      rcases hc with rfl | rfl | rfl <;> decide
  rw [hmagnitude] at hpadded ⊢
  unfold natural?
  split
  · rename_i heq
    exact absurd rfl (hform _ _ heq).1
  · rename_i heq
    exact absurd rfl (hform _ _ heq).2.1
  · rename_i heq
    exact absurd rfl (hform _ _ heq).2.2
  · rw [hpadded]
    rfl

theorem integer?_of_negative (h : f.negative = true) : integer? f.chars =
    ((natural? f.magnitude).filter (· ≤ Nat.pow 2 127)).map fun n : Nat => -(n : Int) := by
  rw [Figure.chars, if_pos h, integer?]
  cases (natural? f.magnitude).filter (· ≤ Nat.pow 2 127) <;> rfl

theorem integer?_of_not_negative (h : f.negative = false) : integer? f.chars =
    ((natural? f.magnitude).filter (· < Nat.pow 2 128)).map Int.ofNat := by
  obtain ⟨d, cs, hcons, hd, -⟩ := f.magnitude_cases
  have hminus : d ≠ '-' := by rintro rfl; cases hd
  have hplus : d ≠ '+' := by rintro rfl; cases hd
  rw [Figure.chars, if_neg (by simp [h]), hcons]
  simp [integer?, hminus, hplus]

/-- Digits are the integer they write, if 128 bits hold it. -/
theorem integer?_of_tail (h : f.tail = []) : integer? f.chars =
    if -(2 ^ 127 : Int) ≤ f.integer ∧ f.integer < 2 ^ 128 then some f.integer else none := by
  have hnatural : natural? f.magnitude = some (natOfDigits f.whole) := by
    rw [natural?_magnitude, Figure.magnitude, h, List.append_nil,
      digits?_of_isDigit f.whole_isDigit f.whole_ne_nil]
  cases hsign : f.negative with
  | false =>
    have hinteger : f.integer = natOfDigits f.whole := by simp [Figure.integer, hsign]
    rw [integer?_of_not_negative hsign, hnatural, hinteger]
    simp only [Option.filter_some, Nat.pow_eq, decide_eq_true_eq]
    by_cases hfits : natOfDigits f.whole < 2 ^ 128
    · rw [if_pos hfits, if_pos (by omega)]
      rfl
    · rw [if_neg hfits, if_neg (by omega)]
      rfl
  | true =>
    have hinteger : f.integer = -natOfDigits f.whole := by simp [Figure.integer, hsign]
    rw [integer?_of_negative hsign, hnatural, hinteger]
    simp only [Option.filter_some, Nat.pow_eq, decide_eq_true_eq]
    by_cases hfits : natOfDigits f.whole ≤ 2 ^ 127
    · rw [if_pos hfits, if_pos (by omega)]
      rfl
    · rw [if_neg hfits, if_neg (by omega)]
      rfl

/-- A number with a point or a power of ten is no integer. -/
theorem integer?_eq_none (h : f.tail ≠ []) : integer? f.chars = none := by
  obtain ⟨c, hc, hvalue⟩ : ∃ c ∈ f.magnitude, digitValue? 10 c = none := by
    rcases f.tail_cases with ⟨htail, -⟩ | ⟨c, cs, htail, hc, -⟩
    · exact absurd htail h
    · refine ⟨c, List.mem_append_right _ (htail ▸ List.mem_cons_self), ?_⟩
      rcases hc with rfl | rfl | rfl <;> rfl
  have hnatural : natural? f.magnitude = none :=
    (natural?_magnitude f).trans (digits?_eq_none hc hvalue)
  cases hsign : f.negative
  · rw [integer?_of_not_negative hsign, hnatural]
    rfl
  · rw [integer?_of_negative hsign, hnatural]
    rfl

/-! ### Other numbers -/

theorem power?_chars (p : Power) : power? p.chars = some p.value := by
  have hdigits := digits?_of_isDigit p.isDigit p.ne_nil
  have hmark : (p.mark == 'e' || p.mark == 'E') = true := by
    rcases p.mark_eq with h | h <;> rw [h] <;> rfl
  rw [Power.chars, Power.value]
  rcases p.sign_eq with h | h | h
  · obtain ⟨d, ds, hcons⟩ := List.exists_cons_of_ne_nil p.ne_nil
    have hd := p.isDigit d (hcons ▸ List.mem_cons_self)
    have hminus : d ≠ '-' := by rintro rfl; cases hd
    have hplus : d ≠ '+' := by rintro rfl; cases hd
    rw [hcons] at hdigits ⊢
    simp [h, power?, hmark, hminus, hplus, hdigits]
  · simp [h, power?, hmark, hdigits]
  · simp [h, power?, hmark, hdigits]

/-- Both formats read the same numeral. -/
theorem decimal?_magnitude (f : Figure) : decimal? f.negative f.magnitude = some f.numeral := by
  have hwhole : f.magnitude.span isDigit = (f.whole, f.tail) := by
    rw [List.span_eq_takeWhile_dropWhile, Figure.magnitude,
      takeWhile_of_ends f.whole_isDigit f.ends_tail, dropWhile_of_ends f.whole_isDigit f.ends_tail]
  have hpower : power? ((f.power.map Power.chars).getD []) =
      some ((f.power.map Power.value).getD 0) := by
    cases f.power with
    | none => rfl
    | some p => exact power?_chars p
  have hmark := Power.ends_chars f.power
  unfold decimal?
  rw [hwhole]
  dsimp only
  cases hplaces : f.places with
  | some ds =>
    have htake := takeWhile_of_ends (f.places_isDigit ds hplaces) hmark
    have hdrop := dropWhile_of_ends (f.places_isDigit ds hplaces) hmark
    simp [Figure.tail, Figure.numeral, hplaces, htake, hdrop, hpower, f.whole_ne_nil]
  | none =>
    -- no point: what follows the digits is the power of ten or nothing
    have hpoint : ∀ more, (f.power.map Power.chars).getD [] = '.' :: more → False := by
      intro more h
      cases hp : f.power with
      | none => simp [hp] at h
      | some p =>
        rw [hp] at h
        have := (List.cons.inj h).1
        rcases p.mark_eq with hmark | hmark <;> rw [hmark] at this <;> cases this
    simp [Figure.tail, Figure.numeral, hplaces, hpower, f.whole_ne_nil]

theorem float?_chars (f : Figure) : float? f.chars = finite? (some f.numeral) := by
  obtain ⟨d, cs, hcons, hd, -⟩ := f.magnitude_cases
  have hpoint : d ≠ '.' := by rintro rfl; cases hd
  have hminus : d ≠ '-' := by rintro rfl; cases hd
  have hplus : d ≠ '+' := by rintro rfl; cases hd
  rw [← decimal?_magnitude, Figure.chars, hcons]
  cases f.negative <;> simp [float?, isInfinity, isNaN, hpoint, hminus, hplus]

/-! ### What a word stands for -/

/-- A number is no word for nothing or for a truth value. -/
theorem chars_ne (f : Figure) {s : String} {c : Char} {cs : List Char} (hs : s.toList = c :: cs)
    (hc : isDigit c = false) (hminus : c ≠ '-') : String.ofList f.chars ≠ s := by
  intro h
  obtain ⟨d, ds, hcons, hd, -⟩ := f.magnitude_cases
  rw [← h, String.toList_ofList, Figure.chars, hcons] at hs
  split at hs
  · exact hminus (List.cons.inj hs).1.symm
  · rw [(List.cons.inj hs).1, hc] at hd
    cases hd

theorem ofString_chars (f : Figure) : ofString (String.ofList f.chars) =
    (integer? f.chars).elim ((float? f.chars).elim text float) integer := by
  have hempty : String.ofList f.chars ≠ "" := by
    intro h
    have hnil : f.chars = [] := String.ofList_injective (h.trans String.ofList_nil.symm)
    exact (Word.number f).chars_ne_nil hnil
  have hnull : isNull (String.ofList f.chars) = false := by
    simp only [isNull, Bool.or_eq_false_iff, beq_eq_false_iff_ne]
    exact ⟨⟨⟨⟨hempty, chars_ne f rfl rfl (by decide)⟩, chars_ne f rfl rfl (by decide)⟩,
      chars_ne f rfl rfl (by decide)⟩, chars_ne f rfl rfl (by decide)⟩
  have hboolean : boolean? (String.ofList f.chars) = none := by
    have htrue : String.ofList f.chars ≠ "true" := chars_ne f rfl rfl (by decide)
    have hTrue : String.ofList f.chars ≠ "True" := chars_ne f rfl rfl (by decide)
    have hTRUE : String.ofList f.chars ≠ "TRUE" := chars_ne f rfl rfl (by decide)
    have hfalse : String.ofList f.chars ≠ "false" := chars_ne f rfl rfl (by decide)
    have hFalse : String.ofList f.chars ≠ "False" := chars_ne f rfl rfl (by decide)
    have hFALSE : String.ofList f.chars ≠ "FALSE" := chars_ne f rfl rfl (by decide)
    simp [boolean?, htrue, hTrue, hTRUE, hfalse, hFalse, hFALSE]
  rw [ofString, hnull, hboolean]
  simp only [Bool.false_eq_true, if_false, String.toList_ofList, isZeroPadded_chars]
  cases integer? f.chars with
  | some n => rfl
  | none => cases float? f.chars <;> rfl

/-! ### Portable words -/

/-- What a number without point and power has to be. -/
theorem isPortableWhole_of_tail {f : Figure} (htail : f.tail = [])
    (h : (Piece.word f.chars).isPortable = true) :
    isPortableWhole f.negative (natOfDigits f.whole) = true := by
  have hall : f.whole.all isDigit = true := List.all_eq_true.2 f.whole_isDigit
  have hmagnitude : f.magnitude = f.whole := by rw [Figure.magnitude, htail, List.append_nil]
  rw [Figure.chars, hmagnitude] at h
  cases hsign : f.negative with
  | true =>
    rw [hsign, if_pos rfl] at h
    simpa [Piece.isPortable, hall] using h
  | false =>
    obtain ⟨d, ds, hcons⟩ := List.exists_cons_of_ne_nil f.whole_ne_nil
    have hminus : d ≠ '-' := by
      rintro rfl
      cases f.whole_isDigit '-' (hcons ▸ List.mem_cons_self)
    rw [hsign, if_neg (by decide)] at h
    rw [hcons] at hall h ⊢
    simpa [Piece.isPortable, hminus, hall] using h

/-- A portable whole number is no minus zero, and is in range or beyond 128 bits. -/
theorem range_of_isPortableWhole {f : Figure}
    (h : isPortableWhole f.negative (natOfDigits f.whole) = true) :
    (f.negative && natOfDigits f.whole == 0) = false ∧
      ((-(2 ^ 63 : Int) ≤ f.integer ∧ f.integer < 2 ^ 64) ∨
        f.integer < -(2 ^ 127 : Int) ∨ (2 ^ 128 : Int) ≤ f.integer) := by
  rw [Figure.integer]
  cases hsign : f.negative with
  | true =>
    simp only [hsign, isPortableWhole, if_true, Nat.pow_eq, Bool.and_eq_true, bne_iff_ne, ne_eq,
      Bool.or_eq_true, decide_eq_true_eq] at h ⊢
    exact ⟨by simpa using h.1, by omega⟩
  | false =>
    simp only [hsign, isPortableWhole, Bool.false_eq_true, if_false, Nat.pow_eq, Bool.or_eq_true,
      decide_eq_true_eq] at h ⊢
    exact ⟨rfl, by omega⟩

theorem draft_of_tail {f : Figure} (hplaces : f.places = none) (hpower : f.power = none)
    (hzero : (f.negative && natOfDigits f.whole == 0) = false) : f.draft = .integer f.integer := by
  simp [Figure.draft, Draft.number, hplaces, hpower, hzero, Figure.integer]

/-- Beyond 128 bits the numeral of digits is rounded as their integer is. -/
theorem toBinary64_of_wide {f : Figure} (hplaces : f.places = none) (hpower : f.power = none)
    (hwide : f.integer ≠ 0) (hfinite : (Binary64.ofInt f.integer).isFinite = true) :
    f.numeral.toBinary64 = Binary64.ofInt f.integer := by
  have hnatAbs : f.integer.natAbs = natOfDigits f.whole := by
    rw [Figure.integer]
    split <;> omega
  have hnegative : f.negative = decide (f.integer < 0) := by
    rw [Figure.integer] at hwide ⊢
    cases hsign : f.negative with
    | true => simp only [hsign, if_true] at hwide ⊢; simp; omega
    | false => simp
  have hnumeral : f.numeral = ⟨f.negative, natOfDigits f.whole, 0⟩ := by
    simp [Figure.numeral, hplaces, hpower]
  have hlength := Binary64.isFinite_ofInt hfinite
  rw [hnatAbs] at hlength
  have hne : natOfDigits f.whole ≠ 0 := by omega
  have hratio : Numeral.ratio ⟨f.negative, natOfDigits f.whole, 0⟩ = (natOfDigits f.whole, 1) := by
    simp [Numeral.ratio]
  rw [hnumeral, Numeral.toBinary64, if_neg (by dsimp only; omega), if_neg (by dsimp only; omega),
    hratio, Binary64.ofInt, hnatAbs, hnegative]

end Plain

namespace Tree

open Json Plain

variable {f : Figure} {limit : Nat} {v : Value}

/-- A checked number is the number itself, which is finite. -/
theorem checkedLiteral_eq_ok {l l' : Literal} (h : Draft.checkedLiteral l = .ok l') :
    l = l' ∧ ∀ x, l = .float x → x.isFinite = true := by
  cases l with
  | float x =>
    rw [Draft.checkedLiteral] at h
    split at h
    · rename_i hx
      cases h
      refine ⟨rfl, ?_⟩
      rintro _ ⟨⟩
      exact hx
    · cases h
  | _ =>
    cases h
    refine ⟨rfl, ?_⟩
    rintro _ ⟨⟩

/-- A number with a point or a power of ten. -/
theorem understand_float (htail : f.tail ≠ [])
    (hfinite : f.numeral.toBinary64.isFinite = true) :
    understand (String.ofList f.chars) = .ok (.float f.numeral.toBinary64) := by
  have hfloat : float? f.chars = some f.numeral.toBinary64 := by
    simp [float?_chars, finite?, hfinite]
  rw [understand, ofString_chars, integer?_eq_none htail, hfloat]
  rfl

/-- A number without point and power that is in range. -/
theorem understand_near (htail : f.tail = []) (hlow : -(2 ^ 63 : Int) ≤ f.integer)
    (hhigh : f.integer < 2 ^ 64) :
    understand (String.ofList f.chars) = .ok (.integer f.integer) := by
  have hfits : (decide (Int64.minValue.toInt ≤ f.integer) && decide (f.integer < UInt64.size)) =
      true := by
    simp only [Bool.and_eq_true, decide_eq_true_eq]
    exact ⟨hlow, hhigh⟩
  rw [understand, ofString_chars, integer?_of_tail htail, if_pos (by omega)]
  exact if_pos hfits

/-- A number without point and power that 128 bits do not hold. -/
theorem understand_wide (htail : f.tail = []) (hplaces : f.places = none) (hpower : f.power = none)
    (hwide : f.integer < -(2 ^ 127 : Int) ∨ (2 ^ 128 : Int) ≤ f.integer)
    (hfinite : (Binary64.ofInt f.integer).isFinite = true) :
    understand (String.ofList f.chars) = .ok (.float (Binary64.ofInt f.integer)) := by
  have hfloat : float? f.chars = some (Binary64.ofInt f.integer) := by
    have hround := toBinary64_of_wide hplaces hpower (by omega) hfinite
    simp [float?_chars, finite?, hround, hfinite]
  rw [understand, ofString_chars, integer?_of_tail htail, if_neg (by omega), hfloat]
  rfl

/-- A number that is read as a value of JSON says a node of that value. -/
theorem understand_figure (hportable : (Piece.word f.chars).isPortable = true)
    (h : f.draft.toValue limit = .ok v) :
    ∃ node, understand (String.ofList f.chars) = .ok node ∧ node.toValue = .ok v := by
  rcases f.tail_cases with ⟨htail, hplaces, hpower⟩ | ⟨c, cs, htail, -, hpart⟩
  · obtain ⟨hzero, hrange⟩ := range_of_isPortableWhole (isPortableWhole_of_tail htail hportable)
    rw [draft_of_tail hplaces hpower hzero, Draft.toValue, map_eq_ok] at h
    obtain ⟨l, hchecked, rfl⟩ := h
    obtain ⟨rfl, hfinite⟩ := checkedLiteral_eq_ok hchecked
    rcases hrange with ⟨hlow, hhigh⟩ | hwide
    · exact ⟨_, understand_near htail hlow hhigh, rfl⟩
    · have hround : Literal.ofInt f.integer = .float (Binary64.ofInt f.integer) := by
        refine Literal.ofInt_of_wide fun i hi => ?_
        have := i.minValue_le_toInt
        have := i.toInt_le
        have hmin : Int64.minValue.toInt = -(2 ^ 63) := rfl
        have hmax : Int64.maxValue.toInt = 2 ^ 63 - 1 := rfl
        omega
      rw [hround] at hfinite ⊢
      exact ⟨_, understand_wide htail hplaces hpower hwide (hfinite _ rfl), rfl⟩
  · have hdraft : f.draft = .float f.numeral.toBinary64 := by
      simp only [Figure.draft, Draft.number, hpart, Bool.false_and, Bool.false_eq_true, if_false,
        Rounding.read_once, Figure.numeral]
    rw [hdraft, Draft.toValue, map_eq_ok] at h
    obtain ⟨l, hchecked, rfl⟩ := h
    obtain ⟨rfl, hfinite⟩ := checkedLiteral_eq_ok hchecked
    exact ⟨_, understand_float (by rw [htail]; exact List.cons_ne_nil _ _) (hfinite _ rfl), rfl⟩

/-- A word that is read as a value of JSON says a node of that value. -/
theorem understand_word (w : Word) (hportable : (Piece.word w.chars).isPortable = true)
    (h : w.draft.toValue limit = .ok v) :
    ∃ node, understand (String.ofList w.chars) = .ok node ∧ node.toValue = .ok v := by
  cases w with
  | null =>
    cases h
    exact ⟨.null, rfl, rfl⟩
  | boolean b =>
    cases h
    exact ⟨.boolean b, by cases b <;> rfl, rfl⟩
  | number f => exact understand_figure hportable h

end Tree

end Yaml

end DocMatch
