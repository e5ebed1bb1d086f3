import DocMatch.Proofs.Json.ReadBack
import DocMatch.Proofs.Number.Steps

/-!
Floating point numbers that were written are read as what they were. Wherever the point is put, the
parts of the text give the digits and the power of ten back; only a whole number gets more zeros,
which make no difference to the number that is read.

    25 * 10 ^ -4     0.0025      whole 0, places 0025        25 * 10 ^ -4
    25 * 10 ^ -1     2.5         whole 2, places 5           25 * 10 ^ -1
    25 * 10 ^ 2      2500.0      whole 2500, places 0        25000 * 10 ^ -1
    25 * 10 ^ 20     2.5e+21     whole 2, places 5, e 21     25 * 10 ^ 20
-/

namespace DocMatch

/-! ### Digits with zeros -/

theorem natOfDigits_append_zeros (ds : List Char) (n : Nat) :
    natOfDigits (ds ++ List.replicate n '0') = natOfDigits ds * 10 ^ n := by
  calc natOfDigits (ds ++ List.replicate n '0')
      = Nat.ofDigitChars 10 (List.replicate n '0') (natOfDigits ds) := Nat.ofDigitChars_append 0
    _ = natOfDigits ds * 10 ^ n := by rw [Nat.ofDigitChars_replicate_zero, mul_comm]

theorem natOfDigits_zeros_append (ds : List Char) (n : Nat) :
    natOfDigits (List.replicate n '0' ++ ds) = natOfDigits ds := by
  calc natOfDigits (List.replicate n '0' ++ ds)
      = Nat.ofDigitChars 10 ds (Nat.ofDigitChars 10 (List.replicate n '0') 0) :=
        Nat.ofDigitChars_append 0
    _ = natOfDigits ds := by rw [Nat.ofDigitChars_replicate_zero, mul_zero]; rfl

theorem isDigit_of_mem_zeros {n : Nat} {c : Char} (h : c ∈ List.replicate n '0') :
    isDigit c = true := by
  rw [List.eq_of_mem_replicate h]
  rfl

namespace Draft

open Layout

variable {ds rest tail : List Char} {n : Nat} {k : Int}

/-! ### Parts of a number -/

theorem fraction?_point (hds : ∀ c ∈ ds, isDigit c = true) (hne : ds ≠ [])
    (h : Ends isDigit tail) : fraction? ('.' :: (ds ++ tail)) = some (some ds, tail) := by
  rw [fraction?, digits_append hds h]
  simp [hne]

theorem exponent?_natDigits (mark : Char) (power : Nat) (h : EndsNumber rest)
    (hmark : mark = '-' ∨ mark = '+') :
    exponent? ('e' :: mark :: (natDigits power ++ rest)) =
      some (some (if mark = '-' then -(power : Int) else power), rest) := by
  have hdigits : digits (natDigits power ++ rest) = (natDigits power, rest) :=
    digits_append (fun _ => isDigit_of_mem_natDigits) h.ends_digit
  rcases hmark with rfl | rfl <;>
    simp [exponent?, hdigits, natDigits_ne_nil, natOfDigits_natDigits]

/-- The power of ten of a number is always marked, up or down. -/
theorem exponent?_intDigits (k : Int) (h : EndsNumber rest) :
    exponent? ('e' :: ((if 0 < k then Json.layout.raised else []) ++ intDigits (k - 1) ++ rest)) =
      some (some (k - 1), rest) := by
  by_cases hk : 0 < k
  · have hup : ¬ k - 1 < 0 := by omega
    have habs : ((k - 1).natAbs : Int) = k - 1 := by omega
    have hread := exponent?_natDigits '+' (k - 1).natAbs h (.inr rfl)
    rw [if_neg (by decide), habs] at hread
    rw [if_pos hk, intDigits, if_neg hup]
    exact hread
  · have hdown : k - 1 < 0 := by omega
    have habs : -((k - 1).natAbs : Int) = k - 1 := by omega
    have hread := exponent?_natDigits '-' (k - 1).natAbs h (.inl rfl)
    rw [if_pos rfl, habs] at hread
    rw [if_neg hk, intDigits, if_pos hdown]
    exact hread

/-- A fraction ends where a power of ten begins. -/
theorem ends_digit_exponent (more : List Char) : Ends isDigit ('e' :: more) := by
  rintro _ ⟨⟩
  rfl

/-- A number with a fraction and no power of ten. -/
theorem number?_fraction (negative : Bool) {whole places : List Char}
    (hwhole : ∀ c ∈ whole, isDigit c = true) (hne : whole ≠ [])
    (hzero : whole.head? = some '0' → whole.length = 1)
    (hplaces : ∀ c ∈ places, isDigit c = true) (hpne : places ≠ []) (h : EndsNumber rest) :
    number? negative (whole ++ ('.' :: (places ++ rest))) =
      some (float (Numeral.toBinary64
        ⟨negative, natOfDigits (whole ++ places), -places.length⟩), rest) := by
  have hpoint : Ends isDigit ('.' :: (places ++ rest)) := by
    rintro _ ⟨⟩
    rfl
  rw [number?_append negative hwhole hne hzero hpoint (fraction?_point hplaces hpne h.ends_digit)
    (exponent?_of_ends h)]
  simp [number]

/-! ### The layouts -/

/-- Zeros after the point. -/
theorem number?_small (negative : Bool) (hk : k ≤ 0) (h : EndsNumber rest) :
    number? negative (['0', '.'] ++ List.replicate (-k).toNat '0' ++ natDigits n ++ rest) =
      some (float (Numeral.toBinary64 ⟨negative, n, k - (natDigits n).length⟩), rest) := by
  have hplaces : ∀ c ∈ List.replicate (-k).toNat '0' ++ natDigits n, isDigit c = true :=
    List.forall_mem_append.2 ⟨fun _ => isDigit_of_mem_zeros, fun _ => isDigit_of_mem_natDigits⟩
  have hread := number?_fraction negative (List.forall_mem_singleton.2 rfl)
    (List.cons_ne_nil '0' []) (fun _ => rfl) hplaces (by simp [natDigits_ne_nil]) h
  have hdigits : natOfDigits (['0'] ++ (List.replicate (-k).toNat '0' ++ natDigits n)) = n := by
    rw [← List.append_assoc]
    exact (natOfDigits_zeros_append _ ((-k).toNat + 1)).trans (natOfDigits_natDigits n)
  have hexp : -((List.replicate (-k).toNat '0' ++ natDigits n).length : Int) =
      k - (natDigits n).length := by
    rw [List.length_append, List.length_replicate]
    omega
  rw [hdigits, hexp] at hread
  simpa using hread

/-- Zeros before the point, and one more after it. -/
theorem number?_whole (negative : Bool) {zeros : Nat} (hn : n = 0 → zeros = 0)
    (h : EndsNumber rest) :
    number? negative (natDigits n ++ List.replicate zeros '0' ++ ['.', '0'] ++ rest) =
      some (float (Numeral.toBinary64 ⟨negative, n, zeros⟩), rest) := by
  have hwhole : ∀ c ∈ natDigits n ++ List.replicate zeros '0', isDigit c = true :=
    List.forall_mem_append.2 ⟨fun _ => isDigit_of_mem_natDigits, fun _ => isDigit_of_mem_zeros⟩
  have hzero : (natDigits n ++ List.replicate zeros '0').head? = some '0' →
      (natDigits n ++ List.replicate zeros '0').length = 1 := by
    rw [List.head?_append_of_ne_nil _ (natDigits_ne_nil n)]
    intro hhead
    obtain rfl := eq_zero_of_head?_natDigits hhead
    rw [hn rfl]
    rfl
  have hread := number?_fraction negative hwhole (by simp [natDigits_ne_nil]) hzero
    (List.forall_mem_singleton.2 (show isDigit '0' = true from rfl)) (List.cons_ne_nil _ _) h
  have hdigits : natOfDigits (natDigits n ++ List.replicate zeros '0' ++ ['0']) =
      n * 10 ^ (zeros + 1) := by
    rw [List.append_assoc, ← List.replicate_succ', natOfDigits_append_zeros, natOfDigits_natDigits]
  have hexp : -((['0'].length : Nat) : Int) + ((zeros + 1 : Nat) : Int) = zeros := by
    rw [List.length_singleton]
    omega
  rw [hdigits, Numeral.toBinary64_mul_pow, hexp] at hread
  simpa using hread

/-- The point among the digits. -/
theorem number?_split (negative : Bool) {places : Nat} (hpos : 0 < places)
    (hlt : places < (natDigits n).length) (h : EndsNumber rest) :
    number? negative
        ((natDigits n).take places ++ '.' :: (natDigits n).drop places ++ rest) =
      some (float (Numeral.toBinary64 ⟨negative, n, places - (natDigits n).length⟩), rest) := by
  have hds : ∀ c ∈ natDigits n, isDigit c = true := fun _ => isDigit_of_mem_natDigits
  have hzero : ((natDigits n).take places).head? = some '0' →
      ((natDigits n).take places).length = 1 := by
    rw [List.head?_take, if_neg hpos.ne']
    intro hhead
    rw [length_natDigits_of_head? hhead] at hlt
    omega
  have hread := number?_fraction negative (fun c hc => hds c (List.mem_of_mem_take hc))
    (by simp [natDigits_ne_nil, hpos.ne']) hzero (fun c hc => hds c (List.mem_of_mem_drop hc))
    (by simpa using hlt) h
  have hexp : -(((natDigits n).drop places).length : Int) = places - (natDigits n).length := by
    rw [List.length_drop]
    omega
  rw [List.take_append_drop, natOfDigits_natDigits, hexp] at hread
  simpa using hread

/-- However the point is placed, the digits and their power of ten are read. -/
theorem number?_placePoint (negative : Bool) (hk : n = 0 → k = 1) (h : EndsNumber rest) :
    number? negative (Json.layout.placePoint (natDigits n) k ++ rest) =
      some (float (Numeral.toBinary64 ⟨negative, n, k - (natDigits n).length⟩), rest) := by
  unfold placePoint
  split
  · rename_i hle
    exact number?_small negative hle h
  · rename_i hpos
    split
    · rename_i hlong
      have hzeros : n = 0 → k.toNat - (natDigits n).length = 0 := by
        intro hn
        rw [hk hn, hn]
        rfl
      have hexp : ((k.toNat - (natDigits n).length : Nat) : Int) = k - (natDigits n).length := by
        omega
      rw [← hexp]
      exact number?_whole negative hzeros h
    · rename_i hshort
      have hexp : (k.toNat : Int) = k := by omega
      rw [← hexp, Int.toNat_natCast]
      exact number?_split negative (by omega) (by omega) h

/-- With one digit before the point, the power of ten makes up for the places after it. -/
theorem number?_scientific (negative : Bool) (h : EndsNumber rest) :
    number? negative (Json.layout.scientific (natDigits n) k ++ rest) =
      some (float (Numeral.toBinary64 ⟨negative, n, k - (natDigits n).length⟩), rest) := by
  obtain ⟨c, cs, hcons, hc⟩ := natDigits_head n
  have hcs : ∀ d ∈ cs, isDigit d = true := fun d hd =>
    isDigit_of_mem_natDigits (hcons ▸ List.mem_cons_of_mem c hd)
  have hn : natOfDigits (c :: cs) = n := hcons ▸ natOfDigits_natDigits n
  have hpower := exponent?_intDigits k h
  have hends := ends_digit_exponent
    ((if 0 < k then Json.layout.raised else []) ++ intDigits (k - 1) ++ rest)
  rw [hcons]
  cases cs with
  | nil =>
    have hread := number?_append negative (List.forall_mem_singleton.2 hc)
      (List.cons_ne_nil c []) (fun _ => rfl) hends rfl hpower
    have hnumber : number negative [c] none (some (k - 1)) =
        float (Numeral.toBinary64 ⟨negative, n, k - ([c].length : Nat)⟩) := by
      simp [number, hn]
    rw [hnumber] at hread
    simpa [scientific] using hread
  | cons d more =>
    have hpoint : Ends isDigit ('.' :: (d :: more ++ 'e' ::
        ((if 0 < k then Json.layout.raised else []) ++ intDigits (k - 1) ++ rest))) := by
      rintro _ ⟨⟩
      rfl
    have hread := number?_append negative (List.forall_mem_singleton.2 hc)
      (List.cons_ne_nil c []) (fun _ => rfl) hpoint
      (fraction?_point hcs (List.cons_ne_nil d more) hends) hpower
    have hexp : k - 1 - ((d :: more).length : Nat) = k - ((c :: d :: more).length : Nat) := by
      simp only [List.length_cons]
      omega
    have hnumber : number negative [c] (some (d :: more)) (some (k - 1)) =
        float (Numeral.toBinary64 ⟨negative, n, k - ((c :: d :: more).length : Nat)⟩) := by
      rw [← hexp, ← hn]
      rfl
    rw [hnumber] at hread
    simpa [scientific] using hread

/-- The text of a magnitude is read as the numeral that it was written from. -/
theorem number?_magnitude (negative : Bool) (d : Numeral) (h : EndsNumber rest) :
    number? negative (Json.layout.magnitude d ++ rest) =
      some (float (Numeral.toBinary64 ⟨negative, d.digits, d.exponent⟩), rest) := by
  unfold magnitude
  dsimp only
  by_cases hzero : d.digits = 0
  · rw [if_pos hzero, if_pos (show Json.layout.positional 1 = true from rfl),
      number?_placePoint negative (fun _ => rfl) h, hzero]
    simp [Numeral.toBinary64]
  · have hexp : ((natDigits d.digits).length : Int) + d.exponent - (natDigits d.digits).length =
        d.exponent := by omega
    rw [if_neg hzero]
    split
    · rw [number?_placePoint negative (fun hn => absurd hn hzero) h, hexp]
    · rw [number?_scientific negative h, hexp]

/-- What is read as a number begins with a digit. -/
theorem head_of_number? {negative : Bool} {cs : List Char} {result : Draft × List Char}
    (h : number? negative cs = some result) : ∃ c more, cs = c :: more ∧ isDigit c = true := by
  cases cs with
  | nil => cases h
  | cons c more =>
    refine ⟨c, more, rfl, ?_⟩
    by_contra hc
    have hdigits : digits (c :: more) = ([], c :: more) := by
      rw [digits, List.span_eq_takeWhile_dropWhile, List.takeWhile_cons_of_neg hc,
        List.dropWhile_cons_of_neg hc]
    rw [number?, hdigits] at h
    cases h

end Draft

namespace Json

open Binary64 Layout

/-- What is written of a finite number is read as that number. -/
theorem readsBack_of_isFinite {x : Binary64} (h : x.isFinite = true) : ReadsBack x := by
  cases x with
  | nan => cases h
  | infinity s => cases h
  | finite s rank =>
    have hread : ∀ rest, Draft.EndsNumber rest →
        Draft.number? s (layout.magnitude (shortest layout.tie rank) ++ rest) =
          some (.float (finite s rank), rest) := by
      intro rest hrest
      rw [Draft.number?_magnitude s _ hrest, toBinary64_of_shortest]
    obtain ⟨c, cs, hcons, hc⟩ := Draft.head_of_number? (hread [] (by rintro _ ⟨⟩))
    rw [List.append_nil] at hcons
    cases s with
    | false =>
      refine ⟨⟨c, cs, hcons, .inr hc⟩, fun bound rest hrest => ?_⟩
      have hnumber := hread rest hrest
      rw [hcons] at hnumber
      rw [write, hcons, List.cons_append, Draft.readValue_digit hc, ← List.cons_append, hnumber]
      rfl
    | true =>
      refine ⟨⟨'-', _, rfl, .inl rfl⟩, fun bound rest hrest => ?_⟩
      have hminus : Draft.readValue (bound + 1) (layout.write (finite true rank) ++ rest) =
          Draft.orBroken (Draft.number? true
            (layout.magnitude (shortest layout.tie rank) ++ rest)) := rfl
      rw [hminus, hread rest hrest]
      rfl

end Json

end DocMatch
