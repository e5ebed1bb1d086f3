import DocMatch.Number.Rounding
import DocMatch.Proofs.Number.ReadBack

/-!
Where rounding in steps makes no difference. Whole numbers up to `2 ^ 53` are exact, and so are the
powers of ten up to `10 ^ 22`, whose odd factor `5 ^ 22` is below `2 ^ 53`. If digits and power are
both exact, then the product or quotient of the two is the only step that rounds.

    51.248178375505      51248178375505 / 10 ^ 12       exact, exact, rounded
    51.248178375505404   51248178375505404 / 10 ^ 15    rounded, exact, rounded
-/

namespace DocMatch

namespace Binary64

/-! ### Exact magnitudes -/

theorem unitsOfRank_block (b : ℕ) {m : ℕ} (hm : m < rankBlock) :
    unitsOfRank ((b + 1) * rankBlock + m) = (rankBlock + m) * 2 ^ b := by
  have hblock : ((b + 1) * rankBlock + m) / rankBlock = b + 1 := by
    rw [mul_comm, Nat.mul_add_div (by decide), Nat.div_eq_of_lt hm, add_zero]
  have hrest : ((b + 1) * rankBlock + m) % rankBlock = m := by
    rw [mul_comm, Nat.mul_add_mod, Nat.mod_eq_of_lt hm]
  rw [unitsOfRank, hblock, hrest, if_neg b.succ_ne_zero, Nat.add_sub_cancel, Nat.pow_eq]

/-- The first two blocks are spaced by one unit. -/
theorem unitsOfRank_of_lt {rank : ℕ} (h : rank < 2 * rankBlock) : unitsOfRank rank = rank := by
  by_cases hfirst : rank < rankBlock
  · rw [unitsOfRank, Nat.div_eq_of_lt hfirst, if_pos rfl]
  · obtain ⟨m, rfl⟩ := Nat.exists_eq_add_of_le (not_lt.1 hfirst)
    have hunits := unitsOfRank_block 0 (show m < rankBlock by omega)
    rwa [zero_add, one_mul, pow_zero, mul_one] at hunits

/-- Twice a magnitude is a magnitude. -/
theorem exists_unitsOfRank_double (rank : ℕ) : ∃ r, unitsOfRank r = 2 * unitsOfRank rank := by
  rcases unitsOfRank_cases rank with ⟨hrank, hunits⟩ | ⟨b, m, hm, -, hunits⟩
  · exact ⟨2 * rank, by rw [unitsOfRank_of_lt (by omega), hunits]⟩
  · exact ⟨(b + 1 + 1) * rankBlock + m, by rw [unitsOfRank_block _ hm, hunits, pow_succ]; ring⟩

/-- What 53 bits hold is a magnitude, times any power of two. -/
theorem exists_unitsOfRank {c : ℕ} (hc : c ≤ 2 ^ 53) (j : ℕ) :
    ∃ rank, unitsOfRank rank = c * 2 ^ j := by
  induction j with
  | zero =>
    rw [pow_zero, mul_one]
    rcases hc.lt_or_eq with hlt | rfl
    · exact ⟨c, unitsOfRank_of_lt hlt⟩
    · obtain ⟨rank, hrank⟩ := exists_unitsOfRank_double rankBlock
      have hblock : unitsOfRank rankBlock = rankBlock := unitsOfRank_of_lt (by decide)
      exact ⟨rank, by rw [hrank, hblock]; rfl⟩
  | succ j ih =>
    obtain ⟨rank, hrank⟩ := ih
    obtain ⟨r, hr⟩ := exists_unitsOfRank_double rank
    exact ⟨r, by rw [hr, hrank, pow_succ]; ring⟩

theorem unitsOfRank_rankOfNat {n c j : ℕ} (hn : n = c * 2 ^ j) (hc : c ≤ 2 ^ 53) :
    unitsOfRank (rankOfNat n) = n * unitsPerOne := by
  obtain ⟨rank, hrank⟩ := exists_unitsOfRank hc (j + 1074)
  have hunits : n * unitsPerOne = unitsOfRank rank := by
    rw [hrank, hn, unitsPerOne_eq, pow_add, mul_assoc]
  rw [rankOfNat, hunits, nearestRank_unitsOfRank]

theorem unitsOfRank_powerRank {k : ℕ} (hk : k ≤ 22) :
    unitsOfRank (powerRank k) = 10 ^ k * unitsPerOne := by
  have hten : 10 ^ k = 5 ^ k * 2 ^ k := by rw [← Nat.mul_pow]
  have hfive : 5 ^ k ≤ 2 ^ 53 := (Nat.pow_le_pow_right (by decide) hk).trans (by decide)
  exact unitsOfRank_rankOfNat hten hfive

/-! ### One step that rounds -/

variable {n : ℕ} {e : ℤ}

/-- Exact digits times an exact power of ten are rounded once. -/
theorem ofRank_scaleRank (s : Bool) (hn : n ≤ 2 ^ 53) (he : e.natAbs ≤ 22) :
    ofRank s (scaleRank (rankOfNat n) e) =
      ofRatio s (Numeral.ratio ⟨s, n, e⟩).1 (Numeral.ratio ⟨s, n, e⟩).2 := by
  have hdigits : unitsOfRank (rankOfNat n) = n * unitsPerOne :=
    unitsOfRank_rankOfNat (show n = n * 2 ^ 0 by rw [pow_zero, mul_one]) hn
  have hpower := unitsOfRank_powerRank he
  have hunit := unitsPerOne_pos
  have hten : 0 < 10 ^ e.natAbs := Nat.pow_pos (by decide)
  rw [ofRatio]
  congr 1
  by_cases hneg : e < 0
  · have htimes : (e.natAbs - 1) / topPower = 0 := Nat.div_eq_of_lt (by rw [topPower]; omega)
    rw [scaleRank, if_neg (by omega)]
    simp only [htimes, sink, zero_mul, Nat.sub_zero, quotientRank, hdigits, hpower, Numeral.ratio,
      if_pos hneg, Nat.pow_eq]
    exact nearestRank_eq_of_mul_eq (Nat.mul_pos hten hunit) hten (by ring)
  · rw [scaleRank, if_pos (by omega), if_pos (by rw [topPower]; omega)]
    simp only [productRank, hdigits, hpower, Numeral.ratio, if_neg hneg, Nat.pow_eq]
    exact nearestRank_eq_of_mul_eq hunit one_pos (by ring)

/-- Small digits with a small power of ten are far from the limits of reading. -/
theorem toBinary64_eq_ofRatio (s : Bool) (hn : n ≤ 2 ^ 53) (he : e.natAbs ≤ 22) :
    Numeral.toBinary64 ⟨s, n, e⟩ =
      ofRatio s (Numeral.ratio ⟨s, n, e⟩).1 (Numeral.ratio ⟨s, n, e⟩).2 := by
  by_cases hzero : n = 0
  · have hratio : (Numeral.ratio ⟨s, n, e⟩).1 * 1 = 0 * (Numeral.ratio ⟨s, n, e⟩).2 := by
      rw [hzero, Numeral.ratio]
      split <;> simp
    have hnearest : nearestRank (0 * unitsPerOne) 1 = 0 := by
      rw [zero_mul]
      exact nearestRank_unitsOfRank 0
    rw [Numeral.toBinary64, if_pos (.inl hzero),
      ofRatio_eq_of_mul_eq s (Numeral.ratio_pos _) one_pos hratio, ofRatio, hnearest, zero]
  · have hlow := decimalLength_pos n
    have hhigh : decimalLength n ≤ 15 + 1 := decimalLength_le_iff.2 (by omega)
    rw [Numeral.toBinary64, if_neg (by dsimp only; omega), if_neg (by dsimp only; omega)]

end Binary64

open Binary64

/-! ### Digits that are packed -/

theorem le_ofDigitChars (n : ℕ) (ds : List Char) : n ≤ Nat.ofDigitChars 10 ds n := by
  induction ds generalizing n with
  | nil => exact le_rfl
  | cons c ds ih =>
    rw [Nat.ofDigitChars_cons]
    exact le_trans (by omega) (ih _)

/-- Digits that 64 bits hold are all taken. -/
theorem packDigits_eq (n : ℕ) {ds : List Char} (h : Nat.ofDigitChars 10 ds n < 2 ^ 64) :
    packDigits n ds = (Nat.ofDigitChars 10 ds n, ds.length) := by
  induction ds generalizing n with
  | nil => rfl
  | cons c ds ih =>
    rw [Nat.ofDigitChars_cons] at h ⊢
    have hfirst : 10 * n + (c.toNat - '0'.toNat) < Nat.pow 2 64 := (le_ofDigitChars _ ds).trans_lt h
    simp only [packDigits, if_pos hfirst, ih _ h, List.length_cons]

namespace Rounding

/-- Whether the digits of a number and its power of ten are small enough to be exact as floating
point numbers. -/
def isShort (whole places : List Char) (power : Int) : Bool :=
  natOfDigits (whole ++ places) ≤ Nat.pow 2 53 && (power - places.length).natAbs ≤ 22

variable {whole places : List Char} {power : ℤ}

/-- Read once, a number is the numeral of its digits. -/
@[simp] theorem read_once (negative : Bool) : once.read negative whole places power =
    Numeral.toBinary64 ⟨negative, natOfDigits (whole ++ places), power - places.length⟩ := rfl

/-- With exact digits and an exact power of ten, a number is read in steps as it is read once. -/
theorem read_inSteps (negative : Bool) (h : isShort whole places power = true) :
    inSteps.read negative whole places power = once.read negative whole places power := by
  obtain ⟨hdigits, hpower⟩ : natOfDigits (whole ++ places) ≤ 2 ^ 53 ∧
      (power - places.length).natAbs ≤ 22 := by simpa [isShort] using h
  have hfold : natOfDigits (whole ++ places) = Nat.ofDigitChars 10 places (natOfDigits whole) :=
    Nat.ofDigitChars_append 0
  have hplaces : packDigits (natOfDigits whole) places =
      (natOfDigits (whole ++ places), places.length) := by
    rw [hfold] at hdigits ⊢
    exact packDigits_eq _ (by omega)
  have hwhole : packDigits 0 whole = (natOfDigits whole, whole.length) := by
    have hle := hfold ▸ le_ofDigitChars (natOfDigits whole) places
    exact packDigits_eq 0 (show natOfDigits whole < 2 ^ 64 by omega)
  have hexponent : power + ((whole.length - whole.length : ℕ) : ℤ) - places.length =
      power - places.length := by omega
  calc inSteps.read negative whole places power
      = ofRank negative (scaleRank (rankOfNat (natOfDigits (whole ++ places)))
          (power - places.length)) := by simp only [read, hwhole, hplaces, hexponent]
    _ = ofRatio negative _ _ := ofRank_scaleRank negative hdigits hpower
    _ = once.read negative whole places power :=
        (toBinary64_eq_ofRatio negative hdigits hpower).symm

end Rounding

end DocMatch
