import DocMatch.Number.Shortest
import DocMatch.Proofs.Number.Rational

/-!
The decimal numeral that is written for a floating point number reads back as that number. Reading
rounds a quotient, and the same quotient in other terms is rounded to the same number; so zeros can
be moved between the digits of a numeral and its power of ten.

    25 * 10 ^ 2,  2500 * 10 ^ 0        one number when read

A numeral is taken from a grid only if it reads back. Should no grid have one, the exact expansion
is written, which is read without rounding.
-/

namespace DocMatch

namespace Binary64

/-! ### Quotients in other terms -/

theorem roundDiv_mul_left (tie : Tie) (num den : ℕ) {c : ℕ} (hc : 0 < c) :
    roundDiv tie (c * num) (c * den) = roundDiv tie num den := by
  have hlow : 2 * (c * (num % den)) < c * den ↔ 2 * (num % den) < den := by
    rw [Nat.mul_left_comm, Nat.mul_lt_mul_left hc]
  have hhigh : c * den < 2 * (c * (num % den)) ↔ den < 2 * (num % den) := by
    rw [Nat.mul_left_comm, Nat.mul_lt_mul_left hc]
  simp only [roundDiv, Nat.mul_div_mul_left _ _ hc, Nat.mul_mod_mul_left, hlow, hhigh]

theorem roundDiv_mul_right_cancel (tie : Tie) (q : ℕ) {den : ℕ} (hden : 0 < den) :
    roundDiv tie (q * den) den = q := by
  simp only [roundDiv, Nat.mul_mod_left, mul_zero, if_pos hden, Nat.mul_div_cancel _ hden]

/-- A quotient is rounded down or up. -/
theorem roundDiv_eq_or (tie : Tie) (num den : ℕ) :
    roundDiv tie num den = num / den ∨ roundDiv tie num den = num / den + 1 := by
  unfold roundDiv
  dsimp only
  split
  · exact .inl rfl
  · split
    · exact .inr rfl
    · cases tie <;> dsimp only <;> omega

theorem nearestRank_mul_left (num den : ℕ) {c : ℕ} (hc : 0 < c) :
    nearestRank (c * num) (c * den) = nearestRank num den := by
  simp only [nearestRank, Nat.mul_div_mul_left _ _ hc, mul_assoc, roundDiv_mul_left _ _ _ hc]

/-- Equal quotients are nearest to the same rank. -/
theorem nearestRank_eq_of_mul_eq {num den num' den' : ℕ} (hden : 0 < den) (hden' : 0 < den')
    (h : num * den' = num' * den) : nearestRank num den = nearestRank num' den' := by
  calc nearestRank num den = nearestRank (den' * num) (den' * den) :=
        (nearestRank_mul_left num den hden').symm
    _ = nearestRank (den * num') (den * den') := by
        rw [mul_comm den' num, h, mul_comm num' den, mul_comm den' den]
    _ = nearestRank num' den' := nearestRank_mul_left num' den' hden

theorem ofRatio_eq_of_mul_eq (s : Bool) {num den num' den' : ℕ} (hden : 0 < den)
    (hden' : 0 < den') (h : num * den' = num' * den) :
    ofRatio s num den = ofRatio s num' den' := by
  have hunits : num * unitsPerOne * den' = num' * unitsPerOne * den := by
    rw [mul_right_comm, h, mul_right_comm]
  rw [ofRatio, ofRatio, nearestRank_eq_of_mul_eq hden hden' hunits]

/-! ### The magnitudes themselves -/

/-- In the first block a rank is its units; from then on the units of a block are spaced by a power
of two. -/
theorem unitsOfRank_cases (rank : ℕ) :
    rank < rankBlock ∧ unitsOfRank rank = rank ∨
      ∃ b m, m < rankBlock ∧ rank = (b + 1) * rankBlock + m ∧
        unitsOfRank rank = (rankBlock + m) * 2 ^ b := by
  unfold unitsOfRank
  dsimp only
  by_cases hzero : rank / rankBlock = 0
  · exact .inl ⟨(Nat.div_eq_zero_iff.1 hzero).resolve_left (by decide), if_pos hzero⟩
  · obtain ⟨b, hb⟩ := Nat.exists_eq_succ_of_ne_zero hzero
    refine .inr ⟨b, rank % rankBlock, Nat.mod_lt rank (by decide), ?_, ?_⟩
    · rw [← Nat.succ_eq_add_one, ← hb, Nat.div_add_mod']
    · rw [if_neg hzero, hb, Nat.succ_sub_one, Nat.pow_eq]

/-- The spacing in a block is found from its highest power of two. -/
theorem log2_block {m : ℕ} (hm : m < rankBlock) (b : ℕ) :
    ((rankBlock + m) * 2 ^ b).log2 = 52 + b := by
  have hblock : rankBlock = 2 ^ 52 := rfl
  have hne : rankBlock + m ≠ 0 := by omega
  have hspacing : 0 < 2 ^ b := Nat.two_pow_pos b
  rw [Nat.log2_eq_iff (mul_ne_zero hne hspacing.ne'), add_right_comm, pow_add, pow_add]
  exact ⟨Nat.mul_le_mul_right _ (by omega), Nat.mul_lt_mul_of_pos_right (by omega) hspacing⟩

/-- The magnitude of a rank is nearest to that rank. -/
theorem nearestRank_unitsOfRank (rank : ℕ) : nearestRank (unitsOfRank rank) 1 = rank := by
  rcases unitsOfRank_cases rank with ⟨hrank, hunits⟩ | ⟨b, m, hm, hrank, hunits⟩
  · have hspacing : rank.log2 - 52 = 0 := by
      rcases Nat.eq_zero_or_pos rank with rfl | hpos
      · rfl
      · have := (Nat.log2_lt hpos.ne').2 (show rank < 2 ^ 52 from hrank)
        omega
    have hround := roundDiv_mul_right_cancel .toEven rank one_pos
    rw [mul_one] at hround
    rw [nearestRank, hunits, Nat.div_one, hspacing, zero_mul, zero_add, one_mul, Nat.pow_eq,
      pow_zero, hround]
  · rw [nearestRank, hunits, Nat.div_one, log2_block hm, Nat.add_sub_cancel_left, one_mul,
      Nat.pow_eq, roundDiv_mul_right_cancel _ _ (Nat.two_pow_pos b), hrank]
    ring

theorem unitsOfRank_ne_zero {rank : ℕ} (h : rank ≠ 0) : unitsOfRank rank ≠ 0 := by
  rcases unitsOfRank_cases rank with ⟨_, hunits⟩ | ⟨b, m, _, _, hunits⟩
  · rwa [hunits]
  · rw [hunits]
    exact mul_ne_zero (Nat.add_pos_left (by decide) m).ne' (Nat.two_pow_pos b).ne'

/-- The last finite block ends below `2 ^ 2098` units. -/
theorem unitsOfRank_lt {rank : ℕ} (h : rank < finiteRanks) :
    unitsOfRank rank < 2 ^ (53 + 2045) := by
  have hfinite : finiteRanks = 2047 * rankBlock := rfl
  have hblock : rankBlock = 2 ^ 52 := rfl
  rcases unitsOfRank_cases rank with ⟨hrank, hunits⟩ | ⟨b, m, hm, hrank, hunits⟩
  · rw [hunits, pow_add]
    generalize 2045 = last
    have hsmall : rank < 2 ^ 53 * 1 := by omega
    exact hsmall.trans_le (Nat.mul_le_mul_left _ Nat.one_le_two_pow)
  · have hb : b ≤ 2045 := by
      rw [hblock] at hrank hfinite
      omega
    rw [hunits, pow_add]
    generalize 2045 = last at hb ⊢
    exact Nat.mul_lt_mul_of_lt_of_le (by omega) (Nat.pow_le_pow_right two_pos hb)
      (Nat.two_pow_pos last)

end Binary64

/-! ### Numerals in other terms -/

theorem decimalLength_pos (n : ℕ) : 0 < decimalLength n := by
  rw [decimalLength]
  split <;> omega

theorem decimalLength_mul_pow {n : ℕ} (hn : n ≠ 0) (j : ℕ) :
    decimalLength (n * 10 ^ j) = decimalLength n + j := by
  induction j with
  | zero => rw [pow_zero, mul_one, add_zero]
  | succ j ih =>
    have hbig : ¬ n * 10 ^ j * 10 < 10 := by
      have : 0 < n * 10 ^ j := by positivity
      omega
    rw [pow_succ, ← mul_assoc, decimalLength, if_neg hbig, Nat.mul_div_cancel _ (by decide), ih,
      add_assoc]

/-- The digits that a number needs are those of the powers of ten below it. -/
theorem decimalLength_le_iff {n k : ℕ} : decimalLength n ≤ k + 1 ↔ n < 10 ^ (k + 1) := by
  induction k generalizing n with
  | zero =>
    rw [decimalLength]
    have := decimalLength_pos (n / 10)
    split <;> omega
  | succ k ih =>
    rw [decimalLength, pow_succ]
    split
    · have : 0 < 10 ^ (k + 1) := by positivity
      omega
    · rw [Nat.add_le_add_iff_right, ih, Nat.div_lt_iff_lt_mul (by decide)]

namespace Numeral

theorem ratio_pos (d : Numeral) : 0 < d.ratio.2 := by
  unfold ratio
  split
  · exact Nat.pow_pos (by decide)
  · exact one_pos

/-- The quotient of a numeral is its magnitude. -/
theorem ratio_eq (d : Numeral) :
    (d.ratio.1 : ℚ) / d.ratio.2 = d.digits * 10 ^ d.exponent := by
  unfold ratio
  split
  · rename_i hneg
    obtain ⟨n, hn⟩ : ∃ n : ℕ, d.exponent = -n := ⟨d.exponent.natAbs, by omega⟩
    rw [hn, Int.natAbs_neg, Int.natAbs_natCast, zpow_neg, zpow_natCast, div_eq_mul_inv]
    push_cast [Nat.pow_eq]
    rfl
  · rename_i hpos
    obtain ⟨n, hn⟩ := Int.eq_ofNat_of_zero_le (not_lt.1 hpos)
    rw [hn, Int.natAbs_natCast, zpow_natCast, Nat.cast_one, div_one]
    push_cast [Nat.pow_eq]
    rfl

/-- Zeros at the end of the digits count as a power of ten. -/
theorem toBinary64_mul_pow (s : Bool) (n j : ℕ) (e : ℤ) :
    toBinary64 ⟨s, n * 10 ^ j, e⟩ = toBinary64 ⟨s, n, e + j⟩ := by
  by_cases hn : n = 0
  · simp [toBinary64, hn]
  · have hmul : n * 10 ^ j ≠ 0 := by positivity
    have htop : ((decimalLength n + j : ℕ) : ℤ) + e = decimalLength n + (e + j) := by
      push_cast
      ring
    have hratio : Binary64.ofRatio s (ratio ⟨s, n * 10 ^ j, e⟩).1 (ratio ⟨s, n * 10 ^ j, e⟩).2 =
        Binary64.ofRatio s (ratio ⟨s, n, e + j⟩).1 (ratio ⟨s, n, e + j⟩).2 := by
      refine Binary64.ofRatio_eq_of_mul_eq s (ratio_pos _) (ratio_pos _) ?_
      have hden : ((ratio ⟨s, n * 10 ^ j, e⟩).2 : ℚ) ≠ 0 := Nat.cast_ne_zero.2 (ratio_pos _).ne'
      have hden' : ((ratio ⟨s, n, e + j⟩).2 : ℚ) ≠ 0 := Nat.cast_ne_zero.2 (ratio_pos _).ne'
      have hvalue : ((n * 10 ^ j : ℕ) : ℚ) * 10 ^ e = n * 10 ^ (e + j) := by
        rw [zpow_add₀ (by norm_num), zpow_natCast]
        push_cast
        ring
      have := (ratio_eq ⟨s, n * 10 ^ j, e⟩).trans (hvalue.trans (ratio_eq ⟨s, n, e + j⟩).symm)
      rw [div_eq_div_iff hden hden'] at this
      exact_mod_cast this
    simp only [toBinary64, hmul, hn, decimalLength_mul_pow hn, htop, hratio]

end Numeral

/-! ### What is written reads back -/

namespace Binary64

open Numeral

theorem ten_pow_le_five_pow : 10 ^ (742 + 1) ≤ 5 ^ 1074 := by decide +kernel

theorem two_pow_mul_five_pow_lt : 2 ^ (53 + 2045) * 5 ^ 1074 < 10 ^ (1383 + 1) := by decide +kernel

theorem unitsPerOne_eq : unitsPerOne = 2 ^ 1074 := by
  unfold unitsPerOne
  generalize 1074 = places
  rw [Nat.pow_eq]

theorem exactNumeral_digits (rank : ℕ) :
    (exactNumeral rank).digits = unitsOfRank rank * 5 ^ 1074 := by
  unfold exactNumeral
  generalize 1074 = places
  rw [Nat.pow_eq]

theorem exactNumeral_digits_ne_zero {rank : ℕ} (h : rank ≠ 0) : (exactNumeral rank).digits ≠ 0 := by
  rw [exactNumeral_digits]
  generalize 1074 = places
  exact mul_ne_zero (unitsOfRank_ne_zero h) (by positivity)

/-- No finite magnitude but zero is so small or large that its digits are not looked at. -/
theorem decimalLength_exactNumeral {rank : ℕ} (h0 : rank ≠ 0) (h : rank < finiteRanks) :
    743 < decimalLength (exactNumeral rank).digits ∧
      decimalLength (exactNumeral rank).digits ≤ 1384 := by
  have hlow := ten_pow_le_five_pow
  have hhigh := two_pow_mul_five_pow_lt
  have hunits := unitsOfRank_lt h
  have hpos := Nat.pos_of_ne_zero (unitsOfRank_ne_zero h0)
  rw [← not_le, decimalLength_le_iff, decimalLength_le_iff, not_lt, exactNumeral_digits]
  generalize (5 : ℕ) ^ 1074 = f at hlow hhigh ⊢
  constructor
  · exact hlow.trans (Nat.le_mul_of_pos_left _ hpos)
  · exact (Nat.mul_le_mul_right _ hunits.le).trans_lt hhigh

/-- Units of `2 ^ -n` written in decimal are no other quotient. -/
theorem nearestRank_expansion (units n : ℕ) (d : Numeral) (hdigits : d.digits = units * 5 ^ n)
    (hexp : d.exponent = -n) : nearestRank (d.ratio.1 * 2 ^ n) d.ratio.2 = nearestRank units 1 := by
  refine nearestRank_eq_of_mul_eq (ratio_pos d) one_pos ?_
  have hden : (d.ratio.2 : ℚ) ≠ 0 := Nat.cast_ne_zero.2 (ratio_pos d).ne'
  have hvalue := ratio_eq d
  rw [hdigits, hexp, zpow_neg, zpow_natCast, ← div_eq_mul_inv,
    div_eq_div_iff hden (by positivity)] at hvalue
  have hten : (10 : ℚ) ^ n = 2 ^ n * 5 ^ n := by rw [← mul_pow]; norm_num
  have hfive : (5 : ℚ) ^ n ≠ 0 := by positivity
  have : (d.ratio.1 : ℚ) * 2 ^ n = units * d.ratio.2 := by
    refine mul_right_cancel₀ hfive ?_
    rw [mul_assoc, ← hten, hvalue]
    push_cast
    ring
  rw [mul_one]
  exact_mod_cast this

theorem nearestRank_exactNumeral (rank : ℕ) :
    nearestRank ((exactNumeral rank).ratio.1 * unitsPerOne) (exactNumeral rank).ratio.2 = rank := by
  have h := nearestRank_expansion (unitsOfRank rank) 1074 (exactNumeral rank)
    (exactNumeral_digits rank) rfl
  rw [unitsPerOne_eq, h, nearestRank_unitsOfRank]

/-- The exact expansion is read as the magnitude. -/
theorem toBinary64_exactNumeral {rank : ℕ} (h0 : rank ≠ 0) (h : rank < finiteRanks) :
    (exactNumeral rank).toBinary64 = ofRank false rank := by
  obtain ⟨hlow, hhigh⟩ := decimalLength_exactNumeral h0 h
  have hexp : (exactNumeral rank).exponent = -1074 := rfl
  have hnegative : (exactNumeral rank).negative = false := rfl
  have hbottom : ¬ ((exactNumeral rank).digits = 0 ∨
      (decimalLength (exactNumeral rank).digits : ℤ) + (exactNumeral rank).exponent < -330) := by
    rw [not_or, hexp]
    exact ⟨exactNumeral_digits_ne_zero h0, by omega⟩
  have htop : ¬ 310 < (decimalLength (exactNumeral rank).digits : ℤ) +
      (exactNumeral rank).exponent := by
    rw [hexp]
    omega
  rw [toBinary64, if_neg hbottom, if_neg htop, ofRatio, nearestRank_exactNumeral, hnegative]

theorem readsBack_iff {rank : ℕ} {d : Numeral} :
    readsBack rank d = true ↔ d.toBinary64 = ofRank false rank := beq_iff_eq

/-- What is chosen on a grid reads back. -/
theorem readsBack_of_onGrid? {tie : Tie} {rank : ℕ} {e : ℤ} {d : Numeral}
    (h : onGrid? tie rank e = some d) : readsBack rank d = true := by
  unfold onGrid? at h
  generalize unitsOfRank rank * Nat.pow 10 (-e).toNat = num at h
  generalize unitsPerOne * Nat.pow 10 e.toNat = den at h
  dsimp only at h
  split at h
  · rename_i hbelow habove
    obtain rfl := Option.some.inj h
    rcases roundDiv_eq_or tie num den with heq | heq
    · rwa [heq]
    · rwa [heq]
  · rename_i hbelow _
    obtain rfl := Option.some.inj h
    exact hbelow
  · rename_i _ habove
    obtain rfl := Option.some.inj h
    exact habove
  · cases h

theorem toBinary64_trimmed (d : Numeral) : d.trimmed.toBinary64 = d.toBinary64 := by
  induction d using Numeral.trimmed.induct with
  | case1 d hzero =>
    rw [trimmed, if_pos hzero]
    simp [toBinary64, hzero]
  | case2 d hne hdvd ih =>
    have hmove := toBinary64_mul_pow d.negative (d.digits / 10) 1 d.exponent
    rw [pow_one, Nat.div_mul_cancel hdvd, Nat.cast_one] at hmove
    rw [trimmed, if_neg hne, if_pos hdvd, ih, ← hmove]
  | case3 d hne hdvd => rw [trimmed, if_neg hne, if_neg hdvd]

/-- The digits that are written read back as the magnitude. -/
theorem toBinary64_shortest (tie : Tie) {rank : ℕ} (h : rank < finiteRanks) :
    (shortest tie rank).toBinary64 = ofRank false rank := by
  unfold shortest
  split
  · rename_i hzero
    rw [hzero]
    rfl
  · rename_i hne
    rw [toBinary64_trimmed]
    cases hfind : (gridsBelow (top rank)).findSome? (onGrid? tie rank) with
    | none => exact toBinary64_exactNumeral hne h
    | some d =>
      obtain ⟨e, _, he⟩ := List.exists_of_findSome?_eq_some hfind
      exact readsBack_iff.1 (readsBack_of_onGrid? he)

/-- A sign is read apart from the magnitude. -/
theorem exists_ofRank (n : ℕ) (e : ℤ) :
    ∃ rank, ∀ s, toBinary64 (Numeral.mk s n e) = ofRank s rank := by
  by_cases hbottom : n = 0 ∨ decimalLength n + e < -330
  · exact ⟨0, fun s => if_pos hbottom⟩
  · by_cases htop : 310 < decimalLength n + e
    · refine ⟨finiteRanks, fun s => ?_⟩
      rw [ofRank, dif_neg (lt_irrefl finiteRanks)]
      exact (if_neg hbottom).trans (if_pos htop)
    · refine ⟨nearestRank ((ratio ⟨false, n, e⟩).1 * unitsPerOne) (ratio ⟨false, n, e⟩).2,
        fun s => ?_⟩
      exact (if_neg hbottom).trans (if_neg htop)

theorem ofRank_eq_finite_iff {s s' : Bool} {r : ℕ} {rank : Fin finiteRanks} :
    ofRank s r = finite s' rank ↔ s = s' ∧ r = rank := by
  unfold ofRank
  split
  · rw [finite.injEq, Fin.ext_iff]
  · rename_i hr
    constructor
    · rintro ⟨⟩
    · rintro ⟨-, rfl⟩
      exact absurd rank.isLt hr

/-- The digits that are written, after the sign, read back as the number. -/
theorem toBinary64_of_shortest (tie : Tie) (s : Bool) (rank : Fin finiteRanks) :
    toBinary64 ⟨s, (shortest tie rank).digits, (shortest tie rank).exponent⟩ = finite s rank := by
  obtain ⟨r, hr⟩ := exists_ofRank (shortest tie rank).digits (shortest tie rank).exponent
  have hfinite : ofRank false rank = finite false rank := ofRank_eq_finite_iff.2 ⟨rfl, rfl⟩
  have hread := (hr (shortest tie rank).negative).symm.trans (toBinary64_shortest tie rank.isLt)
  rw [hfinite] at hread
  rw [hr s]
  exact ofRank_eq_finite_iff.2 ⟨rfl, (ofRank_eq_finite_iff.1 hread).2⟩

/-! ### Integers without end -/

theorem div_le_roundDiv (tie : Tie) (num den : ℕ) : num / den ≤ roundDiv tie num den := by
  rcases roundDiv_eq_or tie num den with h | h <;> omega

/-- A magnitude lies in the block of its highest power of two or in a later one. -/
theorem le_nearestRank {units b : ℕ} (h : 2 ^ (52 + b) ≤ units) :
    (b + 1) * rankBlock ≤ nearestRank units 1 := by
  have hne : units ≠ 0 := by
    rintro rfl
    exact absurd h (Nat.not_le.2 (Nat.two_pow_pos _))
  have hlog : 52 + b ≤ units.log2 := (Nat.le_log2 hne).2 h
  obtain ⟨s, hs⟩ := Nat.exists_eq_add_of_le hlog
  have hspacing : units.log2 - 52 = b + s := by omega
  have hdiv : rankBlock ≤ units / 2 ^ (b + s) := by
    rw [Nat.le_div_iff_mul_le (Nat.two_pow_pos _), show rankBlock = 2 ^ 52 from rfl, ← pow_add,
      ← Nat.add_assoc, ← hs]
    exact Nat.log2_self_le hne
  have hround := hdiv.trans (div_le_roundDiv .toEven units (2 ^ (b + s)))
  rw [nearestRank, Nat.div_one, hspacing, one_mul, Nat.pow_eq]
  calc (b + 1) * rankBlock ≤ (b + s) * rankBlock + rankBlock := by
        rw [← Nat.succ_mul]
        exact Nat.mul_le_mul_right _ (by omega)
    _ ≤ _ := Nat.add_le_add_left hround _

theorem two_pow_le_ten_pow : 2 ^ 1024 ≤ 10 ^ (309 + 1) := by decide +kernel

/-- An integer of more than 310 digits is rounded to infinity. -/
theorem isFinite_ofInt {n : ℤ} (h : (ofInt n).isFinite = true) : decimalLength n.natAbs ≤ 310 := by
  by_contra hlength
  rw [show (310 : ℕ) = 309 + 1 from rfl, decimalLength_le_iff, not_lt] at hlength
  have hunits : 2 ^ (52 + 2046) ≤ n.natAbs * unitsPerOne := by
    rw [unitsPerOne_eq, show 52 + 2046 = 1024 + 1074 from rfl, pow_add]
    exact Nat.mul_le_mul_right _ (two_pow_le_ten_pow.trans hlength)
  have hrank : ¬ nearestRank (n.natAbs * unitsPerOne) 1 < finiteRanks :=
    Nat.not_lt.2 (le_nearestRank hunits)
  rw [ofInt, ofRatio, ofRank, dif_neg hrank] at h
  cases h

end Binary64

end DocMatch
