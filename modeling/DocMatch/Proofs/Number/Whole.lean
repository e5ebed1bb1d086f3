import DocMatch.Proofs.Number.Rational

/-!
Integers against whole floating point numbers. Nothing is rounded on the way of a whole number: its
significand has as many factors of two as its power of two takes away, and a power of two that has
to be moved in is moved in by doubling, or the number is beyond 96 bits and equals no integer.

    m = c * 2 ^ n,  e = -n     halving n times leaves c           c * 10 ^ 0
    e = n,  m * 2 ^ n < 2 ^ 96     doubling n times is possible   (m * 2 ^ n) * 10 ^ 0
    e = n,  2 ^ 96 ≤ m * 2 ^ n     given up                       none
-/

namespace DocMatch

namespace Scaled

/-- A significand with enough factors of two is halved each time. -/
theorem divideByTwos_mul (c n : ℕ) (k : ℤ) :
    divideByTwos n ⟨c * 2 ^ n, k⟩ = ⟨c, k + n⟩ := by
  induction n generalizing k with
  | zero => simp [divideByTwos]
  | succ n ih =>
    have heven : c * 2 ^ (n + 1) % 2 = 0 := by rw [pow_succ, ← mul_assoc, Nat.mul_mod_left]
    have hhalf : c * 2 ^ (n + 1) / 2 = c * 2 ^ n := by
      rw [pow_succ, ← mul_assoc, Nat.mul_div_cancel _ two_pos]
    rw [divideByTwos, if_pos heven, hhalf, ih]
    exact congrArg (Progress.mk c) (by push_cast; ring)

/-- A power of two is moved in by doubling, as long as the coefficient stays below the limit. -/
theorem multiplyByTwos_eq (m n : ℕ) (h : m < limit) :
    multiplyByTwos n ⟨m, n⟩ = if m * 2 ^ n < limit then some ⟨m * 2 ^ n, 0⟩ else none := by
  have hlimit : limit = 2 * (limit / 2) := rfl
  induction n generalizing m with
  | zero => simp [multiplyByTwos, h]
  | succ n ih =>
    rw [multiplyByTwos]
    by_cases hm : m < limit / 2
    · have hexp : ((n + 1 : ℕ) : ℤ) - 1 = n := by push_cast; ring
      have hmul : 2 * m * 2 ^ n = m * 2 ^ (n + 1) := by ring
      rw [if_pos hm, hexp, ih (2 * m) (by omega), hmul]
    · -- twice the power of ten left exceeds the powers of two left, which are as many
      have hlarge : limit ≤ m * 2 ^ (n + 1) := by
        have hpow : 1 ≤ 2 ^ n := Nat.one_le_two_pow
        calc limit = limit / 2 * 2 * 1 := by omega
          _ ≤ m * 2 * 2 ^ n := by gcongr; omega
          _ = m * 2 ^ (n + 1) := by ring
      rw [if_neg hm, if_pos (by push_cast; omega), if_neg (not_lt.2 hlarge)]

theorem settle_zero (c : ℕ) : settle ⟨c, 0⟩ = some ⟨c, 0⟩ := rfl

/-- A whole magnitude is converted as it is, or is not below the limit. -/
theorem convert?_of_whole {m c : ℕ} {e : ℤ} (hm : m < limit) (h : (m : ℚ) * 2 ^ e = c) :
    convert? m e = if c < limit then some ⟨c, 0⟩ else none := by
  unfold convert?
  by_cases he : e < 0
  · obtain ⟨n, rfl⟩ : ∃ n : ℕ, e = -n := ⟨e.natAbs, by omega⟩
    have hmul : m = c * 2 ^ n := by
      rw [zpow_neg, zpow_natCast, ← div_eq_mul_inv, div_eq_iff (by positivity)] at h
      exact_mod_cast h
    have hc : c < limit := lt_of_le_of_lt (hmul ▸ Nat.le_mul_of_pos_right c (by positivity)) hm
    rw [if_pos he, Int.natAbs_neg, Int.natAbs_natCast, hmul, divideByTwos_mul, neg_add_cancel,
      if_pos hc]
    exact settle_zero c
  · obtain ⟨n, rfl⟩ := Int.eq_ofNat_of_zero_le (not_lt.1 he)
    have hmul : m * 2 ^ n = c := by
      rw [zpow_natCast] at h
      exact_mod_cast h
    rw [if_neg he, Int.natAbs_natCast, multiplyByTwos_eq m n hm, hmul]
    split
    · exact settle_zero c
    · rfl

end Scaled

namespace Binary64

open Scaled

/-- A number that is whole, if it is a number at all. -/
def IsWhole (x : Binary64) : Prop := ∀ q ∈ x.value?, ∃ k : ℤ, q = k

/-- An integer equals what the conversion leaves, if it leaves something. -/
theorem equalsInt_iff {x : Binary64} {n : ℤ} :
    x.equalsInt n = true ↔ ∃ d, ofBinary64? x = some d ∧ d.value = n := by
  unfold equalsInt
  cases ofBinary64? x with
  | none => simp
  | some d =>
    rw [equals_iff, value_ofInt, eq_comm]
    simp

/-- A magnitude with its sign is whole only if the magnitude is. -/
theorem exists_natCast_eq {s : Bool} {x : ℚ} {k : ℤ} (hx : 0 ≤ x) (h : signFactor s * x = k) :
    ∃ c : ℕ, x = c := by
  refine ⟨k.natAbs, ?_⟩
  rw [Nat.cast_natAbs, Int.cast_abs, ← h, abs_signFactor_mul, abs_of_nonneg hx]

theorem equalsInt_iff_of_isWhole {x : Binary64} (hx : x.IsWhole) {n : ℤ}
    (hn : n.natAbs < limit) : x.equalsInt n = true ↔ x.value? = some (n : ℚ) := by
  rw [equalsInt_iff]
  cases x with
  | nan => simp [ofBinary64?, value?]
  | infinity s => simp [ofBinary64?, value?]
  | finite s rank =>
    by_cases hrank : rank.val = 0
    · have hunits : unitsOfRank 0 = 0 := rfl
      have hzero : (⟨s, 0, 0⟩ : Scaled).value = 0 := by
        rw [value_mk s ⟨0, 0⟩, Progress.value, Nat.cast_zero, zero_mul, mul_zero]
      rw [ofBinary64?, if_pos hrank, value?, hrank, hunits, Nat.cast_zero, zero_div, mul_zero]
      simp [hzero]
    · have hpos : (0 : ℚ) ≤ (parts rank).1 * 2 ^ (parts rank).2 := by positivity
      obtain ⟨k, hk⟩ := hx _ rfl
      rw [value_parts] at hk
      obtain ⟨c, hc⟩ := exists_natCast_eq hpos hk
      have hm : (parts rank).1 < limit := (parts_lt rank).trans (by decide)
      rw [value?, value_parts, hc, ofBinary64?_finite hrank, convert?_of_whole hm hc,
        Option.some.injEq]
      split
      · have hvalue : (⟨s, c, 0⟩ : Scaled).value = signFactor s * c := by
          rw [value_mk s ⟨c, 0⟩, Progress.value, zpow_zero, mul_one]
        simp [hvalue]
      · -- beyond the limit there is no decimal, and no integer to compare with
        rename_i hge
        refine ⟨by simp, fun heq => absurd ?_ hge⟩
        have habs : (c : ℚ) = n.natAbs := by
          rw [Nat.cast_natAbs, Int.cast_abs, ← heq, abs_signFactor_mul, Nat.abs_cast]
        exact (Nat.cast_injective habs).trans_lt hn

end Binary64

namespace Value

open Binary64 (IsWhole)

/-- Every integer of 64 bits is far below the limit of the conversion. -/
theorem natAbs_toInt_lt (n : Int64) : n.toInt.natAbs < Scaled.limit := by
  have hlow := n.minValue_le_toInt
  have hhigh := n.toInt_le
  have hlimit : Scaled.limit = 79228162514264337593543950336 := rfl
  have hmin : Int64.minValue.toInt = -9223372036854775808 := rfl
  have hmax : Int64.maxValue.toInt = 9223372036854775807 := rfl
  omega

/-- An integer and a whole floating point number, or none at all, match exactly if the integer is
the number, whichever of the two is the literal. -/
theorem matchesLiteral_iff_of_isWhole (n : Int64) {x : Binary64} (hx : x.IsWhole) :
    ((integer n).matchesLiteral (.float x) = true ↔ x.value? = some (n.toInt : ℚ)) ∧
      ((float x).matchesLiteral (.integer n) = true ↔ x.value? = some (n.toInt : ℚ)) :=
  ⟨Binary64.equalsInt_iff_of_isWhole hx (natAbs_toInt_lt n),
    Binary64.equalsInt_iff_of_isWhole hx (natAbs_toInt_lt n)⟩

/-- The least integer of 64 bits matches its floating point number, and none matches the number
next above the largest. -/
theorem matchesLiteral_iff_of_isWhole_ends :
    let low := Binary64.ofInt (-9223372036854775808)
    let high := Binary64.ofInt 9223372036854775808
    (low.IsWhole ∧ (integer Int64.minValue).matchesLiteral (.float low) = true ∧
      (float low).matchesLiteral (.integer Int64.minValue) = true) ∧
    (high.IsWhole ∧ ∀ n : Int64, (integer n).matchesLiteral (.float high) ≠ true ∧
      (float high).matchesLiteral (.integer n) ≠ true) := by
  intro low high
  have hlow : low.value? = some (-9223372036854775808) := by
    have heq : low = .ofRank true 0x43E0000000000000 := by decide +kernel
    have hvalue : (Binary64.ofRank true 0x43E0000000000000).value? =
        some (signFactor true * ((9223372036854775808 : ℕ) / (1 : ℕ))) :=
      Binary64.value?_ofRank (by decide +kernel) one_pos (by decide +kernel)
    rw [heq, hvalue]
    norm_num [signFactor]
  have hhigh : high.value? = some 9223372036854775808 := by
    have heq : high = .ofRank false 0x43E0000000000000 := by decide +kernel
    have hvalue : (Binary64.ofRank false 0x43E0000000000000).value? =
        some (signFactor false * ((9223372036854775808 : ℕ) / (1 : ℕ))) :=
      Binary64.value?_ofRank (by decide +kernel) one_pos (by decide +kernel)
    rw [heq, hvalue]
    norm_num [signFactor]
  have hlowWhole : low.IsWhole := by
    intro q hq
    exact ⟨-9223372036854775808, by rw [Option.mem_unique hq hlow]; norm_num⟩
  have hhighWhole : high.IsWhole := by
    intro q hq
    exact ⟨9223372036854775808, by rw [Option.mem_unique hq hhigh]; norm_num⟩
  have hmin : low.value? = some ((Int64.minValue.toInt : ℤ) : ℚ) := by
    have hto : Int64.minValue.toInt = -9223372036854775808 := rfl
    rw [hlow, hto]
    norm_num
  obtain ⟨hleft, hright⟩ := matchesLiteral_iff_of_isWhole Int64.minValue hlowWhole
  refine ⟨⟨hlowWhole, hleft.2 hmin, hright.2 hmin⟩, hhighWhole, fun n => ?_⟩
  have hne : high.value? ≠ some (n.toInt : ℚ) := by
    rw [hhigh]
    intro heq
    have hn : (9223372036854775808 : ℤ) = n.toInt := by exact_mod_cast Option.some.inj heq
    have hmax : Int64.maxValue.toInt = 9223372036854775807 := rfl
    have := n.toInt_le
    omega
  obtain ⟨hl, hr⟩ := matchesLiteral_iff_of_isWhole n hhighWhole
  exact ⟨fun h => hne (hl.1 h), fun h => hne (hr.1 h)⟩

end Value

end DocMatch
