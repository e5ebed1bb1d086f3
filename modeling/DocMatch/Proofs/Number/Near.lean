import DocMatch.Proofs.Number.Whole

/-!
Integers against floating point numbers with a fraction. The conversion to a scaled decimal loses
digits in two places: a coefficient that has no room for another factor of five is halved although
it is odd, and in the end decimal places are rounded off, a five away from zero each time.

    0.9999999999999999     9999999999999998 89776975     moved in, 0.99999999999999988897…
                           9999999999999999              rounded off, still 53 bits or more
                           1000000000000000              the last place, 1 * 10 ^ 0

So a number that equals an integer is found to equal it, but so are some numbers beside it: what
matches lies within a part in `2 ^ 49` of the integer, or is below `10 ^ -28` and matches zero.
-/

namespace DocMatch

namespace Scaled

/-! ### Moving powers of two -/

namespace Progress

/-- One power of two moved to a power of ten. -/
def halved (p : Progress) : Progress :=
  if p.coefficient % 2 = 0 then ⟨p.coefficient / 2, p.exponent + 1⟩
  else if 5 * p.coefficient < limit then ⟨5 * p.coefficient, p.exponent⟩
  else ⟨p.coefficient / 2, p.exponent + 1⟩

theorem value_nonneg (p : Progress) : 0 ≤ p.value :=
  mul_nonneg (Nat.cast_nonneg _) (ten_zpow_pos _).le

/-- A step moves a factor of five in, and loses at most a part in `2 ^ 93` of the value. -/
theorem halved_near (p : Progress) :
    p.halved.exponent ≤ p.exponent + 1 ∧ p.halved.value ≤ 5 * p.value ∧
      5 * p.value ≤ p.halved.value + 1 / 2 ^ 93 * (5 * p.value) := by
  obtain ⟨m, k⟩ := p
  have hten := ten_zpow_pos k
  have hnext : (10 : ℚ) ^ (k + 1) = 10 ^ k * 10 := zpow_add_one₀ (by norm_num) k
  have hm : (0 : ℚ) ≤ m := Nat.cast_nonneg m
  have hvalue : 0 ≤ (m : ℚ) * 10 ^ k := mul_nonneg hm hten.le
  unfold halved value
  dsimp only
  split
  · rename_i heven
    have hhalf : (m : ℚ) = 2 * (m / 2 : ℕ) := by exact_mod_cast (by omega : m = 2 * (m / 2))
    have heq : ((m / 2 : ℕ) : ℚ) * 10 ^ (k + 1) = 5 * (m * 10 ^ k) := by rw [hnext, hhalf]; ring
    exact ⟨le_refl _, heq.le, by rw [heq]; linarith⟩
  · rename_i hodd
    split
    · have heq : ((5 * m : ℕ) : ℚ) * 10 ^ k = 5 * (m * 10 ^ k) := by push_cast; ring
      exact ⟨(lt_add_one k).le, heq.le, by rw [heq]; linarith⟩
    · -- the half that is lost is small beside a coefficient near the limit
      rename_i hfull
      have hlimit : limit = 79228162514264337593543950336 := rfl
      have hhalf : (m : ℚ) = 2 * (m / 2 : ℕ) + 1 := by
        exact_mod_cast (by omega : m = 2 * (m / 2) + 1)
      have hlarge : (2 ^ 93 : ℚ) ≤ m := by
        have : 2 ^ 93 ≤ m := by omega
        exact_mod_cast this
      have heq : ((m / 2 : ℕ) : ℚ) * 10 ^ (k + 1) = 5 * (m * 10 ^ k) - 5 * 10 ^ k := by
        rw [hnext, hhalf]
        ring
      have hpart : 2 ^ 93 * (10 : ℚ) ^ k ≤ m * 10 ^ k := mul_le_mul_of_nonneg_right hlarge hten.le
      refine ⟨le_refl _, by rw [heq]; linarith, ?_⟩
      rw [heq]
      linarith

end Progress

open Progress

theorem divideByTwos_succ (n : ℕ) (p : Progress) :
    divideByTwos (n + 1) p = divideByTwos n p.halved := rfl

theorem divideByTwos_near (n : ℕ) (p : Progress) :
    (divideByTwos n p).exponent ≤ p.exponent + n ∧
      (divideByTwos n p).value ≤ p.value * 5 ^ n ∧
      p.value * 5 ^ n ≤ (divideByTwos n p).value + n / 2 ^ 93 * (p.value * 5 ^ n) := by
  induction n generalizing p with
  | zero => simp [divideByTwos]
  | succ n ih =>
    obtain ⟨hexp, hle, hge⟩ := p.halved_near
    obtain ⟨hexp', hle', hge'⟩ := ih p.halved
    have hfive : (0 : ℚ) < 5 ^ n := by positivity
    have hstep : p.halved.value * 5 ^ n ≤ 5 * p.value * 5 ^ n :=
      mul_le_mul_of_nonneg_right hle hfive.le
    have hback : 5 * p.value * 5 ^ n ≤
        (p.halved.value + 1 / 2 ^ 93 * (5 * p.value)) * 5 ^ n :=
      mul_le_mul_of_nonneg_right hge hfive.le
    have hsum : p.value * 5 ^ (n + 1) = 5 * p.value * 5 ^ n := by ring
    have hpart : (n : ℚ) / 2 ^ 93 * (p.halved.value * 5 ^ n) ≤
        n / 2 ^ 93 * (5 * p.value * 5 ^ n) :=
      mul_le_mul_of_nonneg_left hstep (by positivity)
    rw [divideByTwos_succ, hsum]
    refine ⟨by push_cast; omega, hle'.trans hstep, ?_⟩
    calc 5 * p.value * 5 ^ n
        ≤ p.halved.value * 5 ^ n + 1 / 2 ^ 93 * (5 * p.value * 5 ^ n) := by linarith
      _ ≤ (divideByTwos n p.halved).value + n / 2 ^ 93 * (5 * p.value * 5 ^ n) +
            1 / 2 ^ 93 * (5 * p.value * 5 ^ n) := by linarith
      _ = (divideByTwos n p.halved).value +
            ((n + 1 : ℕ) : ℚ) / 2 ^ 93 * (5 * p.value * 5 ^ n) := by push_cast; ring

/-! ### Rounding off -/

theorem dropDigit_near (m : ℕ) : |10 * (dropDigit m : ℚ) - m| ≤ 5 := by
  have hle : 10 * dropDigit m ≤ m + 5 := by unfold dropDigit; split <;> omega
  have hge : m ≤ 10 * dropDigit m + 5 := by unfold dropDigit; split <;> omega
  have hle' : 10 * (dropDigit m : ℚ) ≤ m + 5 := by exact_mod_cast hle
  have hge' : (m : ℚ) ≤ 10 * dropDigit m + 5 := by exact_mod_cast hge
  rw [abs_le]
  constructor <;> linarith

/-- Rounding off digits one by one loses less than six tenths of the last place. -/
theorem iterate_dropDigit_near (t m : ℕ) :
    |10 ^ t * (dropDigit^[t] m : ℚ) - m| ≤ 5 / 9 * (10 ^ t - 1) := by
  induction t generalizing m with
  | zero => simp
  | succ t ih =>
    rw [Function.iterate_succ_apply]
    have hsplit : 10 ^ (t + 1) * (dropDigit^[t] (dropDigit m) : ℚ) - m =
        10 * (10 ^ t * (dropDigit^[t] (dropDigit m) : ℚ) - dropDigit m) +
          (10 * (dropDigit m : ℚ) - m) := by ring
    calc |10 ^ (t + 1) * (dropDigit^[t] (dropDigit m) : ℚ) - m|
        ≤ |10 * (10 ^ t * (dropDigit^[t] (dropDigit m) : ℚ) - dropDigit m)| +
            |10 * (dropDigit m : ℚ) - m| := hsplit ▸ abs_add_le _ _
      _ ≤ 10 * (5 / 9 * (10 ^ t - 1)) + 5 := by
          rw [abs_mul, abs_of_nonneg (by norm_num : (0 : ℚ) ≤ 10)]
          exact add_le_add (mul_le_mul_of_nonneg_left (ih _) (by norm_num)) (dropDigit_near m)
      _ = 5 / 9 * (10 ^ (t + 1) - 1) := by ring

theorem dropDigits_some {n m r : ℕ} (h : dropDigits n m = some r) : r = dropDigit^[n] m := by
  induction n generalizing m with
  | zero => exact (Option.some.inj h).symm
  | succ n ih =>
    rw [dropDigits] at h
    split at h
    · cases h
    · rw [ih h, Function.iterate_succ_apply]

/-- What vanishes is well below one in the place that it is rounded to. -/
theorem dropDigits_none {n m : ℕ} (h : dropDigits n m = none) : 90 * m + 40 ≤ 85 * 10 ^ n := by
  induction n generalizing m with
  | zero => cases h
  | succ n ih =>
    rw [dropDigits] at h
    have hpow : 1 ≤ 10 ^ n := Nat.one_le_pow' n 9
    split at h
    · rw [pow_succ]
      omega
    · have hrest := ih h
      have hdigit : m ≤ 10 * dropDigit m + 4 := by unfold dropDigit; split <;> omega
      rw [pow_succ]
      omega

/-- The least coefficient that rounding off places can stop at. -/
def shedFloor : ℕ := 450359962737049

theorem shed_eq (places m : ℕ) :
    ∃ t ≤ places, shed places m = ⟨dropDigit^[t] m, -((places - t : ℕ) : ℤ)⟩ ∧
      (t = 0 ∨ shedFloor ≤ dropDigit^[t] m) := by
  induction places generalizing m with
  | zero => exact ⟨0, le_refl _, rfl, Or.inl rfl⟩
  | succ places ih =>
    rw [shed]
    split
    · rename_i hlarge
      obtain ⟨t, ht, heq, hfloor⟩ := ih (dropDigit m)
      refine ⟨t + 1, Nat.succ_le_succ ht, ?_, Or.inr ?_⟩
      · rw [heq, Function.iterate_succ_apply, Nat.succ_sub_succ]
      · rw [Function.iterate_succ_apply]
        rcases hfloor with rfl | hfloor
        · have hpow : Nat.pow 2 52 = 4503599627370496 := rfl
          rw [Function.iterate_zero_apply, dropDigit, shedFloor]
          omega
        · exact hfloor
    · exact ⟨0, Nat.zero_le _, rfl, Or.inl rfl⟩

/-- Settling vanishes, or rounds off some places: none, or all but 28, or so many that a large
coefficient is left. -/
theorem settle_eq (m places : ℕ) :
    (settle ⟨m, -places⟩ = some ⟨0, 0⟩ ∧ 90 * m ≤ 85 * 10 ^ (places - 28) ∧ 28 < places) ∨
      ∃ t ≤ places, settle ⟨m, -places⟩ = some ⟨dropDigit^[t] m, -((places - t : ℕ) : ℤ)⟩ ∧
        (t = 0 ∨ places - t = 28 ∨ shedFloor ≤ dropDigit^[t] m) := by
  have hneg : ¬ (0 : ℤ) < -(places : ℤ) := by omega
  rw [settle, if_neg hneg]
  simp only [Int.natAbs_neg, Int.natAbs_natCast]
  cases hdrop : dropDigits (places - 28) m with
  | none =>
    have hbound := dropDigits_none hdrop
    refine Or.inl ⟨rfl, by omega, ?_⟩
    by_contra hfew
    rw [Nat.sub_eq_zero_of_le (not_lt.1 hfew)] at hdrop
    cases hdrop
  | some r =>
    obtain rfl := dropDigits_some hdrop
    obtain ⟨t, ht, heq, hfloor⟩ := shed_eq (min places 28) (dropDigit^[places - 28] m)
    have hiter : dropDigit^[t] (dropDigit^[places - 28] m) = dropDigit^[places - 28 + t] m := by
      rw [Nat.add_comm, Function.iterate_add_apply]
    rw [hiter] at heq hfloor
    have hplace : min places 28 - t = places - (places - 28 + t) := by omega
    refine Or.inr ⟨places - 28 + t, by omega, by simp only [heq, hplace], ?_⟩
    rcases hfloor with rfl | hfloor
    · rcases Nat.le_total places 28 with hle | hle
      · exact Or.inl (by omega)
      · exact Or.inr (Or.inl (by omega))
    · exact Or.inr (Or.inr hfloor)

/-- Rounding off decimal places loses less than six tenths of the last place that is left. -/
theorem value_dropDigit_near (m : ℕ) {places t : ℕ} (ht : t ≤ places) :
    |(⟨m, -places⟩ : Progress).value -
        (⟨dropDigit^[t] m, -((places - t : ℕ) : ℤ)⟩ : Progress).value| ≤
      5 / 9 * 10 ^ (-((places - t : ℕ) : ℤ)) := by
  have hpart := ten_zpow_pos (-places)
  have hsplit : (10 : ℚ) ^ (-((places - t : ℕ) : ℤ)) = 10 ^ t * 10 ^ (-places : ℤ) := by
    rw [← zpow_natCast, ← zpow_add₀ (by norm_num)]
    exact congrArg _ (by omega)
  have hdiff : (⟨m, -places⟩ : Progress).value -
      (⟨dropDigit^[t] m, -((places - t : ℕ) : ℤ)⟩ : Progress).value =
        -((10 ^ t * (dropDigit^[t] m : ℚ) - m) * 10 ^ (-places : ℤ)) := by
    rw [Progress.value, Progress.value, hsplit]
    ring
  have hnear := mul_le_mul_of_nonneg_right (iterate_dropDigit_near t m) hpart.le
  rw [hdiff, abs_neg, abs_mul, abs_of_pos hpart, hsplit]
  linarith

/-- What vanishes is below one in the last of 28 places. -/
theorem value_le_of_vanish {m places : ℕ} (hm : 90 * m ≤ 85 * 10 ^ (places - 28))
    (hplaces : 28 < places) : (⟨m, -places⟩ : Progress).value ≤ 17 / 18 * 10 ^ (-28 : ℤ) := by
  have hunit : (10 : ℚ) ^ (-28 : ℤ) = 10 ^ (places - 28) * 10 ^ (-places : ℤ) := by
    rw [← zpow_natCast, ← zpow_add₀ (by norm_num)]
    exact congrArg _ (by omega)
  have hm' : (90 : ℚ) * m ≤ 85 * 10 ^ (places - 28) := by exact_mod_cast hm
  have hscaled := mul_le_mul_of_nonneg_right hm' (ten_zpow_pos (-places)).le
  rw [hunit, Progress.value]
  linarith

/-- A value that settles as a natural number is near it, or vanishes. -/
theorem settle_near {p r : Progress} (hp : p.exponent ≤ 0) (h : settle p = some r) {a : ℕ}
    (ha : r.value = a) :
    (a = 0 ∧ p.value ≤ 17 / 18 * 10 ^ (-28 : ℤ)) ∨ |p.value - a| ≤ 5 / 9 * (a / shedFloor) := by
  obtain ⟨m, k⟩ := p
  obtain ⟨places, rfl⟩ : ∃ places : ℕ, k = -places := ⟨k.natAbs, by dsimp only at hp; omega⟩
  have hfloor : (0 : ℚ) < shedFloor := by norm_num [shedFloor]
  rcases settle_eq m places with ⟨heq, hm, hplaces⟩ | ⟨t, ht, heq, hrest⟩
  · obtain rfl := Option.some.inj (heq.symm.trans h)
    have hzero : a = 0 := by simpa [Progress.value, eq_comm] using ha
    exact Or.inl ⟨hzero, value_le_of_vanish hm hplaces⟩
  · obtain rfl := Option.some.inj (heq.symm.trans h)
    have hloss := ha ▸ value_dropDigit_near m ht
    have hpos := ten_zpow_pos (-((places - t : ℕ) : ℤ))
    rcases hrest with rfl | hplace | hlarge
    · -- nothing was rounded off
      rw [Function.iterate_zero_apply, Nat.sub_zero] at ha
      refine Or.inr ?_
      rw [ha, sub_self, abs_zero]
      positivity
    · have hunit : (10 : ℚ) ^ (-((places - t : ℕ) : ℤ)) = 10 ^ (-28 : ℤ) := by rw [hplace]; rfl
      rw [hunit] at hloss hpos
      rcases Nat.eq_zero_or_pos a with rfl | hone
      · rw [Nat.cast_zero, sub_zero, abs_of_nonneg (Progress.value_nonneg _)] at hloss
        exact Or.inl ⟨rfl, by linarith⟩
      · have hsmall : (10 : ℚ) ^ (-28 : ℤ) ≤ a / shedFloor := by
          have hone' : (1 : ℚ) ≤ a := by exact_mod_cast hone
          calc (10 : ℚ) ^ (-28 : ℤ) ≤ 1 / shedFloor := by norm_num [shedFloor]
            _ ≤ a / shedFloor := by gcongr
        exact Or.inr (hloss.trans (by linarith))
    · have hlarge' : (shedFloor : ℚ) ≤ dropDigit^[t] m := by exact_mod_cast hlarge
      have hvalue : 10 ^ (-((places - t : ℕ) : ℤ)) ≤ (a : ℚ) / shedFloor := by
        rw [le_div_iff₀ hfloor, ← ha, Progress.value, mul_comm]
        exact mul_le_mul_of_nonneg_right hlarge' hpos.le
      exact Or.inr (hloss.trans (by linarith))

/-- A magnitude that is converted to a natural number is near it, or vanishes. -/
theorem convert?_near {m : ℕ} {e : ℤ} (hm : m < limit) (he : -1074 ≤ e) {r : Progress}
    (h : convert? m e = some r) {a : ℕ} (ha : r.value = a) :
    (a = 0 ∧ (m : ℚ) * 2 ^ e < 1 / 10 ^ 28) ∨ |(m : ℚ) * 2 ^ e - a| ≤ a / 2 ^ 49 := by
  by_cases hneg : e < 0
  · obtain ⟨n, rfl⟩ : ∃ n : ℕ, e = -n := ⟨e.natAbs, by omega⟩
    rw [convert?, if_pos hneg, Int.natAbs_neg, Int.natAbs_natCast, Option.bind_some] at h
    obtain ⟨hexp, hle, hge⟩ := divideByTwos_near n ⟨m, -n⟩
    have hstart : (⟨m, -n⟩ : Progress).value * 5 ^ n = m * 2 ^ (-n : ℤ) := by
      have hten : (10 : ℚ) ^ (-n : ℤ) * 5 ^ n = 2 ^ (-n : ℤ) := by
        rw [zpow_neg, zpow_neg, zpow_natCast, zpow_natCast, (by norm_num : (10 : ℚ) = 2 * 5),
          mul_pow, mul_inv, mul_assoc, inv_mul_cancel₀ (by positivity), mul_one]
      rw [Progress.value, mul_assoc, hten]
    rw [hstart] at hle hge
    have hloss : (n : ℚ) / 2 ^ 93 * (m * 2 ^ (-n : ℤ)) ≤ 1074 / 2 ^ 93 * (m * 2 ^ (-n : ℤ)) := by
      have hn : (n : ℚ) ≤ 1074 := by exact_mod_cast (by omega : n ≤ 1074)
      gcongr
    have hpos : (0 : ℚ) ≤ m * 2 ^ (-n : ℤ) := by positivity
    rcases settle_near (by dsimp only at hexp; omega) h ha with ⟨rfl, hsmall⟩ | hnear
    · refine Or.inl ⟨rfl, ?_⟩
      have hunit : (10 : ℚ) ^ (-28 : ℤ) = 1 / 10 ^ 28 := by norm_num
      rw [hunit] at hsmall
      linarith
    · refine Or.inr ?_
      have hfloor : (shedFloor : ℚ) = 450359962737049 := by norm_num [shedFloor]
      rw [hfloor] at hnear
      rw [abs_le] at hnear ⊢
      constructor <;> linarith
  · -- without a negative power of two the magnitude is whole
    obtain ⟨n, rfl⟩ := Int.eq_ofNat_of_zero_le (not_lt.1 hneg)
    have hwhole : (m : ℚ) * 2 ^ (n : ℤ) = (m * 2 ^ n : ℕ) := by push_cast; rfl
    rw [convert?_of_whole hm hwhole] at h
    split at h
    · cases h
      rw [Progress.value, zpow_zero, mul_one, ← hwhole] at ha
      refine Or.inr ?_
      rw [ha, sub_self, abs_zero]
      positivity
    · cases h

end Scaled

namespace Binary64

open Scaled

/-- What an integer is found to equal is near it, or is next to zero. -/
theorem near_of_equalsInt {x : Binary64} {q : ℚ} (hx : x.value? = some q) {n : ℤ}
    (h : x.equalsInt n = true) : |q - n| ≤ |(n : ℚ)| / 2 ^ 49 ∨ n = 0 ∧ |q| < 1 / 10 ^ 28 := by
  obtain ⟨d, hd, hvalue⟩ := equalsInt_iff.1 h
  cases x with
  | nan => cases hx
  | infinity s => cases hx
  | finite s rank =>
    rw [value?, value_parts, Option.some.injEq] at hx
    by_cases hrank : rank.val = 0
    · -- zero is converted as it is
      have hzero : (parts 0).1 = 0 := rfl
      rw [ofBinary64?, if_pos hrank] at hd
      cases hd
      rw [value_mk s ⟨0, 0⟩, Progress.value, Nat.cast_zero, zero_mul, mul_zero] at hvalue
      rw [hrank, hzero, Nat.cast_zero, zero_mul, mul_zero] at hx
      refine Or.inl ?_
      rw [← hx, ← hvalue]
      simp
    · rw [ofBinary64?_finite hrank] at hd
      obtain ⟨r, hr, rfl⟩ := Option.map_eq_some_iff.1 hd
      rw [value_mk] at hvalue
      have ha : r.value = n.natAbs := by
        rw [Nat.cast_natAbs, Int.cast_abs, ← hvalue, abs_signFactor_mul,
          abs_of_nonneg r.value_nonneg]
      have hm : (parts rank).1 < limit := (parts_lt rank).trans (by decide)
      have habs : |(n : ℚ)| = n.natAbs := by rw [Nat.cast_natAbs, Int.cast_abs]
      rcases convert?_near hm (le_parts rank) hr ha with ⟨hzero, hsmall⟩ | hnear
      · refine Or.inr ⟨Int.natAbs_eq_zero.1 hzero, ?_⟩
        rwa [← hx, abs_signFactor_mul, abs_of_nonneg (by positivity)]
      · refine Or.inl ?_
        rwa [← hx, ← hvalue, ← mul_sub, abs_signFactor_mul, hvalue, habs, ha]

end Binary64

namespace Value

/-- An integer matches the floating point number that equals it. A number that it matches equals
it, or is not whole and lies within a part in `2 ^ 49` of it, or below `10 ^ -28` if it is zero. -/
theorem matchesLiteral_near (n : Int64) {x : Binary64} {q : ℚ} (hx : x.value? = some q) :
    (q = n.toInt → (integer n).matchesLiteral (.float x) = true ∧
      (float x).matchesLiteral (.integer n) = true) ∧
    ((integer n).matchesLiteral (.float x) = true ∨
        (float x).matchesLiteral (.integer n) = true →
      q = n.toInt ∨ (∀ k : ℤ, q ≠ k) ∧
        (|q - n.toInt| ≤ |(n.toInt : ℚ)| / 2 ^ 49 ∨ n = 0 ∧ |q| < 1 / 10 ^ 28)) := by
  constructor
  · intro heq
    have hwhole : x.IsWhole := fun q' hq' => ⟨n.toInt, (Option.mem_unique hq' hx).trans heq⟩
    have hequals := (Binary64.equalsInt_iff_of_isWhole hwhole (natAbs_toInt_lt n)).2 (heq ▸ hx)
    exact ⟨hequals, hequals⟩
  · intro hmatch
    have hequals : x.equalsInt n.toInt = true := hmatch.elim id id
    by_cases hfrac : ∀ k : ℤ, q ≠ k
    · refine Or.inr ⟨hfrac, (Binary64.near_of_equalsInt hx hequals).imp_right ?_⟩
      exact fun ⟨hzero, hsmall⟩ => ⟨Int64.toInt_inj.1 hzero, hsmall⟩
    · push Not at hfrac
      obtain ⟨k, hk⟩ := hfrac
      have hwhole : x.IsWhole := fun q' hq' => ⟨k, (Option.mem_unique hq' hx).trans hk⟩
      have hvalue := (Binary64.equalsInt_iff_of_isWhole hwhole (natAbs_toInt_lt n)).1 hequals
      exact Or.inl (Option.some.inj (hx.symm.trans hvalue))

/-- The number next below one, `1 - 2 ^ -53`, which sixteen nines after the point are read as. -/
def sixteenNines : Binary64 := Numeral.toBinary64 ⟨false, 9999999999999999, -16⟩

theorem value?_sixteenNines :
    sixteenNines.value? = some (9007199254740991 / 9007199254740992) := by
  have heq : sixteenNines = .ofRank false 0x3FEFFFFFFFFFFFFF := by decide +kernel
  have hvalue : (Binary64.ofRank false 0x3FEFFFFFFFFFFFFF).value? =
      some (signFactor false * ((9007199254740991 : ℕ) / (9007199254740992 : ℕ))) :=
    Binary64.value?_ofRank (by decide +kernel) (by decide) (by decide +kernel)
  rw [heq, hvalue]
  norm_num [signFactor]

/-- One matches sixteen nines, and so they are near one. -/
theorem matchesLiteral_near_nines :
    let q : ℚ := 9007199254740991 / 9007199254740992
    sixteenNines.value? = some q ∧ (integer 1).matchesLiteral (.float sixteenNines) = true ∧
      (q = (1 : Int64).toInt ∨ (∀ k : ℤ, q ≠ k) ∧
        (|q - (1 : Int64).toInt| ≤ |((1 : Int64).toInt : ℚ)| / 2 ^ 49 ∨
          (1 : Int64) = 0 ∧ |q| < 1 / 10 ^ 28)) := by
  intro q
  have hmatch : (integer 1).matchesLiteral (.float sixteenNines) = true := by decide +kernel
  exact ⟨value?_sixteenNines, hmatch,
    (matchesLiteral_near 1 value?_sixteenNines).2 (Or.inl hmatch)⟩

/-- One matches sixteen nines in either place, although they are not one. -/
theorem matchesLiteral_one_nines :
    (integer 1).matchesLiteral (.float sixteenNines) = true ∧
      (float sixteenNines).matchesLiteral (.integer 1) = true ∧
      ∃ q : ℚ, sixteenNines.value? = some q ∧ q ≠ (1 : Int64).toInt := by
  have hone : (1 : Int64).toInt = 1 := rfl
  refine ⟨by decide +kernel, by decide +kernel, _, value?_sixteenNines, ?_⟩
  rw [hone]
  norm_num

end Value

end DocMatch
