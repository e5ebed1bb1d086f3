import DocMatch.Value.Basic
import Mathlib

/-!
Numbers as rationals. A finite floating point number stands for a rational, a scaled decimal for
another, and the comparison of an integer with a floating point number asks whether the integer is
the rational that the conversion leaves.

    rank ──parts──▶ m, e            ± m * 2 ^ e
    m, e ──convert?──▶ c, k         ± c * 10 ^ k     none if the magnitude is too large
-/

namespace DocMatch

/-- The factor of a sign. -/
def signFactor (negative : Bool) : ℚ := if negative then -1 else 1

theorem abs_signFactor_mul (s : Bool) (x : ℚ) : |signFactor s * x| = |x| := by
  cases s <;> simp [signFactor]

namespace Binary64

/-- The rational that a finite number stands for. -/
def value? : Binary64 → Option ℚ
  | finite negative rank => some (signFactor negative * (unitsOfRank rank / unitsPerOne))
  | _ => none

theorem unitsPerOne_pos : 0 < unitsPerOne := by
  unfold unitsPerOne
  generalize 1074 = places
  exact Nat.two_pow_pos places

/-- The rational of a rank, from a fraction that its units make of the units in one. -/
theorem value?_ofRank {s : Bool} {rank c d : ℕ} (hrank : rank < finiteRanks) (hd : 0 < d)
    (hunits : unitsOfRank rank * d = c * unitsPerOne) :
    (ofRank s rank).value? = some (signFactor s * (c / d)) := by
  have hone : (unitsPerOne : ℚ) ≠ 0 := Nat.cast_ne_zero.2 unitsPerOne_pos.ne'
  have hden : (d : ℚ) ≠ 0 := Nat.cast_ne_zero.2 hd.ne'
  have hfraction : (unitsOfRank rank : ℚ) / unitsPerOne = c / d := by
    rw [div_eq_div_iff hone hden]
    exact_mod_cast hunits
  rw [ofRank, dif_pos hrank, value?, hfraction]

end Binary64

namespace Scaled

theorem ten_zpow_pos (k : ℤ) : (0 : ℚ) < 10 ^ k := zpow_pos (by norm_num) k

/-! ### Scaled decimals -/

/-- The value of a conversion in progress, up to the powers of five still to be moved in. -/
def Progress.value (p : Progress) : ℚ := p.coefficient * 10 ^ p.exponent

/-- The rational that a scaled decimal stands for. -/
def value (d : Scaled) : ℚ := d.signed * 10 ^ d.exponent

theorem value_ofInt (n : Int) : (ofInt n).value = n := by
  have hsigned : (ofInt n).signed = n := by
    unfold ofInt signed
    by_cases hn : n < 0
    · simp [hn, abs_of_neg hn]
    · simp [hn, abs_of_nonneg (not_lt.1 hn)]
  rw [value, hsigned, ofInt, zpow_zero, mul_one]

theorem value_mk (s : Bool) (p : Progress) :
    (Scaled.mk s p.coefficient p.exponent).value = signFactor s * p.value := by
  cases s <;> simp [value, signed, signFactor, Progress.value]

/-- Over a common power of ten, equal numbers have equal coefficients. -/
theorem signed_eq_iff {a b : Int} {i j : Int} (h : j ≤ i) :
    a * Nat.pow 10 (i - j).toNat = b * Nat.pow 10 (j - i).toNat ↔
      (a * 10 ^ i : ℚ) = b * 10 ^ j := by
  obtain ⟨k, rfl⟩ : ∃ k : ℕ, i = j + k := ⟨(i - j).toNat, by omega⟩
  have hup : (j + k - j).toNat = k := by omega
  have hdown : (j - (j + k)).toNat = 0 := by omega
  rw [hup, hdown, zpow_add₀ (by norm_num), mul_left_comm, mul_comm (b : ℚ),
    mul_right_inj' (ten_zpow_pos j).ne']
  simp only [Nat.pow_eq, zpow_natCast, pow_zero]
  norm_cast
  simp

theorem equals_iff {a b : Scaled} : a.equals b = true ↔ a.value = b.value := by
  unfold equals value
  rw [beq_iff_eq]
  rcases le_total b.exponent a.exponent with h | h
  · exact signed_eq_iff h
  · rw [eq_comm, signed_eq_iff h, eq_comm]

/-! ### The conversion in two steps -/

/-- The conversion of a magnitude `m * 2 ^ e`. -/
def convert? (m : ℕ) (e : ℤ) : Option Progress :=
  (if e < 0 then some (divideByTwos e.natAbs ⟨m, e⟩) else multiplyByTwos e.natAbs ⟨m, e⟩).bind
    settle

theorem inv_cast_pow_two (n : ℕ) : ((Nat.pow 2 n : ℕ) : ℚ)⁻¹ = 2 ^ (-n : ℤ) := by
  rw [Nat.pow_eq, Nat.cast_pow, zpow_neg, zpow_natCast]
  rfl

/-- The significand and the power of two of a magnitude give it back. -/
theorem value_parts (rank : ℕ) :
    (Binary64.unitsOfRank rank : ℚ) / Binary64.unitsPerOne =
      (parts rank).1 * 2 ^ (parts rank).2 := by
  have hone : (Binary64.unitsPerOne : ℚ)⁻¹ = 2 ^ (-1074 : ℤ) := by
    unfold Binary64.unitsPerOne
    generalize hplaces : (1074 : ℕ) = places
    rw [inv_cast_pow_two, ← hplaces]
    rfl
  rw [div_eq_mul_inv, hone]
  unfold Binary64.unitsOfRank parts
  generalize hunit : (-1074 : ℤ) = unit
  by_cases hblock : rank / rankBlock = 0
  · simp only [hblock, if_true]
  · obtain ⟨b, hb⟩ := Nat.exists_eq_succ_of_ne_zero hblock
    simp only [hb, Nat.succ_ne_zero, if_false]
    have hexp : ((b.succ : ℕ) : ℤ) - 1075 = b + unit := by omega
    rw [hexp, zpow_add₀ (by norm_num), zpow_natCast, Nat.succ_sub_one, Nat.pow_eq]
    push_cast
    ring

theorem parts_lt (rank : ℕ) : (parts rank).1 < 2 ^ 53 := by
  have hblock : rankBlock = 2 ^ 52 := rfl
  have hmod : rank % rankBlock < rankBlock := Nat.mod_lt rank (by decide)
  unfold parts
  dsimp only
  split
  · rename_i hzero
    have : rank < rankBlock := (Nat.div_eq_zero_iff.1 hzero).resolve_left (by decide)
    omega
  · dsimp only
    omega

theorem le_parts (rank : ℕ) : -1074 ≤ (parts rank).2 := by
  unfold parts
  dsimp only
  split
  · exact le_refl _
  · rename_i hblock
    generalize rank / rankBlock = block at hblock
    dsimp only
    omega

theorem ofBinary64?_finite {s : Bool} {rank : Fin finiteRanks} (h : rank.val ≠ 0) :
    ofBinary64? (.finite s rank) =
      (convert? (parts rank).1 (parts rank).2).map fun p => ⟨s, p.coefficient, p.exponent⟩ := by
  rw [ofBinary64?, if_neg h]
  rfl

end Scaled

end DocMatch
