import DocMatch.Number.Layout
import Mathlib.Data.List.Basic

/-!
Decimal digits. A natural number is written with at least one digit and without zeros in front, and
its digits denote it again.
-/

namespace DocMatch

theorem isDigit_eq_isDigit (c : Char) : isDigit c = c.isDigit := by
  rw [Bool.eq_iff_iff]
  simp only [isDigit, Char.isDigit, Bool.and_eq_true, decide_eq_true_eq]
  exact Iff.rfl

namespace Layout

theorem natDigits_ne_nil (n : Nat) : natDigits n ≠ [] := Nat.toDigits_ne_nil

theorem isDigit_of_mem_natDigits {n : Nat} {c : Char} (h : c ∈ natDigits n) :
    isDigit c = true := by
  rw [isDigit_eq_isDigit]
  exact Nat.isDigit_of_mem_toDigits (by decide) (by decide) h

theorem natDigits_head (n : Nat) : ∃ c cs, natDigits n = c :: cs ∧ isDigit c = true := by
  obtain ⟨c, cs, hcons⟩ := List.exists_cons_of_ne_nil (natDigits_ne_nil n)
  exact ⟨c, cs, hcons, isDigit_of_mem_natDigits (hcons ▸ List.mem_cons_self)⟩

theorem intDigits_head (n : Int) :
    ∃ c cs, intDigits n = c :: cs ∧ (c = '-' ∨ isDigit c = true) := by
  unfold intDigits
  split
  · exact ⟨'-', _, rfl, Or.inl rfl⟩
  · obtain ⟨c, cs, hcons, hc⟩ := natDigits_head n.natAbs
    exact ⟨c, cs, hcons, Or.inr hc⟩

theorem natOfDigits_natDigits (n : Nat) : natOfDigits (natDigits n) = n :=
  Nat.ofDigitChars_ten_toDigits

/-- Only zero begins with the digit zero. -/
theorem eq_zero_of_head?_natDigits {n : Nat} (h : (natDigits n).head? = some '0') : n = 0 := by
  have hdigit : ∀ d < 10, [Nat.digitChar d].head? = some '0' → d = 0 := by decide
  induction n using Nat.strongRecOn with
  | ind n ih =>
    rw [natDigits, Nat.toDigits_eq_if (by decide)] at h
    by_cases hn : n < 10
    · rw [if_pos hn] at h
      exact hdigit n hn h
    · rw [if_neg hn, List.head?_append_of_ne_nil _ Nat.toDigits_ne_nil] at h
      have := ih (n / 10) (by omega) h
      omega

end Layout

end DocMatch
