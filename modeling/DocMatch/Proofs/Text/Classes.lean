import DocMatch.Expr.Token
import Mathlib.Data.List.TakeWhile

/-!
The classes of characters from which tokens are made. A blank, a digit, a character of a name and a
mark are four different things, so the first character of a token tells what it is, and a blank is
never part of a name or a number. Blanks are few enough to be listed, and the table of letters is
looked up for each of them.

A run of a class is as long as it can be when something else follows it, or nothing.
-/

namespace DocMatch

namespace CodePoints

/-- The code points between the first boundary and the second, the third and the fourth, and so
on. -/
def members : CodePoints → List Nat
  | a :: b :: rest => List.range' a (b - a) ++ members rest
  | _ => []

/-- A table with an even number of boundaries contains its members only. -/
theorem mem_members {table : CodePoints} {n : Nat} (hlength : table.length % 2 = 0)
    (h : table.contains n = true) : n ∈ table.members := by
  induction table using members.induct with
  | case1 a b rest ih =>
    rw [members, List.mem_append, List.mem_range'_1]
    by_cases ha : n < a
    · simp [contains_of_lt _ ha] at h
    · by_cases hb : n < b
      · exact Or.inl (by omega)
      · simp only [contains, ha, hb, if_false, Bool.not_not] at h
        simp only [List.length_cons] at hlength
        exact Or.inr (ih (by omega) h)
  | case2 table hne =>
    rcases table with _ | ⟨a, _ | ⟨b, rest⟩⟩
    · cases h
    · cases hlength
    · exact absurd rfl (hne a b rest)

end CodePoints

/-- The characters that are tokens, or begin one, by themselves. -/
def isMark (c : Char) : Bool := c == '.' || c == '|' || c == '+' || c == '=' || c == '"'

theorem isDigit_iff {c : Char} : isDigit c = true ↔ 48 ≤ c.toNat ∧ c.toNat ≤ 57 := by
  simp only [isDigit, Bool.and_eq_true, decide_eq_true_eq]
  exact Iff.rfl

/-- A blank is nothing else; each blank is looked up in the table of letters. -/
theorem of_isBlank {c : Char} (h : isBlank c = true) :
    isMark c = false ∧ isDigit c = false ∧ isNameChar c = false := by
  have hall : ∀ n ∈ blankBoundaries.members, isMark (Char.ofNat n) = false ∧
      isDigit (Char.ofNat n) = false ∧ isNameChar (Char.ofNat n) = false := by decide +kernel
  have hc := hall c.toNat (CodePoints.mem_members rfl h)
  rwa [Char.ofNat_toNat] at hc

theorem of_isMark {c : Char} (h : isMark c = true) :
    isBlank c = false ∧ isDigit c = false ∧ isNameChar c = false := by
  simp only [isMark, Bool.or_eq_true, beq_iff_eq] at h
  rcases h with (((rfl | rfl) | rfl) | rfl) | rfl <;> decide

theorem of_isDigit {c : Char} (h : isDigit c = true) :
    isBlank c = false ∧ isMark c = false ∧ isNameChar c = false := by
  have hall : ∀ n ∈ List.range' 48 10, isBlank (Char.ofNat n) = false ∧
      isMark (Char.ofNat n) = false ∧ isNameChar (Char.ofNat n) = false := by decide
  have hc := hall c.toNat (List.mem_range'_1.2 (by rw [isDigit_iff] at h; omega))
  rwa [Char.ofNat_toNat] at hc

theorem of_isNameChar {c : Char} (h : isNameChar c = true) :
    isBlank c = false ∧ isMark c = false ∧ isDigit c = false := by
  refine ⟨?_, ?_, ?_⟩ <;> refine Bool.eq_false_iff.2 fun hc => ?_
  · simp [(of_isBlank hc).2.2] at h
  · simp [(of_isMark hc).2.2] at h
  · simp [(of_isDigit hc).2.2] at h

/-! ### Runs -/

/-- A run of characters of a class ends here: nothing follows, or a character of another class. -/
def Ends (p : Char → Bool) (rest : List Char) : Prop := ∀ c ∈ rest.head?, p c = false

theorem takeWhile_of_ends {p : Char → Bool} {run rest : List Char} (hrun : ∀ c ∈ run, p c = true)
    (hends : Ends p rest) : (run ++ rest).takeWhile p = run := by
  rw [List.takeWhile_append_of_pos hrun]
  cases rest with
  | nil => simp
  | cons c rest => simp [hends c rfl]

theorem dropWhile_of_ends {p : Char → Bool} {run rest : List Char} (hrun : ∀ c ∈ run, p c = true)
    (hends : Ends p rest) : (run ++ rest).dropWhile p = rest := by
  rw [List.dropWhile_append_of_pos hrun]
  cases rest with
  | nil => rfl
  | cons c rest => simp [hends c rfl]

theorem ends_dropWhile (p : Char → Bool) (cs : List Char) : Ends p (cs.dropWhile p) := by
  induction cs with
  | nil => exact nofun
  | cons c cs ih =>
    by_cases hc : p c = true
    · rwa [List.dropWhile_cons_of_pos hc]
    · rw [List.dropWhile_cons_of_neg hc]
      rintro _ ⟨⟩
      exact Bool.eq_false_iff.2 hc

end DocMatch
