import DocMatch.Number.Binary64

/-!
Decimal numerals: a sign, a natural number of digits and a power of ten. Reading one as a floating
point number rounds its exact value once.
-/

namespace DocMatch

/-- The numeral `± digits × 10 ^ exponent`. -/
structure Numeral where
  negative : Bool
  digits : Nat
  exponent : Int
  deriving DecidableEq

/-- The number of decimal digits of a natural number; zero has one. -/
def decimalLength (n : Nat) : Nat :=
  if n < 10 then 1 else decimalLength (n / 10) + 1

/-- The natural number written by a list of decimal digits, most significant first. -/
def natOfDigits (cs : List Char) : Nat :=
  cs.foldl (fun n c => 10 * n + (c.toNat - '0'.toNat)) 0

/-- Whether a character is one of the ten ASCII digits. -/
def isDigit (c : Char) : Bool := '0' ≤ c && c ≤ '9'

namespace Numeral

/-- The exact magnitude of a numeral as a quotient. -/
def ratio (d : Numeral) : Nat × Nat :=
  if d.exponent < 0 then (d.digits, Nat.pow 10 d.exponent.natAbs)
  else (d.digits * Nat.pow 10 d.exponent.natAbs, 1)

/-- The nearest floating point number. Magnitudes from `10 ^ 310` up are infinite and those below
`10 ^ -330` vanish, whatever their digits, so that no huge power of ten is ever computed. -/
def toBinary64 (d : Numeral) : Binary64 :=
  let top := decimalLength d.digits + d.exponent
  if d.digits = 0 ∨ top < -330 then Binary64.zero d.negative
  else if 310 < top then .infinity d.negative
  else Binary64.ofRatio d.negative d.ratio.1 d.ratio.2

example : toBinary64 ⟨false, 1, -1⟩ = Binary64.ofRatio false 1 10 := by decide +kernel
example : toBinary64 ⟨true, 5, -324⟩ = Binary64.ofRank true 1 := by decide +kernel
example : toBinary64 ⟨false, 17976931348623159, 292⟩ = .infinity false := by decide +kernel

end Numeral

end DocMatch
