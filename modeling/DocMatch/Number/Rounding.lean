import DocMatch.Number.Numeral

/-!
Two ways to round a decimal number that is read. Its exact value can be rounded once. Or else its
digits, as far as 64 bits hold them, are rounded as one integer, which is then multiplied or divided
by a power of ten that is rounded itself; that is how JSON is read where speed counts for more than
the last bit. Where a step is not exact the two can give neighbouring numbers.

    0.1                      1 / 10 ^ 1                       the same
    51.248178375505404       51248178375505404 / 10 ^ 15      one rank too high
-/

namespace DocMatch

/-- How a decimal number is rounded. -/
inductive Rounding
  | once | inSteps
  deriving DecidableEq

namespace Binary64

/-- The rank nearest to a natural number. -/
def rankOfNat (n : Nat) : Nat := nearestRank (n * unitsPerOne) 1

/-- The rank nearest to the product of two magnitudes. -/
def productRank (a b : Nat) : Nat := nearestRank (unitsOfRank a * unitsOfRank b) unitsPerOne

/-- The rank nearest to the quotient of two magnitudes. -/
def quotientRank (a b : Nat) : Nat := nearestRank (unitsOfRank a * unitsPerOne) (unitsOfRank b)

/-- The rank nearest to a power of ten. -/
def powerRank (k : Nat) : Nat := rankOfNat (Nat.pow 10 k)

/-- The highest power of ten that is finite. -/
def topPower : Nat := 308

/-- A magnitude divided by the highest power of ten, again and again unless it vanishes. -/
def sink : Nat → Nat → Nat
  | 0, rank => rank
  | times + 1, rank => if rank = 0 then 0 else sink times (quotientRank rank (powerRank topPower))

/-- A magnitude times a power of ten. It is multiplied once, and divided by finite powers only. -/
def scaleRank (rank : Nat) (e : Int) : Nat :=
  if 0 ≤ e then
    if e ≤ topPower then productRank rank (powerRank e.natAbs)
    else if rank = 0 then 0
    else finiteRanks
  else
    let times := (e.natAbs - 1) / topPower
    quotientRank (sink times rank) (powerRank (e.natAbs - times * topPower))

end Binary64

/-- The number that digits make behind others, as far as 64 bits hold it, and how many of them it
takes. -/
def packDigits (n : Nat) : List Char → Nat × Nat
  | [] => (n, 0)
  | c :: cs =>
    let m := 10 * n + (c.toNat - '0'.toNat)
    if m < Nat.pow 2 64 then
      let (packed, taken) := packDigits m cs
      (packed, taken + 1)
    else (n, 0)

namespace Rounding

/-- The number with given digits before and after its point, times a power of ten. Digits of the
whole part that are not packed count as zeros. -/
def read (rounding : Rounding) (negative : Bool) (whole places : List Char) (power : Int) :
    Binary64 :=
  match rounding with
  | once => Numeral.toBinary64 ⟨negative, natOfDigits (whole ++ places), power - places.length⟩
  | inSteps =>
    let (n, taken) := packDigits 0 whole
    let (n, more) := packDigits n places
    Binary64.ofRank negative
      (Binary64.scaleRank (Binary64.rankOfNat n) (power + (whole.length - taken : Nat) - more))

example : inSteps.read false ['5', '1'] "248178375505404".toList 0 ≠
      once.read false ['5', '1'] "248178375505404".toList 0 ∧
    inSteps.read true ['1'] ['5'] (-400) = Binary64.zero true ∧
    inSteps.read false ['0'] ['1'] 309 = once.read false ['1'] [] 308 := by
  decide +kernel

end Rounding

end DocMatch
