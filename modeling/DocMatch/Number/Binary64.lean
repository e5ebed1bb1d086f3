/-!
Binary floating point numbers of 64 bits, without machine arithmetic.

The magnitudes are ranked: rank 0 is zero, and each next rank is the next larger magnitude. Measured
in the unit `2 ^ -1074` every finite magnitude is a natural number, `unitsOfRank`. The ranks come in
blocks of `2 ^ 52`; the magnitudes of the blocks 0 and 1 are spaced by one unit, and from then on
the spacing doubles with each block:

    block:      0                 1                  2                    …   2046
    rank:       0 … 2^52 - 1      2^52 … 2^53 - 1    2^53 … 3·2^52 - 1
    spacing:    1                 1                  2                        2 ^ 2045

The rank after the last finite one stands for infinity, so rounding up past the largest magnitude
lands there by itself. A rank is the 63 low bits of the interchange form of IEEE 754.
-/

namespace DocMatch

/-- The number of ranks in one block. -/
def rankBlock : Nat := Nat.pow 2 52

/-- The number of finite ranks: 2047 blocks. -/
def finiteRanks : Nat := 2047 * rankBlock

/-- A binary floating point number of 64 bits; all that is not a number is one value. -/
inductive Binary64
  | nan
  | infinity (negative : Bool)
  | finite (negative : Bool) (rank : Fin finiteRanks)
  deriving DecidableEq

namespace Binary64

/-- The magnitude of a rank, in units of `2 ^ -1074`. -/
def unitsOfRank (rank : Nat) : Nat :=
  let block := rank / rankBlock
  if block = 0 then rank else (rankBlock + rank % rankBlock) * Nat.pow 2 (block - 1)

/-- The number `2 ^ 1074` of units in one. -/
def unitsPerOne : Nat := Nat.pow 2 1074

/-- The number with a given sign and rank; ranks past the finite ones are infinite. -/
def ofRank (negative : Bool) (rank : Nat) : Binary64 :=
  if h : rank < finiteRanks then finite negative ⟨rank, h⟩ else infinity negative

/-- Zero, with a sign. -/
def zero (negative : Bool) : Binary64 := ofRank negative 0

/-- Whether the number is neither infinite nor `nan`. -/
def isFinite : Binary64 → Bool
  | finite _ _ => true
  | _ => false

/-- Where a half is rounded to. -/
inductive Tie
  | toEven | up
  deriving DecidableEq

/-- A quotient rounded to the nearest natural number. -/
def roundDiv (tie : Tie) (num den : Nat) : Nat :=
  let q := num / den
  let r := num % den
  if 2 * r < den then q
  else if den < 2 * r then q + 1
  else
    match tie with
    | .toEven => q + q % 2
    | .up => q + 1

/-- The rank nearest to a magnitude of `num / den` units. The magnitude lies in the block whose
spacing is `2 ^ s`, where `2 ^ (s + 52)` is the highest power of two in it (`s = 0` in the blocks 0
and 1), and rounding is to a multiple of that spacing; rounding up to the next block needs no case
of its own, because ranks run on from block to block. -/
def nearestRank (num den : Nat) : Nat :=
  let s := Nat.log2 (num / den) - 52
  s * rankBlock + roundDiv .toEven num (den * Nat.pow 2 s)

/-- The number nearest to `± num / den`; of two equally near the one of even rank. -/
def ofRatio (negative : Bool) (num den : Nat) : Binary64 :=
  ofRank negative (nearestRank (num * unitsPerOne) den)

/-- The number nearest to an integer. -/
def ofInt (n : Int) : Binary64 := ofRatio (n < 0) n.natAbs 1

/-- Equality of numbers: `nan` equals nothing, and both zeros are equal. -/
def equals : Binary64 → Binary64 → Bool
  | finite s r, finite s' r' => (s == s' || r.val == 0) && r == r'
  | infinity s, infinity s' => s == s'
  | _, _ => false

example : ofInt 1 = ofRank false 0x3FF0000000000000 := by decide +kernel
example : ofInt (-9007199254740993) = ofInt (-9007199254740992) := by decide +kernel
example : ofRatio false 1 10 = ofRank false 0x3FB999999999999A := by decide +kernel
example : ofRatio false (Nat.pow 10 400) 1 = infinity false := by decide +kernel
example : ofRatio true 1 (Nat.pow 10 400) = zero true := by decide +kernel

end Binary64

end DocMatch
