import DocMatch.Number.Binary64

/-!
Scaled decimals: whole numbers of at most 96 bits over a power of ten. Comparing an integer with a
floating point number goes through them. An integer converts exactly; a floating point number
`m * 2 ^ e` converts by moving one power of two at a time to a power of ten, halving where a factor
two is there and multiplying by five where it is not, and by rounding off decimal digits in the end
until at most 28 decimal places and about 52 bits are left.
-/

namespace DocMatch

/-- The value `± coefficient * 10 ^ exponent`. -/
structure Scaled where
  negative : Bool
  coefficient : Nat
  exponent : Int
  deriving DecidableEq

namespace Scaled

/-- The first coefficient that needs more than 96 bits. -/
def limit : Nat := Nat.pow 2 96

/-- The conversion in progress: the value is `coefficient * 10 ^ exponent`, times the powers of five
still to be moved in. -/
structure Progress where
  coefficient : Nat
  exponent : Int

/-- Divides by two `n` times: `m * 10 ^ k / 2 = m / 2 * 10 ^ k = 5 * m * 10 ^ (k - 1)`. The powers
of ten start at the power of two, so halving gives one back and multiplying by five takes none. -/
def divideByTwos : Nat → Progress → Progress
  | 0, p => p
  | n + 1, ⟨m, k⟩ =>
    divideByTwos n <|
      if m % 2 = 0 then ⟨m / 2, k + 1⟩
      else if 5 * m < limit then ⟨5 * m, k⟩
      else ⟨m / 2, k + 1⟩

/-- Multiplies by two `n` times; the powers of ten start at the power of two, so doubling takes one
and dividing by five takes none. Gives up when the power of ten left is too large to be made up. -/
def multiplyByTwos : Nat → Progress → Option Progress
  | 0, p => some p
  | n + 1, ⟨m, k⟩ =>
    if m < limit / 2 then multiplyByTwos n ⟨2 * m, k - 1⟩
    else if 2 * k > n + 1 then none
    else multiplyByTwos n ⟨m / 5, k⟩

/-- Moves `n` powers of ten into the coefficient, which must keep to 96 bits. -/
def raise : Nat → Nat → Option Nat
  | 0, m => some m
  | n + 1, m => if 10 * m < limit then raise n (10 * m) else none

/-- Rounds off the last digit, a five away from zero. -/
def dropDigit (m : Nat) : Nat := m / 10 + if 5 ≤ m % 10 then 1 else 0

/-- Rounds off the last `n` digits one by one; nothing is left of a coefficient below ten. -/
def dropDigits : Nat → Nat → Option Nat
  | 0, m => some m
  | n + 1, m => if m < 10 then none else dropDigits n (dropDigit m)

/-- Rounds off decimal places while the coefficient has 53 bits or more. -/
def shed : Nat → Nat → Scaled.Progress
  | 0, m => ⟨m, 0⟩
  | places + 1, m =>
    if Nat.pow 2 52 ≤ m then shed places (dropDigit m) else ⟨m, -(places + 1 : Nat)⟩

/-- Brings a power of ten to the range that can be kept. -/
def settle (p : Progress) : Option Progress :=
  if 0 < p.exponent then (raise p.exponent.toNat p.coefficient).map fun m => ⟨m, 0⟩
  else
    let places := p.exponent.natAbs
    match dropDigits (places - 28) p.coefficient with
    | none => some ⟨0, 0⟩
    | some m => some (shed (min places 28) m)

/-- The significand and the power of two of a magnitude. -/
def parts (rank : Nat) : Nat × Int :=
  let block := rank / rankBlock
  if block = 0 then (rank, -1074) else (rankBlock + rank % rankBlock, (block : Int) - 1075)

/-- The scaled decimal for a floating point number, if it has one. -/
def ofBinary64? : Binary64 → Option Scaled
  | .finite negative rank =>
    if rank.val = 0 then some ⟨negative, 0, 0⟩
    else
      let (m, e) := parts rank
      let moved :=
        if e < 0 then some (divideByTwos e.natAbs ⟨m, e⟩) else multiplyByTwos e.natAbs ⟨m, e⟩
      (moved.bind settle).map fun p => ⟨negative, p.coefficient, p.exponent⟩
  | _ => none

/-- The scaled decimal for an integer. -/
def ofInt (n : Int) : Scaled := ⟨n < 0, n.natAbs, 0⟩

/-- The coefficient with its sign. -/
def signed (d : Scaled) : Int := if d.negative then -d.coefficient else d.coefficient

/-- Equality of the values, over a common power of ten. -/
def equals (a b : Scaled) : Bool :=
  a.signed * Nat.pow 10 (a.exponent - b.exponent).toNat
    == b.signed * Nat.pow 10 (b.exponent - a.exponent).toNat

end Scaled

/-- Whether a floating point number equals an integer, both taken as scaled decimals. -/
def Binary64.equalsInt (x : Binary64) (n : Int) : Bool :=
  match Scaled.ofBinary64? x with
  | some d => (Scaled.ofInt n).equals d
  | none => false

end DocMatch
