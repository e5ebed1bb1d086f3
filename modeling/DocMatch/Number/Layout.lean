import DocMatch.Number.Shortest

/-!
Layouts: how a format writes a floating point number. The digits are always the fewest that read
back; a layout decides where the point goes and when a power of ten is written instead.

With digits `d₁d₂…dₙ` and the point after `k` of them (`k` may be negative or beyond `n`):

    0 < k < n      d₁ … dₖ . dₖ₊₁ … dₙ
    k ≤ 0          0.00 d₁ … dₙ
    n ≤ k          d₁ … dₙ 00 (.0)
    exponent       d₁ . d₂ … dₙ e k-1
-/

namespace DocMatch

/-- The decisions of a format on floating point numbers. -/
structure Layout where
  /-- Which of two equally near numerals of the same length is written. -/
  tie : Binary64.Tie
  /-- The places `k` of the point for which a number is written without a power of ten. -/
  positional : Int → Bool
  /-- What follows the digits of a whole number. -/
  whole : List Char
  /-- The mark before a positive power of ten. -/
  raised : List Char
  nan : List Char
  infinity : List Char
  negativeInfinity : List Char

namespace Layout

/-- The decimal digits of a natural number. -/
def natDigits (n : Nat) : List Char := Nat.toDigits 10 n

/-- The decimal digits of an integer, after a minus if it is negative. -/
def intDigits (n : Int) : List Char :=
  if n < 0 then '-' :: natDigits n.natAbs else natDigits n.natAbs

/-- Digits with the point after `k` of them. -/
def placePoint (l : Layout) (ds : List Char) (k : Int) : List Char :=
  if k ≤ 0 then ['0', '.'] ++ List.replicate (-k).toNat '0' ++ ds
  else if ds.length ≤ k.toNat then ds ++ List.replicate (k.toNat - ds.length) '0' ++ l.whole
  else ds.take k.toNat ++ '.' :: ds.drop k.toNat

/-- Digits with one before the point, and the power of ten. -/
def scientific (l : Layout) (ds : List Char) (k : Int) : List Char :=
  let fraction := match ds.drop 1 with
    | [] => []
    | rest => '.' :: rest
  ds.take 1 ++ fraction ++ 'e' :: (if 0 < k then l.raised else []) ++ intDigits (k - 1)

/-- The text of a magnitude. -/
def magnitude (l : Layout) (d : Numeral) : List Char :=
  let ds := natDigits d.digits
  let k := if d.digits = 0 then 1 else ds.length + d.exponent
  if l.positional k then l.placePoint ds k else l.scientific ds k

/-- The text of a number. -/
def write (l : Layout) : Binary64 → List Char
  | .nan => l.nan
  | .infinity false => l.infinity
  | .infinity true => l.negativeInfinity
  | .finite false rank => l.magnitude (Binary64.shortest l.tie rank)
  | .finite true rank => '-' :: l.magnitude (Binary64.shortest l.tie rank)

end Layout

end DocMatch
