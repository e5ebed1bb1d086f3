import DocMatch.Number.Numeral

/-!
The shortest decimal numeral that reads back as a given magnitude. On the grid of the numerals with
`n` digits the magnitude has two neighbours; the first `n` for which one of them reads back wins,
and of two that read back the nearer one. Seventeen digits always suffice; were they not to, the
exact expansion would be written, so what is written reads back by construction.

    776793210342427.2      both read back as the number halfway between them;
    776793210342427.3      who writes it chooses one
-/

namespace DocMatch

namespace Numeral

/-- The same magnitude without zeros at the end of the digits. -/
def trimmed (d : Numeral) : Numeral :=
  if d.digits = 0 then { d with exponent := 0 }
  else if 10 ∣ d.digits then trimmed { d with digits := d.digits / 10, exponent := d.exponent + 1 }
  else d
termination_by d.digits
decreasing_by omega

end Numeral

namespace Binary64

/-- Every finite magnitude in decimal, without rounding: a unit is `5 ^ 1074` times `10 ^ -1074`. -/
def exactNumeral (rank : Nat) : Numeral := ⟨false, unitsOfRank rank * Nat.pow 5 1074, -1074⟩

/-- The least power of ten above a magnitude: it is below `10 ^ top`, and not below `10 ^ (top -
1)`. -/
def top (rank : Nat) : Int :=
  let d := exactNumeral rank
  decimalLength d.digits + d.exponent

/-- Whether a numeral reads back as the magnitude of a rank. -/
def readsBack (rank : Nat) (d : Numeral) : Bool := d.toBinary64 == ofRank false rank

/-- The neighbour of a magnitude on the grid of the multiples of `10 ^ e` that reads back; if both
do, the nearer. -/
def onGrid? (tie : Tie) (rank : Nat) (e : Int) : Option Numeral :=
  let num := unitsOfRank rank * Nat.pow 10 (-e).toNat
  let den := unitsPerOne * Nat.pow 10 e.toNat
  let below : Numeral := ⟨false, num / den, e⟩
  let above : Numeral := ⟨false, num / den + 1, e⟩
  match readsBack rank below, readsBack rank above with
  | true, true => some ⟨false, roundDiv tie num den, e⟩
  | true, false => some below
  | false, true => some above
  | false, false => none

/-- The grids on which a magnitude below `10 ^ top` has one digit, two digits, and up to
seventeen. -/
def gridsBelow (top : Int) : List Int := (List.range 17).map fun n => top - (n + 1 : Nat)

/-- The fewest digits that read back, of at most seventeen. -/
def shortest (tie : Tie) (rank : Nat) : Numeral :=
  if rank = 0 then ⟨false, 0, 0⟩
  else (((gridsBelow (top rank)).findSome? (onGrid? tie rank)).getD (exactNumeral rank)).trimmed

end Binary64

end DocMatch
