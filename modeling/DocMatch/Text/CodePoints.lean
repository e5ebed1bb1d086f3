/-!
Sets of code points, written the way the character tables of a standard are: as the increasing list
of the places where membership changes. A code point belongs to the set when an odd number of those
places lie at or below it.

    boundaries:   65        91        97        123
                  │  A … Z  │         │  a … z  │
    member:   no     yes        no       yes       no
-/

namespace DocMatch

/-- The increasing list of the code points at which membership starts or stops. -/
abbrev CodePoints := List Nat

namespace CodePoints

/-- Membership: each boundary at or below `n` turns the answer over. -/
def contains : CodePoints → Nat → Bool
  | [], _ => false
  | b :: rest, n => if n < b then false else !contains rest n

/-- Nothing below the first boundary is a member. -/
theorem contains_of_lt {b n : Nat} (rest : CodePoints) (h : n < b) :
    contains (b :: rest) n = false := by
  simp [contains, h]

end CodePoints

end DocMatch
