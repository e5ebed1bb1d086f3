import DocMatch.Text.CodePoints

/-!
Blanks: the characters with the Unicode property White_Space. They separate the tokens of an
expression and mean nothing else.
-/

namespace DocMatch

/-- The boundaries of the property White_Space. -/
def blankBoundaries : CodePoints :=
  [0x9, 0xE, 0x20, 0x21, 0x85, 0x86, 0xA0, 0xA1, 0x1680, 0x1681, 0x2000, 0x200B, 0x2028, 0x202A,
   0x202F, 0x2030, 0x205F, 0x2060, 0x3000, 0x3001]

/-- Whether a character is White_Space. -/
def isBlank (c : Char) : Bool := blankBoundaries.contains c.toNat

end DocMatch
