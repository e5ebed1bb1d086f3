import DocMatch.Document
import DocMatch.Proofs.Json.Pieces
import DocMatch.Proofs.Json.Roundings
import Mathlib.Data.List.Chain

/-!
JSON texts that are YAML with the same meaning. Not all of them are. Outside of brackets YAML has no
tabs at the start of a line; a name has to stand near its colon, and but once in its object; and
some scalars are refused or mean something else:

    -0                       the integer 0, not the number -0.0
    18446744073709551616     out of range, until 128 bits do not hold it any more
    51.248178375505404       rounded once, while JSON may round it in steps, to another number
    "\ud83d\ude00"           half of a surrogate pair is no character
    "a b"                    with a line separator after the blank: the blank is lost

Each of these can be seen from a piece, from two pieces in a row, from the blanks at either end or
from the names of one object.
-/

namespace DocMatch

namespace Json

/-- Whether a whole number is the same number in YAML. Minus zero is not, and what 128 bits hold but
not 64 is refused; beyond 128 bits it is rounded, as in JSON. -/
def isPortableWhole (negative : Bool) (n : Nat) : Bool :=
  if negative then n != 0 && (n ≤ Nat.pow 2 63 || Nat.pow 2 127 < n)
  else n < Nat.pow 2 64 || Nat.pow 2 128 ≤ n

/-- Whether a unit is no half of a surrogate pair. -/
def isWholeUnit (unit : Nat) : Bool := !Draft.isLeading unit && !Draft.isTrailing unit

/-- The line breaks that are kept where lines are folded. -/
def isSeparator (c : Char) : Bool := c == '\u2028' || c == '\u2029'

/-- Whether a string literal is the same text in YAML, where it is folded. Its line breaks are
separators without a blank on either side, and no line looks like one between documents. -/
def keepsLines : List Char → Bool
  | [] => true
  | c :: cs =>
    (if Yaml.isBreak c then
      isSeparator c && !cs.head?.any Yaml.isSpace &&
        !(Yaml.Reader.start (cs ++ ['"'])).atDocumentMarker
    else !Yaml.isSpace c || !cs.head?.any Yaml.isBreak) && keepsLines cs

/-- Whether a piece is read by YAML as it is by JSON. -/
def Piece.isPortable : Piece → Bool
  | mark _ => true
  | literal body => keepsLines body && (Draft.units? (body ++ ['"'])).any (·.1.all isWholeUnit)
  | word ('-' :: ds) => !ds.all isDigit || isPortableWhole true (natOfDigits ds)
  | word ds => !ds.all isDigit || isPortableWhole false (natOfDigits ds)

/-- Whether a piece is a word. -/
def Piece.isWord : Piece → Bool
  | word _ => true
  | _ => false

/-- Whether a name is on one line with the colon after it, and begins at most 1024 characters before
it. -/
def staysNear (p q : List Char × Piece) : Bool :=
  match p.2, q.2 with
  | .literal body, .mark ':' =>
    (body ++ q.1).all (!Yaml.isBreak ·) && body.length + q.1.length + 2 ≤ 1024
  | _, _ => true

end Json

namespace Draft

mutual

/-- Whether no object has two members of one name. -/
def hasDistinctNames : Draft → Bool
  | array items => itemsHaveDistinctNames items
  | object members => decide (members.map Prod.fst).Nodup && membersHaveDistinctNames members
  | _ => true

def itemsHaveDistinctNames : List Draft → Bool
  | [] => true
  | d :: rest => d.hasDistinctNames && itemsHaveDistinctNames rest

def membersHaveDistinctNames : List (Option String × Draft) → Bool
  | [] => true
  | (_, d) :: rest => d.hasDistinctNames && membersHaveDistinctNames rest

end

end Draft

open Json

/-- A JSON text that can be read as YAML: its characters, its pieces, the places of its names, the
blanks in front of it and behind it, and the names in each object are as YAML wants them, and
rounding its numbers in steps makes no difference. -/
structure IsPortable (text : String) : Prop where
  allowed : text.toList.all Yaml.isAllowed = true
  pieces : (piecesOf text).all (·.2.isPortable) = true
  rounded : (piecesOf text).all (·.2.roundsAlike) = true
  near : (piecesOf text).IsChain (staysNear · · = true)
  first : (piecesOf text).head?.all (!·.1.contains '\t') = true
  last : (piecesOf text).getLast?.any (·.2.isWord) = true ∨
    ((lastBlanks text).dropWhile (!Yaml.isBreak ·)).contains '\t' = false
  distinct : (Draft.read text.toList).1.hasDistinctNames = true

instance (text : String) : Decidable (IsPortable text) :=
  decidable_of_iff
    (text.toList.all Yaml.isAllowed = true ∧ (piecesOf text).all (·.2.isPortable) = true ∧
      (piecesOf text).all (·.2.roundsAlike) = true ∧
      (piecesOf text).IsChain (staysNear · · = true) ∧
      (piecesOf text).head?.all (!·.1.contains '\t') = true ∧
      ((piecesOf text).getLast?.any (·.2.isWord) = true ∨
        ((lastBlanks text).dropWhile (!Yaml.isBreak ·)).contains '\t' = false) ∧
      (Draft.read text.toList).1.hasDistinctNames = true)
    (Iff.intro
      (fun h => ⟨h.1, h.2.1, h.2.2.1, h.2.2.2.1, h.2.2.2.2.1, h.2.2.2.2.2.1, h.2.2.2.2.2.2⟩)
      fun h => ⟨h.allowed, h.pieces, h.rounded, h.near, h.first, h.last, h.distinct⟩)

example : IsPortable "[1, \"a\\u00e9\"]" ∧ ¬ IsPortable "[1, -0]" ∧
    ¬ IsPortable "51.248178375505404" ∧ ¬ IsPortable "[\"\\ud83d\\ude00\"]" ∧
    IsPortable "\"a\u2028b\"" ∧ ¬ IsPortable "\"a \u2028b\"" := by
  decide +kernel

end DocMatch
