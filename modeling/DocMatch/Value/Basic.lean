import DocMatch.Fields
import DocMatch.Number.Layout
import DocMatch.Number.Scaled

/-!
Document values: the trees that expressions walk through and change. Whole numbers of 64 bits are
kept apart from floating point numbers, and mappings keep their entries in order.
-/

namespace DocMatch

/-- The shapes of values, as messages name them. -/
inductive Shape
  | null | boolean | integer | float | string | sequence | mapping
  deriving DecidableEq

/-- The name of a shape. -/
def Shape.name : Shape → String
  | null => "null"
  | boolean => "boolean"
  | integer => "integer"
  | float => "float"
  | string => "string"
  | sequence => "sequence"
  | mapping => "mapping"

/-- A document value. -/
inductive Value
  | null
  | boolean (b : Bool)
  | integer (n : Int64)
  | float (x : Binary64)
  | string (s : String)
  | sequence (items : List Value)
  | mapping (fields : List (String × Value))

/-- What values are compared with and set to: a number or a string. -/
inductive Literal
  | integer (n : Int64)
  | float (x : Binary64)
  | string (s : String)
  deriving DecidableEq

namespace Literal

/-- Whether an integer fits into 64 bits with sign. -/
def fitsInt64 (n : Int) : Bool := Int64.minValue.toInt ≤ n && n ≤ Int64.maxValue.toInt

/-- The literal of an integer; one that does not fit is rounded. -/
def ofInt (n : Int) : Literal :=
  if fitsInt64 n then integer (Int64.ofInt n) else float (Binary64.ofInt n)

theorem fitsInt64_iff {n : Int} : fitsInt64 n = true ↔ ∃ i : Int64, i.toInt = n := by
  simp only [fitsInt64, Bool.and_eq_true, decide_eq_true_eq]
  constructor
  · intro ⟨hlow, hhigh⟩
    exact ⟨Int64.ofIntLE n hlow hhigh, Int64.toInt_ofIntLE⟩
  · rintro ⟨i, rfl⟩
    exact ⟨i.minValue_le_toInt, i.toInt_le⟩

@[simp] theorem ofInt_toInt (i : Int64) : ofInt i.toInt = integer i := by
  rw [ofInt, if_pos (fitsInt64_iff.2 ⟨i, rfl⟩), Int64.ofInt_toInt]

theorem ofInt_of_wide {n : Int} (h : ∀ i : Int64, i.toInt ≠ n) :
    ofInt n = float (Binary64.ofInt n) := by
  rw [ofInt, if_neg (mt fitsInt64_iff.1 (not_exists.2 h))]

/-- Literals are written without a power of ten, and whole numbers without a point; of two numerals
equally near the larger is written. -/
def layout : Layout where
  tie := .up
  positional _ := true
  whole := []
  raised := []
  nan := ['N', 'a', 'N']
  infinity := ['i', 'n', 'f']
  negativeInfinity := ['-', 'i', 'n', 'f']

/-- The text of a literal; a string stands between double quotes as it is. -/
def text : Literal → String
  | integer n => String.ofList (Layout.intDigits n.toInt)
  | float x => String.ofList (layout.write x)
  | string s => String.ofList ('"' :: s.toList ++ ['"'])

/-- A literal as a document value. -/
def toValue : Literal → Value
  | integer n => .integer n
  | float x => .float x
  | string s => .string s

end Literal

namespace Value

/-- The shape of a value. -/
def shape : Value → Shape
  | null => .null
  | boolean _ => .boolean
  | integer _ => .integer
  | float _ => .float
  | string _ => .string
  | sequence _ => .sequence
  | mapping _ => .mapping

/-- Whether a value has no parts. -/
def isScalar : Value → Bool
  | sequence _ | mapping _ => false
  | _ => true

/-- A number or a string as a literal; other values are none. -/
def toLiteral? : Value → Option Literal
  | integer n => some (.integer n)
  | float x => some (.float x)
  | string s => some (.string s)
  | _ => none

/-- Equality with a literal: strings only equal strings and numbers only numbers. An integer and a
floating point number are compared as scaled decimals. -/
def matchesLiteral : Value → Literal → Bool
  | string s, .string t => s == t
  | integer m, .integer n => m == n
  | float x, .float y => x.equals y
  | integer n, .float x | float x, .integer n => x.equalsInt n.toInt
  | _, _ => false

example : (integer 1).matchesLiteral (.float (Binary64.ofInt 1)) = true := by decide +kernel

example : (float (Binary64.ofRatio false 1 10)).matchesLiteral (.integer 0) = false := by
  decide +kernel

end Value

end DocMatch
