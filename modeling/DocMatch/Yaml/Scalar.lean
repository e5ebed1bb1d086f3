import DocMatch.Number.Numeral

/-!
Plain scalars: what a text without quotes stands for in YAML.

    null        empty, ~, null, Null, NULL
    boolean     true, True, TRUE, false, False, FALSE
    integer     12, +12, -12, 0x1F, 0o17, 0b11
    float       1.5, .5, 5., 1e3, .inf, -.inf, .nan
    text        all else, and also 017: digits after a zero are no number
-/

namespace DocMatch.Yaml

/-- What a plain scalar stands for. -/
inductive Plain
  | null
  | boolean (b : Bool)
  | integer (n : Int)
  | float (x : Binary64)
  | text
  deriving DecidableEq

namespace Plain

/-- The words for the value `null`. -/
def isNull (s : String) : Bool := s == "" || s == "~" || s == "null" || s == "Null" || s == "NULL"

/-- The words for truth values. -/
def boolean? (s : String) : Option Bool :=
  if s == "true" || s == "True" || s == "TRUE" then some true
  else if s == "false" || s == "False" || s == "FALSE" then some false
  else none

/-- The value of a digit in a base of at most sixteen. -/
def digitValue? (base : Nat) (c : Char) : Option Nat :=
  let value? :=
    if isDigit c then some (c.toNat - '0'.toNat)
    else if 'a' ≤ c && c ≤ 'f' then some (c.toNat - 'a'.toNat + 10)
    else if 'A' ≤ c && c ≤ 'F' then some (c.toNat - 'A'.toNat + 10)
    else none
  value?.filter (· < base)

/-- The number written by digits in a base; there is at least one digit. -/
def digits? (base : Nat) : List Char → Option Nat
  | [] => none
  | cs => cs.foldlM (fun n c => (digitValue? base c).map (base * n + ·)) 0

/-- Whether a text is a zero and more digits, after a sign or none. -/
def isZeroPadded (cs : List Char) : Bool :=
  let body := match cs with
    | '-' :: rest | '+' :: rest => rest
    | _ => cs
  match body with
  | '0' :: c :: rest => isDigit c && rest.all isDigit
  | _ => false

/-- The natural number written in one of the four notations for integers. -/
def natural? : List Char → Option Nat
  | '0' :: 'x' :: rest => digits? 16 rest
  | '0' :: 'o' :: rest => digits? 8 rest
  | '0' :: 'b' :: rest => digits? 2 rest
  | cs => if isZeroPadded cs then none else digits? 10 cs

/-- The integer written by a text, if 128 bits hold it. -/
def integer? : List Char → Option Int
  | '-' :: rest => ((natural? rest).filter (· ≤ Nat.pow 2 127)).map fun n => -(n : Int)
  | '+' :: rest => ((natural? rest).filter (· < Nat.pow 2 128)).map Int.ofNat
  | cs => ((natural? cs).filter (· < Nat.pow 2 128)).map Int.ofNat

/-- The power of ten at the end of a number. -/
def power? : List Char → Option Int
  | [] => some 0
  | e :: rest =>
    if e == 'e' || e == 'E' then
      match rest with
      | '-' :: ds => (digits? 10 ds).map fun n => -(n : Int)
      | '+' :: ds => (digits? 10 ds).map Int.ofNat
      | ds => (digits? 10 ds).map Int.ofNat
    else none

/-- The decimal number written by a text after its sign: digits on at least one side of a point that
may be missing, and perhaps a power of ten. -/
def decimal? (negative : Bool) (cs : List Char) : Option Numeral := do
  let (whole, rest) := cs.span isDigit
  let (places, rest) := match rest with
    | '.' :: rest => rest.span isDigit
    | rest => ([], rest)
  if whole.isEmpty && places.isEmpty then none
  let power ← power? rest
  return ⟨negative, natOfDigits (whole ++ places), power - places.length⟩

/-- The words for infinity. -/
def isInfinity (cs : List Char) : Bool :=
  cs == ['.', 'i', 'n', 'f'] || cs == ['.', 'I', 'n', 'f'] || cs == ['.', 'I', 'N', 'F']

/-- The words for what is not a number. -/
def isNaN (cs : List Char) : Bool :=
  cs == ['.', 'n', 'a', 'n'] || cs == ['.', 'N', 'a', 'N'] || cs == ['.', 'N', 'A', 'N']

/-- The finite number that a decimal number rounds to. -/
def finite? (d : Option Numeral) : Option Binary64 :=
  (d.map Numeral.toBinary64).filter Binary64.isFinite

/-- The floating point number written by a text. -/
def float? : List Char → Option Binary64
  | '-' :: rest => if isInfinity rest then some (.infinity true) else finite? (decimal? true rest)
  | '+' :: rest => if isInfinity rest then some (.infinity false) else finite? (decimal? false rest)
  | cs =>
    if isInfinity cs then some (.infinity false)
    else if isNaN cs then some .nan
    else finite? (decimal? false cs)

/-- What a plain scalar stands for. -/
def ofString (s : String) : Plain :=
  if isNull s then null
  else
    match boolean? s with
    | some b => boolean b
    | none =>
      match integer? s.toList with
      | some n => integer n
      | none =>
        if isZeroPadded s.toList then text
        else
          match float? s.toList with
          | some x => float x
          | none => text

example : ofString "0x1F" = integer 31 ∧ ofString "-0b11" = integer (-3) ∧
    ofString "+5" = integer 5 ∧ ofString "017" = text ∧ ofString "1_0" = text ∧
    ofString "yes" = text ∧ ofString "1e400" = text := by
  decide +kernel

example : ofString ".5" = float (Binary64.ofRatio false 1 2) ∧
    ofString "5." = float (Binary64.ofInt 5) ∧ ofString "1e3" = float (Binary64.ofInt 1000) ∧
    ofString "." = text ∧ ofString "+.nan" = text := by
  decide +kernel

end Plain

end DocMatch.Yaml
