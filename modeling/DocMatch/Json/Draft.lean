import DocMatch.Json.Basic
import DocMatch.Number.Rounding

/-!
Drafts: what a JSON text says, read from left to right for as long as it is well-formed. Where the
text stops being JSON the draft has a `broken` leaf, and nothing comes after that leaf in reading
order; so who walks through a draft meets what was said before the fault first. A string literal
with half a surrogate pair is well-formed but has no text.

Numbers are rounded once, which gives every number that was written back, unless it is said that
they are rounded in steps.
-/

namespace DocMatch

/-- What was read of a JSON text. An integer is a number without point and power of ten; any other
number is rounded, and infinite if it is too large. -/
inductive Draft
  | null
  | boolean (b : Bool)
  | integer (n : Int)
  | float (x : Binary64)
  | string (s : Option String)
  | array (items : List Draft)
  | object (members : List (Option String × Draft))
  | broken

namespace Draft

/-- The blanks of JSON. -/
def isSpace (c : Char) : Bool := c == ' ' || c == '\n' || c == '\t' || c == '\r'

/-- A text without the blanks at its start. -/
def skipSpace (cs : List Char) : List Char := cs.dropWhile isSpace

/-- The value of a digit in base sixteen. -/
def hexValue? (c : Char) : Option Nat :=
  if isDigit c then some (c.toNat - '0'.toNat)
  else if 'a' ≤ c && c ≤ 'f' then some (c.toNat - 'a'.toNat + 10)
  else if 'A' ≤ c && c ≤ 'F' then some (c.toNat - 'A'.toNat + 10)
  else none

/-- The number written by four digits in base sixteen. -/
def hexValue4? (a b c d : Char) : Option Nat := do
  return (((← hexValue? a) * 16 + (← hexValue? b)) * 16 + (← hexValue? c)) * 16 + (← hexValue? d)

/-- The character that a one-letter escape stands for. -/
def unescape? : Char → Option Char
  | '"' => some '"'
  | '\\' => some '\\'
  | '/' => some '/'
  | 'b' => some '\x08'
  | 'f' => some '\x0c'
  | 'n' => some '\n'
  | 'r' => some '\r'
  | 't' => some '\t'
  | _ => none

/-- The units of a string literal from after its opening quote to its closing one: characters are
units of their own value, and an escape by number may be half a surrogate pair. -/
def units? : List Char → Option (List Nat × List Char)
  | [] => none
  | '"' :: rest => some ([], rest)
  | '\\' :: 'u' :: a :: b :: c :: d :: rest => do
    let unit ← hexValue4? a b c d
    let (units, rest) ← units? rest
    return (unit :: units, rest)
  | '\\' :: e :: rest => do
    let c ← unescape? e
    let (units, rest) ← units? rest
    return (c.toNat :: units, rest)
  | c :: rest => do
    if c.toNat < 0x20 then none
    let (units, rest) ← units? rest
    return (c.toNat :: units, rest)

/-- Whether a unit is the first half of a surrogate pair. -/
def isLeading (unit : Nat) : Bool := 0xD800 ≤ unit && unit < 0xDC00

/-- Whether a unit is the second half of a surrogate pair. -/
def isTrailing (unit : Nat) : Bool := 0xDC00 ≤ unit && unit < 0xE000

/-- The characters of units: pairs are joined, and there are none for half a pair. -/
def join? : List Nat → Option (List Char)
  | [] => some []
  | [unit] => if isLeading unit || isTrailing unit then none else some [Char.ofNat unit]
  | a :: b :: rest =>
    if isLeading a then
      if isTrailing b then
        (join? rest).map (Char.ofNat (0x10000 + (a - 0xD800) * 0x400 + (b - 0xDC00)) :: ·)
      else none
    else if isTrailing a then none
    else (join? (b :: rest)).map (Char.ofNat a :: ·)

/-- A string literal from after its opening quote: its text, if it has one, and what follows. -/
def string? (cs : List Char) : Option (Option String × List Char) :=
  (units? cs).map fun (units, rest) => ((join? units).map String.ofList, rest)

/-- The digits at the start of a text, and what follows. -/
def digits (cs : List Char) : List Char × List Char := cs.span isDigit

/-- The fraction of a number, if there is one: a point and at least one digit. -/
def fraction? (cs : List Char) : Option (Option (List Char) × List Char) :=
  match cs with
  | '.' :: rest =>
    let (ds, rest) := digits rest
    if ds.isEmpty then none else some (some ds, rest)
  | _ => some (none, cs)

/-- The power of ten of a number, if there is one. -/
def exponent? (cs : List Char) : Option (Option Int × List Char) :=
  let power (negative : Bool) (cs : List Char) : Option (Option Int × List Char) :=
    let (ds, rest) := digits cs
    if ds.isEmpty then none
    else some (some (if negative then -(natOfDigits ds : Int) else natOfDigits ds), rest)
  match cs with
  | e :: '-' :: rest => if e == 'e' || e == 'E' then power true rest else some (none, cs)
  | e :: '+' :: rest => if e == 'e' || e == 'E' then power false rest else some (none, cs)
  | e :: rest => if e == 'e' || e == 'E' then power false rest else some (none, cs)
  | [] => some (none, cs)

/-- The number written by its parts. Without fraction and power it is an integer, but minus zero is
not one; and in steps what 64 bits do not hold is none either. -/
def number (negative : Bool) (whole : List Char) (fraction : Option (List Char))
    (power : Option Int) (rounding : Rounding := .once) : Draft :=
  let n := natOfDigits whole
  if fraction.isNone && power.isNone && (rounding == .once || n < Nat.pow 2 64) then
    if negative && n == 0 then float (Binary64.zero true)
    else integer (if negative then -(n : Int) else n)
  else float (rounding.read negative whole (fraction.getD []) (power.getD 0))

/-- A number from after its sign, and what follows. More than one digit cannot start with a zero. -/
def number? (negative : Bool) (cs : List Char) (rounding : Rounding := .once) :
    Option (Draft × List Char) := do
  let (whole, rest) := digits cs
  if whole.isEmpty || (whole.head? == some '0' && 1 < whole.length) then none
  let (fraction, rest) ← fraction? rest
  let (power, rest) ← exponent? rest
  return (number negative whole fraction power rounding, rest)

/-- What reading a part of a text gives: the part, and what follows it unless the text broke. -/
abbrev Reading (α : Type) := α × Option (List Char)

/-- A part that either reads well or is broken. -/
def orBroken : Option (Draft × List Char) → Reading Draft
  | some (d, rest) => (d, some rest)
  | none => (broken, none)

mutual

/-- A value at the start of a text. The bound is on the steps still allowed. -/
def readValue : Nat → List Char → (rounding : Rounding := .once) → Reading Draft
  | 0, _, _ => (broken, none)
  | bound + 1, cs, rounding =>
    match skipSpace cs with
    | '[' :: rest =>
      match skipSpace rest with
      | ']' :: rest => (array [], some rest)
      | _ =>
        let (items, rest) := readItems bound rest rounding
        (array items, rest)
    | '{' :: rest =>
      match skipSpace rest with
      | '}' :: rest => (object [], some rest)
      | _ =>
        let (members, rest) := readMembers bound rest rounding
        (object members, rest)
    | '"' :: rest => orBroken ((string? rest).map fun (s, rest) => (string s, rest))
    | 't' :: 'r' :: 'u' :: 'e' :: rest => (boolean true, some rest)
    | 'f' :: 'a' :: 'l' :: 's' :: 'e' :: rest => (boolean false, some rest)
    | 'n' :: 'u' :: 'l' :: 'l' :: rest => (null, some rest)
    | '-' :: rest => orBroken (number? true rest rounding)
    | cs => orBroken (number? false cs rounding)

/-- The items of an array up to its closing bracket; there is at least one. -/
def readItems : Nat → List Char → (rounding : Rounding := .once) → Reading (List Draft)
  | 0, _, _ => ([broken], none)
  | bound + 1, cs, rounding =>
    match readValue bound cs rounding with
    | (item, none) => ([item], none)
    | (item, some rest) =>
      match skipSpace rest with
      | ']' :: rest => ([item], some rest)
      | ',' :: rest =>
        let (items, rest) := readItems bound rest rounding
        (item :: items, rest)
      | _ => ([item, broken], none)

/-- The members of an object up to its closing brace; there is at least one. -/
def readMembers : Nat → List Char → (rounding : Rounding := .once) →
    Reading (List (Option String × Draft))
  | 0, _, _ => ([(none, broken)], none)
  | bound + 1, cs, rounding =>
    match skipSpace cs with
    | '"' :: rest =>
      match string? rest with
      | none => ([(none, broken)], none)
      | some (name, rest) =>
        match skipSpace rest with
        | ':' :: rest =>
          match readValue bound rest rounding with
          | (d, none) => ([(name, d)], none)
          | (d, some rest) =>
            match skipSpace rest with
            | '}' :: rest => ([(name, d)], some rest)
            | ',' :: rest =>
              let (members, rest) := readMembers bound rest rounding
              ((name, d) :: members, rest)
            | _ => ([(name, d), (none, broken)], none)
        | _ => ([(name, broken)], none)
    | _ => ([(none, broken)], none)

end

/-- The value at the start of a text, and what follows it unless the text broke. Each step but at
most one in two takes a character, which bounds the steps. -/
def read (text : List Char) (rounding : Rounding := .once) : Reading Draft :=
  readValue (2 * text.length + 2) text rounding

/-- Whether nothing but blanks follows. -/
def endsWell : Option (List Char) → Bool
  | some rest => (skipSpace rest).isEmpty
  | none => false

mutual

/-- The draft of a tree that was written. -/
def ofJson : Json → Draft
  | .null => null
  | .boolean b => boolean b
  | .integer n => integer n
  | .float x => float x
  | .string s => string (some s)
  | .array items => array (ofItems items)
  | .object members => object (ofMembers members)

def ofItems : List Json → List Draft
  | [] => []
  | j :: rest => ofJson j :: ofItems rest

def ofMembers : List (String × Json) → List (Option String × Draft)
  | [] => []
  | (name, j) :: rest => (some name, ofJson j) :: ofMembers rest

end

end Draft

end DocMatch
