import DocMatch.Json.Basic

/-!
Writing JSON: compact, without any blanks, or with one item or member on a line and two more blanks
for each level.

    {"a":[1,2.0],"b":{}}            {
                                      "a": [
                                        1,
                                        2.0
                                      ],
                                      "b": {}
                                    }
-/

namespace DocMatch

namespace Json

/-- Numbers from `1e16` up and below `1e-5` have a power of ten, which is marked when positive;
whole numbers keep a point. What is no number is written as `null`. -/
def layout : Layout where
  tie := .toEven
  positional k := -5 < k && k ≤ 16
  whole := ['.', '0']
  raised := ['+']
  nan := ['n', 'u', 'l', 'l']
  infinity := ['n', 'u', 'l', 'l']
  negativeInfinity := ['n', 'u', 'l', 'l']

/-- One digit in base sixteen, in small letters. -/
def hexDigit (n : Nat) : Char := Nat.digitChar n

/-- How a character is written in a string: only the two marks and the controls are escaped. -/
def escape (c : Char) : List Char :=
  match c with
  | '"' => ['\\', '"']
  | '\\' => ['\\', '\\']
  | '\x08' => ['\\', 'b']
  | '\t' => ['\\', 't']
  | '\n' => ['\\', 'n']
  | '\x0c' => ['\\', 'f']
  | '\r' => ['\\', 'r']
  | c =>
    if c.toNat < 0x20 then ['\\', 'u', '0', '0', hexDigit (c.toNat / 16), hexDigit (c.toNat % 16)]
    else [c]

/-- A string between quotes. -/
def quote (s : String) : List Char := '"' :: s.toList.flatMap escape ++ ['"']

/-- The text of a tree without parts. -/
def scalar : Json → List Char
  | boolean true => ['t', 'r', 'u', 'e']
  | boolean false => ['f', 'a', 'l', 's', 'e']
  | integer n => Layout.intDigits n
  | float x => layout.write x
  | string s => quote s
  | _ => ['n', 'u', 'l', 'l']

mutual

/-- The compact text of a tree. -/
def compact : Json → List Char
  | array items => '[' :: compactItems items ++ [']']
  | object members => '{' :: compactMembers members ++ ['}']
  | j => scalar j

def compactItems : List Json → List Char
  | [] => []
  | [j] => compact j
  | j :: rest => compact j ++ ',' :: compactItems rest

def compactMembers : List (String × Json) → List Char
  | [] => []
  | [(name, j)] => quote name ++ ':' :: compact j
  | (name, j) :: rest => quote name ++ ':' :: compact j ++ ',' :: compactMembers rest

end

/-- A new line with two blanks for each level. -/
def newLine (level : Nat) : List Char := '\n' :: List.replicate (2 * level) ' '

mutual

/-- The text of a tree at a level, with items and members on lines of their own. -/
def pretty (level : Nat) : Json → List Char
  | array [] => ['[', ']']
  | array items => '[' :: prettyItems (level + 1) items ++ newLine level ++ [']']
  | object [] => ['{', '}']
  | object members => '{' :: prettyMembers (level + 1) members ++ newLine level ++ ['}']
  | j => scalar j

def prettyItems (level : Nat) : List Json → List Char
  | [] => []
  | [j] => newLine level ++ pretty level j
  | j :: rest => newLine level ++ pretty level j ++ ',' :: prettyItems level rest

def prettyMembers (level : Nat) : List (String × Json) → List Char
  | [] => []
  | [(name, j)] => newLine level ++ quote name ++ ':' :: ' ' :: pretty level j
  | (name, j) :: rest =>
    newLine level ++ quote name ++ ':' :: ' ' :: pretty level j ++ ',' :: prettyMembers level rest

end

/-- The compact text of a tree. -/
def toText (j : Json) : String := String.ofList j.compact

/-- The text of a tree in lines. -/
def toPrettyText (j : Json) : String := String.ofList (j.pretty 0)

example : toText (object [("a", array [integer 1, float (Binary64.ofInt 2)]), ("b", object [])]) =
    "\x7b\"a\":[1,2.0],\"b\":\x7b\x7d\x7d" := by decide +kernel

end Json

end DocMatch
