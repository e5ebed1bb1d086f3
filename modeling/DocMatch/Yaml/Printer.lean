import DocMatch.Json.Basic
import DocMatch.Yaml.Reader
import DocMatch.Yaml.Scalar

/-!
Writing YAML in block style. Entries of a mapping are indented by two more blanks than the mapping
around them; items of a sequence start at the column of the key that they belong to.

    routes:                         - - x
      running:                        - y
      - dest: 0.0.0.0/0             - k: []
        note: |-
          two
          lines

A string is written plain where it would be read back as that string, as a literal block if it has
more than one line, and otherwise between single quotes, or between double quotes if it has
characters that need an escape.
-/

namespace DocMatch.Yaml

/-- Powers of ten carry no mark; otherwise numbers are written as in JSON, and those that are not
finite have words. -/
def layout : Layout where
  tie := .toEven
  positional k := -5 < k && k ≤ 16
  whole := ['.', '0']
  raised := []
  nan := ['.', 'n', 'a', 'n']
  infinity := ['.', 'i', 'n', 'f']
  negativeInfinity := ['-', '.', 'i', 'n', 'f']

/-- The characters that can be written as they are. -/
def isPrintable (c : Char) : Bool :=
  let n := c.toNat
  c == '\n' || (0x20 ≤ n && n ≤ 0x7E) || (0xA0 ≤ n && n ≤ 0xD7FF)
    || (0xE000 ≤ n && n ≤ 0xFFFD && n != 0xFEFF) || 0x10000 ≤ n

namespace Style

/-- Whether a character cannot start a plain scalar, given whether a separator follows it. -/
def opensOther (c : Char) (separated : Bool) : Bool :=
  ['#', ',', '[', ']', '{', '}', '&', '*', '!', '|', '>', '\'', '"', '%', '@', '\x60'].contains c
    || ((c == '?' || c == ':' || c == '-') && separated)

/-- Whether a separator, or the end, follows. -/
def separatedBy : List Char → Bool
  | [] => true
  | c :: _ => isSpaceOrBreak c

/-- Whether a character inside a plain scalar would be taken for a mark: a colon before a separator
or a number sign after one. -/
def hasMark (previous : Char) : List Char → Bool
  | [] => false
  | c :: rest =>
    (c == ':' && separatedBy rest) || (c == '#' && isSpaceOrBreak previous) || hasMark c rest

/-- Whether two characters of two classes stand side by side. -/
def hasPair (p q : Char → Bool) : List Char → Bool
  | a :: b :: rest => (p a && q b) || hasPair p q (b :: rest)
  | _ => false

/-- Whether a text starts like the line between documents. -/
def startsDocument : List Char → Bool
  | '-' :: '-' :: '-' :: _ => true
  | '.' :: '.' :: '.' :: _ => true
  | _ => false

/-- Whether a text has characters that need an escape. -/
def needsEscapes (cs : List Char) : Bool := !cs.all isPrintable

/-- Whether a blank stands directly before a line break. -/
def hasSpaceBreak (cs : List Char) : Bool := hasPair (· == ' ') isBreak cs

/-- Whether a blank stands directly after a line break. -/
def hasBreakSpace (cs : List Char) : Bool := hasPair isBreak (· == ' ') cs

/-- Whether a class has the first or the last character of a text. -/
def atEdge (p : Char → Bool) (cs : List Char) : Bool :=
  (cs.head?.any p) || (cs.getLast?.any p)

/-- Whether a text can be written plain. -/
def plainAllowed (cs : List Char) : Bool :=
  match cs with
  | [] => false
  | c :: rest =>
    !(startsDocument cs || opensOther c (separatedBy rest) || hasMark c rest || needsEscapes cs
      || atEdge (· == ' ') cs || cs.any isBreak)

/-- Whether a text can be written between single quotes. -/
def singleAllowed (cs : List Char) : Bool :=
  !(hasBreakSpace cs || hasSpaceBreak cs || needsEscapes cs)

/-- Whether a text can be written as a literal block. -/
def literalAllowed (cs : List Char) : Bool :=
  !(cs.isEmpty || cs.getLast? == some ' ' || hasSpaceBreak cs || needsEscapes cs)

end Style

/-- The ways to write a string. -/
inductive Style
  | plain | single | double | literal
  deriving DecidableEq

/-- Whether a string would not be read back as a string if it were written plain. -/
def readsAsOther (s : String) : Bool :=
  Plain.ofString s != .text || Plain.isZeroPadded s.toList

/-- The way in which a string is written. -/
def styleOf (s : String) : Style :=
  let cs := s.toList
  if cs.contains '\n' then if Style.literalAllowed cs then .literal else .double
  else if Style.plainAllowed cs && !readsAsOther s then .plain
  else if Style.singleAllowed cs then .single
  else .double

/-- Blanks at the start of a line. -/
def pad (indent : Nat) : List Char := List.replicate indent ' '

/-- Text between single quotes from inside a line; a line that starts inside is indented. -/
def singleQuoted (indent : Nat) (afterBreak : Bool) : List Char → List Char
  | [] => if afterBreak then pad indent ++ ['\''] else ['\'']
  | c :: rest =>
    if isBreak c then c :: singleQuoted indent true rest
    else
      (if afterBreak then pad indent else []) ++ (if c == '\'' then ['\'', '\''] else [c])
        ++ singleQuoted indent false rest

/-- A number in base sixteen with a width, in capital letters. -/
def hexPadded (width n : Nat) : List Char :=
  let ds := (Nat.toDigits 16 n).map Char.toUpper
  List.replicate (width - ds.length) '0' ++ ds

/-- A character between double quotes. -/
def escape (c : Char) : List Char :=
  if isPrintable c && !isBreak c && c != '"' && c != '\\' then [c]
  else
    match c with
    | '\x00' => ['\\', '0']
    | '\x07' => ['\\', 'a']
    | '\x08' => ['\\', 'b']
    | '\t' => ['\\', 't']
    | '\n' => ['\\', 'n']
    | '\x0b' => ['\\', 'v']
    | '\x0c' => ['\\', 'f']
    | '\r' => ['\\', 'r']
    | '\x1b' => ['\\', 'e']
    | '"' => ['\\', '"']
    | '\\' => ['\\', '\\']
    | '\u0085' => ['\\', 'N']
    | '\u2028' => ['\\', 'L']
    | '\u2029' => ['\\', 'P']
    | c =>
      if c.toNat ≤ 0xFF then '\\' :: 'x' :: hexPadded 2 c.toNat
      else if c.toNat ≤ 0xFFFF then '\\' :: 'u' :: hexPadded 4 c.toNat
      else '\\' :: 'U' :: hexPadded 8 c.toNat

/-- The lines of a literal block; a line with anything on it is indented. -/
def literalLines (indent : Nat) (afterBreak : Bool) : List Char → List Char
  | [] => []
  | c :: rest =>
    if isBreak c then c :: literalLines indent true rest
    else (if afterBreak then pad indent else []) ++ c :: literalLines indent false rest

/-- The marks after the bar of a literal block: the indentation if the first line starts with a
blank or is empty, and what becomes of the breaks at the end (`-` there is none, `+` there is more
than one or nothing else). -/
def literalHints (cs : List Char) : List Char :=
  let opening := if cs.head?.any fun c => c == ' ' || isBreak c then ['2'] else []
  let closing := match cs.reverse with
    | [] => ['-']
    | last :: before =>
      if !isBreak last then ['-']
      else
        match before with
        | [] => ['+']
        | c :: _ => if isBreak c then ['+'] else []
  opening ++ closing

/-- The text of a string; lines inside it are indented. -/
def writeString (indent : Nat) (s : String) : List Char :=
  let cs := s.toList
  match styleOf s with
  | .plain => cs
  | .single => '\'' :: singleQuoted indent false cs
  | .double => '"' :: cs.flatMap escape ++ ['"']
  | .literal => '|' :: literalHints cs ++ '\n' :: literalLines indent true cs

/-- The text of a tree without parts. -/
def scalar (indent : Nat) : Json → List Char
  | .null => ['n', 'u', 'l', 'l']
  | .boolean true => ['t', 'r', 'u', 'e']
  | .boolean false => ['f', 'a', 'l', 's', 'e']
  | .integer n => Layout.intDigits n
  | .float x => layout.write x
  | .string s => writeString indent s
  | .array _ => ['[', ']']
  | .object _ => ['{', '}']

/-- Ends the line, unless a break ended it already. -/
def endLine (text : List Char) : List Char :=
  if text.getLast?.any isBreak then text else text ++ ['\n']

/-- Whether a key can stand before its colon: it has one line and at most 128 bytes. -/
def isSimpleKey (name : String) : Bool := !(name.toList.any isBreak) && name.utf8ByteSize ≤ 128

/-- A key with its colon; one that is too long for a line stands after a question mark. -/
def keyText (indent : Nat) (name : String) : List Char :=
  let text := writeString (indent + 2) name
  if isSimpleKey name then text ++ [':'] else endLine ('?' :: ' ' :: text) ++ pad indent ++ [':']

mutual

/-- The items of a sequence, each after a dash at a column; the first one is on the current line. -/
def items (indent : Nat) : List Json → List Char
  | [] => []
  | [j] => '-' :: part indent false j
  | j :: rest => endLine ('-' :: part indent false j) ++ pad indent ++ items indent rest

/-- The entries of a mapping at a column; the first one is on the current line. -/
def entries (indent : Nat) : List (String × Json) → List Char
  | [] => []
  | [(name, j)] => keyText indent name ++ part indent (isSimpleKey name) j
  | (name, j) :: rest =>
    endLine (keyText indent name ++ part indent (isSimpleKey name) j) ++ pad indent
      ++ entries indent rest

/-- A tree after a dash or a colon. Its own parts start on the same line, two columns to the right,
unless a key is there already. -/
def part (indent : Nat) (afterKey : Bool) : Json → List Char
  | .array (j :: rest) =>
    if afterKey then '\n' :: pad indent ++ items indent (j :: rest)
    else ' ' :: items (indent + 2) (j :: rest)
  | .object (m :: rest) =>
    if afterKey then '\n' :: pad (indent + 2) ++ entries (indent + 2) (m :: rest)
    else ' ' :: entries (indent + 2) (m :: rest)
  | j => ' ' :: scalar (indent + 2) j

end

/-- The document with a tree in it. -/
def document : Json → List Char
  | .array (j :: rest) => endLine (items 0 (j :: rest))
  | .object (m :: rest) => endLine (entries 0 (m :: rest))
  | j => endLine (scalar 2 j)

/-- The text of a tree. -/
def toText (j : Json) : String := String.ofList (document j)

end DocMatch.Yaml
