import DocMatch.Number.Numeral

/-!
A place in a YAML text, with the column and the line that the block structure is made of, and what
can be wrong with the text from there on.
-/

namespace DocMatch

/-- What is wrong with a YAML text, or with the tree that it writes. -/
inductive YamlFault
  | controlCharacter | tab | badEscape | unclosedQuote | badDirective | badAnchor | badTag
  | undefinedHandle | badBlockHeader | missingColon | misplacedEntry | misplacedKey | misplacedValue
  | unexpectedCharacter | unexpectedToken | unknownAnchor | duplicateKey | tooDeep | tooManyAliases
  | manyDocuments | outOfRange | wrongType
  deriving DecidableEq

def YamlFault.message : YamlFault → String
  | controlCharacter => "control characters are not allowed"
  | tab => "tab where blanks are expected"
  | badEscape => "unknown or invalid escape"
  | unclosedQuote => "quoted scalar is not closed"
  | badDirective => "malformed directive"
  | badAnchor => "malformed anchor or alias"
  | badTag => "malformed tag, or value that does not fit its tag"
  | undefinedHandle => "undefined tag handle"
  | badBlockHeader => "malformed header of a block scalar"
  | missingColon => "could not find expected ':'"
  | misplacedEntry => "block sequence entries are not allowed here"
  | misplacedKey => "mapping keys are not allowed here"
  | misplacedValue => "mapping values are not allowed here"
  | unexpectedCharacter => "character that cannot start a token"
  | unexpectedToken => "token out of place"
  | unknownAnchor => "unknown anchor"
  | duplicateKey => "duplicate key"
  | tooDeep => "nesting too deep"
  | tooManyAliases => "too many aliases"
  | manyDocuments => "more than one document"
  | outOfRange => "number out of range"
  | wrongType => "value of an unexpected type"

namespace Yaml

/-- The result of reading YAML. -/
abbrev Outcome := Except YamlFault

/-- The characters that end a line. -/
def isBreak (c : Char) : Bool :=
  c == '\n' || c == '\r' || c == '\u0085' || c == '\u2028' || c == '\u2029'

/-- A blank inside a line. -/
def isSpace (c : Char) : Bool := c == ' ' || c == '\t'

/-- A blank or the end of a line. -/
def isSpaceOrBreak (c : Char) : Bool := isSpace c || isBreak c

/-- The characters of anchors and tag handles. -/
def isWord (c : Char) : Bool := c.isAlphanum || c == '_' || c == '-'

/-- The characters that may stand in a YAML text. -/
def isAllowed (c : Char) : Bool :=
  let n := c.toNat
  n == 0x09 || n == 0x0A || n == 0x0D || (0x20 ≤ n && n ≤ 0x7E) || n == 0x85
    || (0xA0 ≤ n && n ≤ 0xFFFD) || 0x10000 ≤ n

/-- A place in a text: what is left, the number of characters before it, its line, and its
column. -/
structure Reader where
  rest : List Char
  index : Nat
  line : Nat
  column : Nat

namespace Reader

/-- The beginning of a text. -/
def start (text : List Char) : Reader := ⟨text, 0, 0, 0⟩

/-- Moves past some characters of the same line. -/
def skip (n : Nat) (r : Reader) : Reader :=
  { r with rest := r.rest.drop n, index := r.index + n, column := r.column + n }

/-- Moves past the longest run of characters of a class, none of which ends a line. -/
def skipWhile (p : Char → Bool) (r : Reader) : Reader := r.skip (r.rest.takeWhile p).length

/-- The longest run of characters of a class. -/
def run (p : Char → Bool) (r : Reader) : List Char := r.rest.takeWhile p

/-- Moves past the end of a line, if it is here; a carriage return and a line feed end one line. -/
def skipBreak (r : Reader) : Reader :=
  match r.rest with
  | '\r' :: '\n' :: rest => ⟨rest, r.index + 2, r.line + 1, 0⟩
  | c :: rest => if isBreak c then ⟨rest, r.index + 1, r.line + 1, 0⟩ else r
  | [] => r

/-- The end of a line as it counts in a scalar: most are line feeds. -/
def breakText (r : Reader) : List Char :=
  match r.rest with
  | c :: _ => if c == '\u2028' || c == '\u2029' then [c] else if isBreak c then ['\n'] else []
  | [] => []

/-- Whether a class has the character here. -/
def sees (p : Char → Bool) (r : Reader) : Bool := r.rest.head?.any p

/-- Whether the text ends here, or a blank or the end of the line is here. -/
def atGap (r : Reader) : Bool := r.rest.head?.all isSpaceOrBreak

/-- Whether the text or the line ends here. -/
def atLineEnd (r : Reader) : Bool := r.rest.head?.all isBreak

/-- Whether the line between two documents starts here, with a given character. -/
def atMarker (c : Char) (r : Reader) : Bool :=
  r.column == 0 && r.rest.take 3 == [c, c, c] && (r.skip 3).atGap

/-- Whether a line between or after documents starts here. -/
def atDocumentMarker (r : Reader) : Bool := r.atMarker '-' || r.atMarker '.'

/-- Moves past blanks and a comment to the end of the line, which must be here. -/
def finishLine (fault : YamlFault) (r : Reader) : Outcome Reader :=
  let r := r.skipWhile isSpace
  let r := if r.sees (· == '#') then r.skipWhile (!isBreak ·) else r
  if r.atLineEnd then .ok r else .error fault

end Reader

end Yaml

end DocMatch
