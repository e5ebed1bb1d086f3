import DocMatch.Yaml.Reader

/-!
The text of scalars. Lines of quoted and plain scalars are folded: one line break between two lines
counts as a blank, and each further one as a line feed. A literal block keeps its breaks, a folded
block folds those between lines that do not start with a blank.

    "one          one two⏎three           |2-        two blanks are indentation,
     two                                     one     the break at the end is left out
                                              two
     three"
-/

namespace DocMatch.Yaml

/-- The blanks and line breaks between two parts of a scalar: blanks in the line, the first break
and the breaks after it. -/
structure Gap where
  blanks : List Char := []
  first : List Char := []
  more : List Char := []
  broken : Bool := false

namespace Gap

/-- What a gap counts as: the blanks themselves in a line, and a folded break otherwise. -/
def text (g : Gap) : List Char :=
  if !g.broken then g.blanks
  else if g.first == ['\n'] then if g.more.isEmpty then [' '] else g.more
  else g.first ++ g.more

/-- Reads blanks and line breaks. In a plain scalar of a block a tab cannot stand left of
`indent`. -/
def read (indent : Option Nat) : Nat → Gap → Reader → Outcome (Gap × Reader)
  | 0, g, r => .ok (g, r)
  | bound + 1, g, r =>
    match r.rest with
    | [] => .ok (g, r)
    | c :: _ =>
      if isSpace c then
        if g.broken && c == '\t' && indent.any (r.column < ·) then .error .tab
        else
          let g := if g.broken then g else { g with blanks := g.blanks ++ [c] }
          read indent bound g (r.skip 1)
      else if isBreak c then
        let g :=
          if g.broken then { g with more := g.more ++ r.breakText }
          else { g with blanks := [], first := r.breakText, broken := true }
        read indent bound g r.skipBreak
      else .ok (g, r)

end Gap

/-- The value of a digit in base sixteen. -/
def hexValue? (c : Char) : Option Nat :=
  if isDigit c then some (c.toNat - '0'.toNat)
  else if 'a' ≤ c && c ≤ 'f' then some (c.toNat - 'a'.toNat + 10)
  else if 'A' ≤ c && c ≤ 'F' then some (c.toNat - 'A'.toNat + 10)
  else none

/-- The number written by digits in base sixteen. -/
def hexNumber? (cs : List Char) : Option Nat :=
  cs.foldlM (fun n c => (hexValue? c).map (16 * n + ·)) 0

/-- The character of a code point, which cannot be a surrogate. -/
def charOf? (n : Nat) : Option Char :=
  if h : n.isValidChar then some (Char.ofNatAux n h) else none

/-- The characters that short escapes stand for. -/
def shortEscape? : Char → Option Char
  | '0' => some '\x00'
  | 'a' => some '\x07'
  | 'b' => some '\x08'
  | 't' => some '\t'
  | '\t' => some '\t'
  | 'n' => some '\n'
  | 'v' => some '\x0b'
  | 'f' => some '\x0c'
  | 'r' => some '\r'
  | 'e' => some '\x1b'
  | ' ' => some ' '
  | '"' => some '"'
  | '/' => some '/'
  | '\\' => some '\\'
  | 'N' => some '\u0085'
  | '_' => some '\u00a0'
  | 'L' => some '\u2028'
  | 'P' => some '\u2029'
  | _ => none

/-- The number of digits of an escape by number. -/
def escapeWidth? : Char → Option Nat
  | 'x' => some 2
  | 'u' => some 4
  | 'U' => some 8
  | _ => none

/-- The character of an escape whose backslash has been read. -/
def readEscape (r : Reader) : Outcome (Char × Reader) :=
  match r.rest with
  | [] => .error .badEscape
  | c :: rest =>
    match shortEscape? c, escapeWidth? c with
    | some e, _ => .ok (e, r.skip 1)
    | none, some width =>
      let ds := rest.take width
      match if ds.length = width then (hexNumber? ds).bind charOf? else none with
      | some e => .ok (e, r.skip (1 + width))
      | none => .error .badEscape
    | none, none => .error .badEscape

/-- The words of a quoted scalar up to a gap or the closing quote. A break behind a backslash ends
them too, and does not count as one; whether it did is told. -/
def readQuotedWords (single : Bool) : Nat → Reader → Outcome (List Char × Bool × Reader)
  | 0, _ => .error .unclosedQuote
  | bound + 1, r =>
    let add (c : Char) (r : Reader) : Outcome (List Char × Bool × Reader) := do
      let (more, escaped, r) ← readQuotedWords single bound r
      return (c :: more, escaped, r)
    match r.rest with
    | [] => .ok ([], false, r)
    | c :: rest =>
      if isSpaceOrBreak c then .ok ([], false, r)
      else if single then
        if c != '\'' then add c (r.skip 1)
        else if rest.head? == some '\'' then add c (r.skip 2)
        else .ok ([], false, r)
      else if c == '"' then .ok ([], false, r)
      else if c != '\\' then add c (r.skip 1)
      else if rest.head?.any isBreak then .ok ([], true, (r.skip 1).skipBreak)
      else do
        let (e, r) ← readEscape (r.skip 1)
        add e r

/-- The text of a quoted scalar from after its opening quote. -/
def readQuoted (single : Bool) : Nat → Reader → Outcome (List Char × Reader)
  | 0, _ => .error .unclosedQuote
  | bound + 1, r => do
    if r.atDocumentMarker || r.rest.isEmpty then throw .unclosedQuote
    let (words, escaped, r) ← readQuotedWords single (r.rest.length + 1) r
    if r.sees (· == if single then '\'' else '"') then return (words, r.skip 1)
    let (gap, r) ← Gap.read none (r.rest.length + 1) { broken := escaped } r
    let (more, r) ← readQuoted single bound r
    return (words ++ gap.text ++ more, r)

/-- The characters that end a plain scalar inside a flow collection. -/
def isFlowMark (c : Char) : Bool := [',', '[', ']', '{', '}'].contains c

/-- The words of a plain scalar up to a gap or a mark. -/
def readPlainWords (inFlow : Bool) : Nat → Reader → Outcome (List Char × Reader)
  | 0, r => .ok ([], r)
  | bound + 1, r =>
    match r.rest with
    | [] => .ok ([], r)
    | c :: rest =>
      if isSpaceOrBreak c then .ok ([], r)
      else if inFlow && c == ':' && rest.head?.any (fun d => d == '?' || isFlowMark d) then
        .error .unexpectedCharacter
      else if (c == ':' && rest.head?.all isSpaceOrBreak) || (inFlow && isFlowMark c) then
        .ok ([], r)
      else do
        let (more, r) ← readPlainWords inFlow bound (r.skip 1)
        return (c :: more, r)

/-- The text of a plain scalar from after a gap, whether a line break follows it, and the place
after that. In a block its lines are indented by at least `indent`. -/
def readPlain (inFlow : Bool) (indent : Nat) : Nat → Gap → Reader →
    Outcome (List Char × Bool × Reader)
  | 0, gap, r => .ok ([], gap.broken, r)
  | bound + 1, gap, r => do
    if r.atDocumentMarker || r.sees (· == '#') then return ([], gap.broken, r)
    let (words, r) ← readPlainWords inFlow (r.rest.length + 1) r
    if words.isEmpty then return ([], gap.broken, r)
    if !r.sees isSpaceOrBreak then return (gap.text ++ words, false, r)
    let (next, r) ← Gap.read (some indent) (r.rest.length + 1) {} r
    if !inFlow && r.column < indent then return (gap.text ++ words, next.broken, r)
    let (more, broken, r) ← readPlain inFlow indent bound next r
    return (gap.text ++ words ++ more, broken, r)

/-- What becomes of the line breaks at the end of a block scalar. -/
inductive Chomping
  | strip | clip | keep
  deriving DecidableEq

/-- The sign in the header of a block scalar. -/
def chomping? : Char → Option Chomping
  | '-' => some .strip
  | '+' => some .keep
  | _ => none

/-- The indentation digit in the header of a block scalar. -/
def increment? (c : Char) : Option Nat :=
  if isDigit c && c != '0' then some (c.toNat - '0'.toNat) else none

/-- The header of a block scalar after its bar or angle: a sign and a digit in either order. -/
def blockHeader (r : Reader) : Chomping × Option Nat × Reader :=
  match r.rest with
  | a :: rest =>
    match chomping? a, increment? a with
    | some sign, _ =>
      match rest.head?.bind increment? with
      | some n => (sign, some n, r.skip 2)
      | none => (sign, none, r.skip 1)
    | none, some n =>
      match rest.head?.bind chomping? with
      | some sign => (sign, some n, r.skip 2)
      | none => (.clip, some n, r.skip 1)
    | none, none => (.clip, none, r)
  | [] => (.clip, none, r)

/-- Empty lines, and the indentation of the line after them. An indentation of zero is not known
yet; `widest` is the widest one seen. -/
def blockBreaks (indent : Nat) : Nat → Nat → List Char → Reader →
    Outcome (Nat × List Char × Reader)
  | 0, widest, breaks, r => .ok (widest, breaks, r)
  | bound + 1, widest, breaks, r =>
    let blanks := (r.run (· == ' ')).length
    let r := r.skip (if indent = 0 then blanks else min blanks (indent - r.column))
    let widest := max widest r.column
    if (indent = 0 || r.column < indent) && r.sees (· == '\t') then .error .tab
    else if r.sees isBreak then
      blockBreaks indent bound widest (breaks ++ r.breakText) r.skipBreak
    else .ok (widest, breaks, r)

/-- The lines of a block scalar: their text, the break after the last line and the breaks of the
empty lines after it. Given are those before the first line, and whether the line before starts with
a blank. -/
def blockLines (literal : Bool) (indent : Nat) : Nat → List Char → List Char → Bool → Reader →
    Outcome (List Char × List Char × List Char × Reader)
  | 0, last, breaks, _, r => .ok ([], last, breaks, r)
  | bound + 1, last, breaks, blankBefore, r =>
    if r.column != indent || r.rest.isEmpty then .ok ([], last, breaks, r)
    else do
      let blankHere := r.sees isSpace
      let joint :=
        if !literal && last == ['\n'] && !blankBefore && !blankHere then
          if breaks.isEmpty then [' '] else []
        else last
      let line := r.run (!isBreak ·)
      let r := r.skip line.length
      let (_, nextBreaks, next) ← blockBreaks indent (r.rest.length + 1) 0 [] r.skipBreak
      let (more, last, rest, r) ←
        blockLines literal indent bound r.breakText nextBreaks blankHere next
      return (joint ++ breaks ++ line ++ more, last, rest, r)

/-- The text of a block scalar from after its bar or angle; `parent` is the indentation around
it. -/
def readBlock (literal : Bool) (parent : Int) (r : Reader) : Outcome (List Char × Reader) := do
  let (chomping, increment, r) := blockHeader r
  if r.sees isDigit then throw .badBlockHeader
  let r ← r.finishLine .badBlockHeader
  let r := r.skipBreak
  let known := (increment.map fun n => if 0 ≤ parent then parent.toNat + n else n).getD 0
  let (widest, breaks, r) ← blockBreaks known (r.rest.length + 1) 0 [] r
  let indent := if known = 0 then max widest (max (parent + 1).toNat 1) else known
  let (text, last, breaks, r) ← blockLines literal indent (r.rest.length + 1) [] breaks false r
  let tail := match chomping with
    | .strip => []
    | .clip => last
    | .keep => last ++ breaks
  return (text ++ tail, r)

end DocMatch.Yaml
