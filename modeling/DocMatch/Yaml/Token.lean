import DocMatch.Yaml.ScalarText

/-!
Tokens of YAML. Where blocks start and end follows from indentation, and that something is a key
shows only at the colon after it. So a scanner remembers for each level of flow collections the
token that may turn out to be a key; at the colon a key token, and where a new block starts also a
mapping token, is put in front of it.

    a: 1            remembered: a          at the colon:  [mapping, key, a, value]  1
    b:              remembered: b          at the colon:  … [key, b, value]
      - c           deeper:                               … [sequence, entry]  c
                    end of text:                          … [end, end]
-/

namespace DocMatch.Yaml

/-- Whether a scalar was written without quotes and block marks. -/
inductive ScalarStyle
  | plain | marked
  deriving DecidableEq

/-- A token. -/
inductive Token
  | versionDirective (major minor : Nat)
  | tagDirective (handle lead : List Char)
  | documentStart
  | documentEnd
  | blockSequenceStart
  | blockMappingStart
  | blockEnd
  | flowSequenceStart
  | flowSequenceEnd
  | flowMappingStart
  | flowMappingEnd
  | blockEntry
  | flowEntry
  | key
  | value
  | aliasOf (number : Nat)
  | anchor (number : Nat)
  | tag (handle suffix : List Char)
  | scalar (text : List Char) (style : ScalarStyle)
  deriving DecidableEq

/-- A token that may turn out to be a key: its number, where it starts, and whether nothing else can
stand there. -/
structure PendingKey where
  number : Nat
  index : Nat
  line : Nat
  column : Nat
  required : Bool

/-- A scanner at work. Tokens are kept latest first and counted; of the pending keys, one for each
level of flow collections, the innermost is apart. Every anchor has a number, and its name stands
for the last one. -/
structure Scanner where
  reader : Reader
  tokens : List Token := []
  count : Nat := 0
  indents : List Int := []
  keyAllowed : Bool := true
  pending : Option PendingKey := none
  outerPending : List (Option PendingKey) := []
  anchors : List (List Char × Nat) := []

namespace Scanner

/-- The column of the innermost block, or -1 outside of all blocks. -/
def indent (s : Scanner) : Int := s.indents.headD (-1)

/-- Whether the place is inside a flow collection. -/
def inFlow (s : Scanner) : Bool := !s.outerPending.isEmpty

/-- Adds a token. -/
def add (t : Token) (s : Scanner) : Scanner :=
  { s with tokens := t :: s.tokens, count := s.count + 1 }

/-- Puts a token in front of the one with a number. -/
def insert (number : Nat) (t : Token) (s : Scanner) : Scanner :=
  let later := s.count - number
  { s with tokens := s.tokens.take later ++ t :: s.tokens.drop later, count := s.count + 1 }

/-- Moves past some characters. -/
def skip (n : Nat) (s : Scanner) : Scanner := { s with reader := s.reader.skip n }

/-- Adds a token of some characters. -/
def mark (t : Token) (width : Nat) (s : Scanner) : Scanner := (s.skip width).add t

def allowKey (allowed : Bool) (s : Scanner) : Scanner := { s with keyAllowed := allowed }

/-- The indentations that are left, innermost first, and the number of blocks ended, once all blocks
that start right of a column have ended. -/
def unrolled (column : Int) : List Int → List Int × Nat
  | [] => ([], 0)
  | indent :: outer =>
    if indent ≤ column then (indent :: outer, 0)
    else
      let (left, ended) := unrolled column outer
      (left, ended + 1)

/-- Ends the blocks that start right of a column. -/
def unroll (column : Int) (s : Scanner) : Scanner :=
  if s.inFlow then s
  else
    let (indents, ended) := unrolled column s.indents
    { s with
      indents
      tokens := List.replicate ended .blockEnd ++ s.tokens
      count := s.count + ended }

/-- Starts a block at a column, if none that is as far to the right is open; its token goes in front
of the one with a number, or to the end. -/
def roll (column : Nat) (number : Option Nat) (t : Token) (s : Scanner) : Scanner :=
  if s.inFlow || column ≤ s.indent then s
  else
    let s := { s with indents := column :: s.indents }
    match number with
    | some n => s.insert n t
    | none => s.add t

/-- Whether a pending key is too far away to be a key. -/
def isStale (r : Reader) (k : PendingKey) : Bool := k.line < r.line || k.index + 1024 < r.index

/-- Forgets a pending key if it is too far away; one that is required cannot be forgotten. -/
def dropStale (r : Reader) : Option PendingKey → Outcome (Option PendingKey)
  | some k =>
    if !isStale r k then .ok (some k)
    else if k.required then .error .missingColon
    else .ok none
  | none => .ok none

def dropAllStale (s : Scanner) : Outcome Scanner := do
  let outer ← s.outerPending.mapM (dropStale s.reader)
  let pending ← dropStale s.reader s.pending
  return { s with pending := pending, outerPending := outer }

/-- Forgets the pending key of this level, unless it is required. -/
def forgetKey (s : Scanner) : Outcome Scanner :=
  if s.pending.any PendingKey.required then .error .missingColon else .ok { s with pending := none }

/-- Remembers the next token as a pending key, if a key is allowed here. -/
def rememberKey (s : Scanner) : Outcome Scanner :=
  if s.keyAllowed then do
    let s ← s.forgetKey
    let r := s.reader
    let required := !s.inFlow && s.indent == r.column
    return { s with pending := some ⟨s.count, r.index, r.line, r.column, required⟩ }
  else .ok s

/-- Moves past blanks, comments and line breaks. In a block a new line may start a key, and a tab
cannot stand where a key may. -/
def skipGaps : Nat → Scanner → Scanner
  | 0, s => s
  | bound + 1, s =>
    let atMark := s.reader.column == 0 && s.reader.sees (· == '\uFEFF')
    let r := if atMark then s.reader.skip 1 else s.reader
    let tabs := s.inFlow || !s.keyAllowed
    let r := r.skipWhile fun c => c == ' ' || (tabs && c == '\t')
    let r := if r.sees (· == '#') then r.skipWhile (!isBreak ·) else r
    if r.sees isBreak then
      skipGaps bound { s with reader := r.skipBreak, keyAllowed := s.keyAllowed || !s.inFlow }
    else { s with reader := r }

/-- A line between or after documents. -/
def documentMarker (t : Token) (s : Scanner) : Outcome Scanner := do
  let s ← (s.unroll (-1)).forgetKey
  return (s.allowKey false).mark t 3

/-- The start of a flow collection, which may be a key itself. -/
def openFlow (t : Token) (s : Scanner) : Outcome Scanner := do
  let s ← s.rememberKey
  let s := { s with
    pending := none
    outerPending := s.pending :: s.outerPending
    keyAllowed := true }
  return s.mark t 1

/-- The end of a flow collection. -/
def closeFlow (t : Token) (s : Scanner) : Outcome Scanner := do
  let s ← s.forgetKey
  let s := match s.outerPending with
    | [] => s
    | k :: outer => { s with pending := k, outerPending := outer }
  return (s.allowKey false).mark t 1

def flowEntry (s : Scanner) : Outcome Scanner := do
  let s ← s.forgetKey
  return (s.allowKey true).mark .flowEntry 1

/-- The dash of a block sequence. -/
def blockEntry (s : Scanner) : Outcome Scanner := do
  if !s.inFlow && !s.keyAllowed then throw .misplacedEntry
  let s ← (s.roll s.reader.column none .blockSequenceStart).forgetKey
  return (s.allowKey true).mark .blockEntry 1

/-- The question mark in front of a key. -/
def explicitKey (s : Scanner) : Outcome Scanner := do
  if !s.inFlow && !s.keyAllowed then throw .misplacedKey
  let s ← (s.roll s.reader.column none .blockMappingStart).forgetKey
  return (s.allowKey !s.inFlow).mark .key 1

/-- The colon in front of a value; it makes the pending token a key. -/
def value (s : Scanner) : Outcome Scanner :=
  match s.pending with
  | some k =>
    let s := (s.insert k.number .key).roll k.column (some k.number) .blockMappingStart
    .ok (({ s with pending := none, keyAllowed := false }).mark .value 1)
  | none => do
    if !s.inFlow && !s.keyAllowed then throw .misplacedValue
    let s := s.roll s.reader.column none .blockMappingStart
    return (s.allowKey !s.inFlow).mark .value 1

/-- The name of an anchor, and the place after it. -/
def anchorName (r : Reader) : Outcome (List Char × Reader) :=
  let r := r.skip 1
  let name := r.run isWord
  let r := r.skip name.length
  let ends := r.atGap || r.sees fun c => ['?', ':', ',', ']', '}', '%', '@', '\x60'].contains c
  if name.isEmpty || !ends then .error .badAnchor else .ok (name, r)

/-- An anchor. Its number is the number of names before it; so when a name comes again, it takes the
number that the next new name would have taken, and shares it with that name. -/
def anchor (s : Scanner) : Outcome Scanner := do
  let s ← s.rememberKey
  let (name, r) ← anchorName s.reader
  let number := s.anchors.length
  let others := s.anchors.filter fun a => a.1 != name
  let s := { s with anchors := (name, number) :: others, reader := r, keyAllowed := false }
  return s.add (.anchor number)

/-- An alias: it stands for the anchor of its name. -/
def aliasOf (s : Scanner) : Outcome Scanner := do
  let s ← s.rememberKey
  let (name, r) ← anchorName s.reader
  match s.anchors.lookup name with
  | some number => return ({ s with reader := r, keyAllowed := false }).add (.aliasOf number)
  | none => throw .unknownAnchor

/-- The characters of tags. -/
def isTagChar (verbatim : Bool) (c : Char) : Bool :=
  let marks := [';', '/', '?', ':', '@', '&', '=', '+', '$', '.', '%', '!', '~', '*', '\'', '(',
    ')']
  isWord c || marks.contains c || (verbatim && [',', '[', ']'].contains c)

/-- The bytes that percent escapes at the start of a text write, at most `width` of them. -/
def percentBytes : Nat → List Char → Option (List UInt8)
  | 0, _ => some []
  | n + 1, '%' :: a :: b :: rest => do
    let byte ← hexNumber? [a, b]
    return UInt8.ofNat byte :: (← percentBytes n rest)
  | _, _ => none

/-- The number of bytes of a character in UTF-8, by the first of them. -/
def utf8Width (n : Nat) : Option Nat :=
  if n < 0x80 then some 1
  else if 0xC0 ≤ n && n < 0xE0 then some 2
  else if 0xE0 ≤ n && n < 0xF0 then some 3
  else if 0xF0 ≤ n && n < 0xF8 then some 4
  else none

/-- One character written by percent escapes, and the number of escapes. -/
def percentChar? (cs : List Char) : Option (Char × Nat) := do
  let lead ← percentBytes 1 cs
  let width ← lead.head?.bind fun b => utf8Width b.toNat
  let bytes ← percentBytes width cs
  let text ← String.fromUTF8? ⟨bytes.toArray⟩
  match text.toList with
  | [c] => some (c, width)
  | _ => none

/-- The characters of a tag or of what it stands for, with percent escapes read. -/
def tagChars (verbatim : Bool) : Nat → Reader → Outcome (List Char × Reader)
  | 0, r => .ok ([], r)
  | bound + 1, r =>
    match r.rest with
    | [] => .ok ([], r)
    | c :: _ =>
      if !isTagChar verbatim c then .ok ([], r)
      else if c == '%' then
        match percentChar? r.rest with
        | some (e, width) => do
          let (more, r) ← tagChars verbatim bound (r.skip (3 * width))
          return (e :: more, r)
        | none => .error .badTag
      else do
        let (more, r) ← tagChars verbatim bound (r.skip 1)
        return (c :: more, r)

/-- The handle of a tag: words between exclamation marks, or the first mark with the words after
it. -/
def tagHandle (r : Reader) : List Char × Reader :=
  let words := (r.skip 1).run isWord
  let r := r.skip (1 + words.length)
  if r.sees (· == '!') then ('!' :: words ++ ['!'], r.skip 1) else ('!' :: words, r)

/-- A tag. -/
def tag (s : Scanner) : Outcome Scanner := do
  let s ← s.rememberKey
  let r := s.reader
  let bound := r.rest.length
  let (t, r) ←
    if r.rest.take 2 == ['!', '<'] then do
      let (name, r) ← tagChars true bound (r.skip 2)
      if name.isEmpty || !r.sees (· == '>') then throw YamlFault.badTag
      pure (Token.tag [] name, r.skip 1)
    else do
      let (handle, r) := tagHandle r
      let (name, r) ← tagChars false bound r
      if 1 < handle.length && handle.getLast? == some '!' then
        if name.isEmpty then throw YamlFault.badTag
        pure (Token.tag handle name, r)
      else
        let suffix := handle.drop 1 ++ name
        pure (if suffix.isEmpty then Token.tag [] ['!'] else Token.tag ['!'] suffix, r)
  if !(r.atGap || (s.inFlow && r.sees (· == ','))) then throw .badTag
  return ({ s with reader := r, keyAllowed := false }).add t

/-- A number of a version: at most nine digits. -/
def versionNumber (r : Reader) : Outcome (Nat × Reader) :=
  let ds := r.run isDigit
  if ds.isEmpty || 9 < ds.length then .error .badDirective
  else .ok (natOfDigits ds, r.skip ds.length)

/-- A directive: the version of YAML, or what a tag handle stands for. -/
def directive (s : Scanner) : Outcome Scanner := do
  let s ← (s.unroll (-1)).forgetKey
  let r := s.reader.skip 1
  let name := r.run isWord
  let r := r.skip name.length
  if !r.atGap then throw .badDirective
  let (t, r) ←
    if name == ['Y', 'A', 'M', 'L'] then do
      let (major, r) ← versionNumber (r.skipWhile isSpace)
      if !r.sees (· == '.') then throw YamlFault.badDirective
      let (minor, r) ← versionNumber (r.skip 1)
      pure (Token.versionDirective major minor, r)
    else if name == ['T', 'A', 'G'] then do
      let r := r.skipWhile isSpace
      if !r.sees (· == '!') then throw YamlFault.badDirective
      let (handle, r) := tagHandle r
      if handle != ['!'] && (handle.length < 2 || handle.getLast? != some '!') then
        throw YamlFault.badDirective
      if !r.sees isSpace then throw YamlFault.badDirective
      let (lead, r) ← tagChars true r.rest.length (r.skipWhile isSpace)
      if lead.isEmpty || !r.atGap then throw YamlFault.badDirective
      pure (Token.tagDirective handle lead, r)
    else throw YamlFault.badDirective
  let r ← r.finishLine .badDirective
  return ({ s with reader := r.skipBreak, keyAllowed := false }).add t

def blockScalar (literal : Bool) (s : Scanner) : Outcome Scanner := do
  let s ← s.forgetKey
  let (text, r) ← readBlock literal s.indent (s.reader.skip 1)
  return ({ s with reader := r, keyAllowed := true }).add (.scalar text .marked)

def quotedScalar (single : Bool) (s : Scanner) : Outcome Scanner := do
  let s ← s.rememberKey
  let r := s.reader.skip 1
  let (text, r) ← readQuoted single (r.rest.length + 1) r
  return ({ s with reader := r, keyAllowed := false }).add (.scalar text .marked)

/-- A plain scalar; a line break behind it lets a key follow. -/
def plainScalar (s : Scanner) : Outcome Scanner := do
  let s ← s.rememberKey
  let r := s.reader
  let (text, broken, r) ← readPlain s.inFlow (s.indent + 1).toNat (r.rest.length + 1) {} r
  return ({ s with reader := r, keyAllowed := broken }).add (.scalar text .plain)

/-- Whether a plain scalar can start with a character. -/
def startsPlain (inFlow : Bool) (c : Char) (next : Option Char) : Bool :=
  let marks := ['-', '?', ':', ',', '[', ']', '{', '}', '#', '&', '*', '!', '|', '>', '\'', '"',
    '%', '@', '\x60']
  !(isSpaceOrBreak c || marks.contains c)
    || (c == '-' && !next.any isSpace)
    || (!inFlow && (c == '?' || c == ':') && !next.all isSpaceOrBreak)

/-- Reads the token here, which starts with a given character. -/
def readToken (c : Char) (next : Option Char) (s : Scanner) : Outcome Scanner :=
  let gapNext := next.all isSpaceOrBreak
  if s.reader.column == 0 && c == '%' then s.directive
  else if s.reader.atMarker '-' then s.documentMarker .documentStart
  else if s.reader.atMarker '.' then s.documentMarker .documentEnd
  else if c == '[' then s.openFlow .flowSequenceStart
  else if c == '{' then s.openFlow .flowMappingStart
  else if c == ']' then s.closeFlow .flowSequenceEnd
  else if c == '}' then s.closeFlow .flowMappingEnd
  else if c == ',' then s.flowEntry
  else if c == '-' && gapNext then s.blockEntry
  else if c == '?' && (s.inFlow || gapNext) then s.explicitKey
  else if c == ':' && (s.inFlow || gapNext) then s.value
  else if c == '*' then s.aliasOf
  else if c == '&' then s.anchor
  else if c == '!' then s.tag
  else if c == '|' && !s.inFlow then s.blockScalar true
  else if c == '>' && !s.inFlow then s.blockScalar false
  else if c == '\'' then s.quotedScalar true
  else if c == '"' then s.quotedScalar false
  else if startsPlain s.inFlow c next then s.plainScalar
  else .error .unexpectedCharacter

/-- Reads tokens to the end of the text. Each takes a character, which bounds their number. -/
def readAll : Nat → Scanner → Outcome Scanner
  | 0, s => .ok s
  | bound + 1, s => do
    let s ← (s.skipGaps (s.reader.rest.length + 1)).dropAllStale
    let s := s.unroll s.reader.column
    match s.reader.rest with
    | [] => (s.unroll (-1)).forgetKey
    | c :: rest => readAll bound (← s.readToken c rest.head?)

end Scanner

/-- The tokens of a text. -/
def Token.ofText (text : List Char) : Outcome (List Token) := do
  if !text.all isAllowed then throw .controlCharacter
  let text := if text.head? == some '\uFEFF' then text.drop 1 else text
  let s ← Scanner.readAll (text.length + 1) { reader := Reader.start text }
  return s.tokens.reverse

end DocMatch.Yaml
