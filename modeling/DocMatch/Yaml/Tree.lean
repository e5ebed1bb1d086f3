import DocMatch.Yaml.Token

/-!
Trees of YAML: scalars, sequences and mappings as they are written, with their tags and anchors, and
with aliases where a tree is used again. An absent value is an empty plain scalar.
-/

namespace DocMatch.Yaml

/-- The anchor and the tag in front of a tree. -/
structure Properties where
  anchor : Option Nat := none
  tag : Option (List Char) := none

/-- The lone exclamation mark is no tag of a scalar. -/
def Properties.ofScalar (p : Properties) : Properties :=
  if p.tag == some ['!'] then { p with tag := none } else p

/-- A tree as it is written. -/
inductive Tree
  | aliasOf (number : Nat)
  | scalar (properties : Properties) (text : List Char) (style : ScalarStyle)
  | sequence (properties : Properties) (items : List Tree)
  | mapping (properties : Properties) (entries : List (Tree × Tree))

namespace Tree

/-- What stands where nothing is written. -/
def absent (properties : Properties) : Tree := scalar properties [] .plain

/-- The tags that handles stand for: those that directives set, before the two that are always
there. -/
abbrev Handles := List (List Char × List Char)

/-- The handles that are always there. -/
def standardHandles : Handles :=
  [(['!'], ['!']), (['!', '!'], "tag:yaml.org,2002:".toList)]

/-- The tag that a handle and a suffix stand for. -/
def expandTag (handles : Handles) (handle suffix : List Char) : Outcome (List Char) :=
  if handle.isEmpty then .ok suffix
  else
    match handles.lookup handle with
    | some lead => .ok (lead ++ suffix)
    | none => .error .undefinedHandle

/-- Reads an anchor and a tag, in either order. -/
def readProperties (handles : Handles) : List Token → Outcome (Properties × List Token)
  | .anchor a :: .tag handle suffix :: rest => do
    return (⟨some a, some (← expandTag handles handle suffix)⟩, rest)
  | .tag handle suffix :: .anchor a :: rest => do
    return (⟨some a, some (← expandTag handles handle suffix)⟩, rest)
  | .anchor a :: rest => .ok (⟨some a, none⟩, rest)
  | .tag handle suffix :: rest => do
    return (⟨none, some (← expandTag handles handle suffix)⟩, rest)
  | tokens => .ok (⟨none, none⟩, tokens)

/-- Whether the item of a block sequence is absent, judged by the token after its dash. -/
def itemAbsent (indentless : Bool) : List Token → Bool
  | .blockEntry :: _ | .blockEnd :: _ => true
  | .key :: _ | .value :: _ => indentless
  | _ => false

/-- Whether a key or a value of a block mapping is absent, judged by the token after its mark. -/
def partAbsent : List Token → Bool
  | .key :: _ | .value :: _ | .blockEnd :: _ => true
  | _ => false

/-- Whether a value in a flow collection is absent, judged by the token after its mark. -/
def flowPartAbsent (close : Token) : List Token → Bool
  | t :: _ => t == .flowEntry || t == close
  | [] => false

/-- The comma in front of every item but the first. -/
def readComma (first : Bool) : List Token → Outcome (List Token)
  | .flowEntry :: rest => if first then .error .unexpectedToken else .ok rest
  | tokens => if first then .ok tokens else .error .unexpectedToken

/-- What stands where no tree starts: nothing but an anchor or a tag. -/
def readAbsent (p : Properties) (tokens : List Token) : Outcome (Tree × List Token) :=
  if p.anchor.isSome || p.tag.isSome then .ok (absent p, tokens) else .error .unexpectedToken

mutual

/-- Reads a tree. Block collections are allowed in blocks, and a sequence at the column of its key
where `indentless` is set. -/
def readNode (handles : Handles) (block indentless : Bool) :
    Nat → List Token → Outcome (Tree × List Token)
  | 0, _ => .error .unexpectedToken
  | bound + 1, tokens => do
    let (p, tokens) ← readProperties handles tokens
    match tokens with
    | .aliasOf number :: rest =>
      if p.anchor.isSome || p.tag.isSome then return (absent p, tokens)
      else return (aliasOf number, rest)
    | .scalar text style :: rest => return (scalar p.ofScalar text style, rest)
    | .flowSequenceStart :: rest =>
      let (items, rest) ← readFlowItems handles true bound rest
      return (sequence p items, rest)
    | .flowMappingStart :: rest =>
      let (entries, rest) ← readFlowEntries handles true bound rest
      return (mapping p entries, rest)
    | .blockEntry :: _ =>
      if !indentless then readAbsent p tokens
      else
        let (items, rest) ← readBlockItems handles true bound tokens
        return (sequence p items, rest)
    | .blockSequenceStart :: rest =>
      if !block then readAbsent p tokens
      else
        let (items, rest) ← readBlockItems handles false bound rest
        return (sequence p items, rest)
    | .blockMappingStart :: rest =>
      if !block then readAbsent p tokens
      else
        let (entries, rest) ← readBlockEntries handles bound rest
        return (mapping p entries, rest)
    | _ => readAbsent p tokens

/-- The items of a block sequence. One at the column of its key ends where no further item follows,
any other at its end token. -/
def readBlockItems (handles : Handles) (indentless : Bool) :
    Nat → List Token → Outcome (List Tree × List Token)
  | 0, _ => .error .unexpectedToken
  | bound + 1, .blockEntry :: rest => do
    let (item, rest) ←
      if itemAbsent indentless rest then pure (absent {}, rest)
      else readNode handles true false bound rest
    let (items, rest) ← readBlockItems handles indentless bound rest
    return (item :: items, rest)
  | _, .blockEnd :: rest => if indentless then .ok ([], .blockEnd :: rest) else .ok ([], rest)
  | _, tokens => if indentless then .ok ([], tokens) else .error .unexpectedToken

/-- The entries of a block mapping up to its end token. -/
def readBlockEntries (handles : Handles) :
    Nat → List Token → Outcome (List (Tree × Tree) × List Token)
  | 0, _ => .error .unexpectedToken
  | bound + 1, .key :: rest => do
    let (name, rest) ←
      if partAbsent rest then pure (absent {}, rest) else readNode handles true true bound rest
    let (v, rest) ← readBlockValue handles bound rest
    let (entries, rest) ← readBlockEntries handles bound rest
    return ((name, v) :: entries, rest)
  | _, .blockEnd :: rest => .ok ([], rest)
  | _, _ => .error .unexpectedToken

/-- The value of an entry of a block mapping, which may be missing. -/
def readBlockValue (handles : Handles) : Nat → List Token → Outcome (Tree × List Token)
  | 0, _ => .error .unexpectedToken
  | bound + 1, .value :: rest =>
    if partAbsent rest then .ok (absent {}, rest) else readNode handles true true bound rest
  | _, tokens => .ok (absent {}, tokens)

/-- The items of a flow sequence up to its bracket; a key with a value is a mapping of one entry. A
key that is missing takes the token after its mark with it. -/
def readFlowItems (handles : Handles) (first : Bool) :
    Nat → List Token → Outcome (List Tree × List Token)
  | 0, _ => .error .unexpectedToken
  | _, .flowSequenceEnd :: rest => .ok ([], rest)
  | bound + 1, tokens => do
    match ← readComma first tokens with
    | .flowSequenceEnd :: rest => return ([], rest)
    | .key :: rest =>
      let (name, rest) ←
        if flowPartAbsent .flowSequenceEnd rest || rest.head? == some .value then
          pure (absent {}, rest.drop 1)
        else readNode handles false false bound rest
      let (v, rest) ← readFlowValue handles .flowSequenceEnd bound rest
      let (items, rest) ← readFlowItems handles false bound rest
      return (mapping {} [(name, v)] :: items, rest)
    | tokens =>
      let (item, rest) ← readNode handles false false bound tokens
      let (items, rest) ← readFlowItems handles false bound rest
      return (item :: items, rest)

/-- The entries of a flow mapping up to its brace; what is not marked as a key is a key without a
value. -/
def readFlowEntries (handles : Handles) (first : Bool) :
    Nat → List Token → Outcome (List (Tree × Tree) × List Token)
  | 0, _ => .error .unexpectedToken
  | _, .flowMappingEnd :: rest => .ok ([], rest)
  | bound + 1, tokens => do
    match ← readComma first tokens with
    | .flowMappingEnd :: rest => return ([], rest)
    | .key :: rest =>
      let (name, rest) ←
        if flowPartAbsent .flowMappingEnd rest || rest.head? == some .value then
          pure (absent {}, rest)
        else readNode handles false false bound rest
      let (v, rest) ← readFlowValue handles .flowMappingEnd bound rest
      let (entries, rest) ← readFlowEntries handles false bound rest
      return ((name, v) :: entries, rest)
    | tokens =>
      let (name, rest) ← readNode handles false false bound tokens
      let (entries, rest) ← readFlowEntries handles false bound rest
      return ((name, absent {}) :: entries, rest)

/-- The value after a key in a flow collection, which may be missing. -/
def readFlowValue (handles : Handles) (close : Token) :
    Nat → List Token → Outcome (Tree × List Token)
  | 0, _ => .error .unexpectedToken
  | bound + 1, .value :: rest =>
    if flowPartAbsent close rest then .ok (absent {}, rest)
    else readNode handles false false bound rest
  | _, tokens => .ok (absent {}, tokens)

end

/-- Reads the directives in front of a document: the version of YAML stands at most once and is 1.1
or 1.2, and each handle is set at most once. -/
def readDirectives : Bool → Handles → List Token → Outcome (Handles × List Token)
  | versioned, handles, .versionDirective major minor :: rest =>
    if versioned || major != 1 || (minor != 1 && minor != 2) then .error .badDirective
    else readDirectives true handles rest
  | versioned, handles, .tagDirective handle lead :: rest =>
    if (handles.lookup handle).isSome then .error .badDirective
    else readDirectives versioned ((handle, lead) :: handles) rest
  | _, handles, tokens => .ok (handles, tokens)

/-- Whether a token opens a document. -/
def opensDocument : Token → Bool
  | .versionDirective _ _ | .tagDirective _ _ | .documentStart => true
  | _ => false

/-- Reads the tree of a document that starts with directives or a marker. -/
def readDocument (bound : Nat) (tokens : List Token) : Outcome (Tree × List Token) := do
  let (handles, tokens) ← readDirectives false [] tokens
  match tokens with
  | .documentStart :: rest =>
    if rest.head?.all fun t => opensDocument t || t == .documentEnd then return (absent {}, rest)
    else readNode (handles ++ standardHandles) true false bound rest
  | _ => throw .unexpectedToken

/-- The tree of the only document of a text; a text without any has none. Each token is read in at
most two steps, which bounds them. -/
def ofTokens (tokens : List Token) : Outcome (Option Tree) := do
  let bound := 2 * tokens.length + 2
  match tokens with
  | [] => return none
  | t :: _ =>
    let (tree, rest) ←
      if opensDocument t then readDocument bound tokens
      else readNode standardHandles true false bound tokens
    if (rest.dropWhile (· == .documentEnd)).isEmpty then return some tree
    else throw .manyDocuments

/-- The tree of the only document of a text. -/
def ofText (text : List Char) : Outcome (Option Tree) := do
  ofTokens (← Token.ofText text)

end Tree

end DocMatch.Yaml
