import DocMatch.Yaml.Node
import DocMatch.Yaml.Tree

/-!
Expansion: the node that a tree stands for. Each alias gives way to the tree under its anchor, and
each scalar is understood by its tag, by its text, or as a string if it is quoted.

    base: &b [1, '1']           base: [1, "1"]
    copy: *b                    copy: [1, "1"]
    text: !!str 1               text: "1"
    temp: !celsius 20           temp: 20 with the tag celsius

Collections nest 128 deep at most, and aliases are followed at most a hundred times for every mark
that the tree is written with, so that a short text cannot stand for a huge node.
-/

namespace DocMatch.Yaml

/-- A text without the exclamation mark in front, if anything follows it. -/
def dropMark : List Char → List Char
  | '!' :: c :: rest => c :: rest
  | cs => cs

/-- The tag of a tree, if it is one of the document's own and none of YAML. -/
def Properties.ownTag? (p : Properties) : Option String :=
  match p.tag with
  | some ('!' :: rest) => some (String.ofList (dropMark (dropMark ('!' :: rest))))
  | _ => none

namespace Tree

mutual

/-- The number of marks that a tree is written with: one for a leaf and two for a collection. -/
def marks : Tree → Nat
  | aliasOf _ | scalar _ _ _ => 1
  | sequence _ items => 2 + marksOfItems items
  | mapping _ entries => 2 + marksOfEntries entries

def marksOfItems : List Tree → Nat
  | [] => 0
  | tree :: rest => marks tree + marksOfItems rest

def marksOfEntries : List (Tree × Tree) → Nat
  | [] => 0
  | (name, tree) :: rest => marks name + marks tree + marksOfEntries rest

end

/-- The properties of a tree that is no alias. -/
def properties : Tree → Properties
  | aliasOf _ => {}
  | scalar p _ _ | sequence p _ | mapping p _ => p

/-- A tree under the number of its anchor, if it has one. -/
def underAnchor (tree : Tree) : List (Nat × Tree) :=
  match tree.properties.anchor with
  | some number => [(number, tree)]
  | none => []

mutual

/-- The trees with an anchor, in the order in which they start. -/
def anchored : Tree → List (Nat × Tree)
  | aliasOf number => underAnchor (aliasOf number)
  | scalar p text style => underAnchor (scalar p text style)
  | sequence p items => underAnchor (sequence p items) ++ anchoredItems items
  | mapping p entries => underAnchor (mapping p entries) ++ anchoredEntries entries

def anchoredItems : List Tree → List (Nat × Tree)
  | [] => []
  | tree :: rest => anchored tree ++ anchoredItems rest

def anchoredEntries : List (Tree × Tree) → List (Nat × Tree)
  | [] => []
  | (name, tree) :: rest => anchored name ++ anchored tree ++ anchoredEntries rest

end

/-- The trees that aliases stand for; of two under one number the later. -/
def anchors (tree : Tree) : List (Nat × Tree) := tree.anchored.reverse

/-- An integer, which 64 bits have to hold, with a sign or without. -/
def integerNode (n : Int) : Outcome Node :=
  if Int64.minValue.toInt ≤ n && n < UInt64.size then .ok (.integer n) else .error .outOfRange

/-- What a plain scalar says. -/
def understand (s : String) : Outcome Node :=
  match Plain.ofString s with
  | .null => .ok .null
  | .boolean b => .ok (.boolean b)
  | .integer n => integerNode n
  | .float x => .ok (.float x)
  | .text => .ok (.string s)

/-- What a scalar says under a tag of YAML; one that names no kind of scalar makes it a string. -/
def convert (tag : String) (s : String) : Outcome Node :=
  if tag == "tag:yaml.org,2002:bool" then
    match Plain.boolean? s with
    | some b => .ok (.boolean b)
    | none => .error .badTag
  else if tag == "tag:yaml.org,2002:int" then
    match Plain.integer? s.toList with
    | some n => integerNode n
    | none => .error .badTag
  else if tag == "tag:yaml.org,2002:float" then
    match Plain.float? s.toList with
    | some x => .ok (.float x)
    | none => .error .badTag
  else if tag == "tag:yaml.org,2002:null" then
    if Plain.isNull s && s != "" then .ok .null else .error .badTag
  else .ok (.string s)

/-- What a scalar says without regard to its tag. -/
def untagged (s : String) (style : ScalarStyle) : Outcome Node :=
  if style == .plain then understand s else .ok (.string s)

/-- What a scalar says. Below a tag that is the document's own its tag is not regarded. -/
def understandScalar (belowTag : Bool) (p : Properties) (s : String) (style : ScalarStyle) :
    Outcome Node :=
  if belowTag then untagged s style
  else
    match p.ownTag?, p.tag with
    | some tag, _ => (untagged s style).map (Node.tagged tag)
    | none, some tag => convert (String.ofList tag) s
    | none, none => untagged s style

/-- A collection with its own tag, if it has one. -/
def withTag (belowTag : Bool) (p : Properties) (node : Node) : Node :=
  match belowTag, p.ownTag? with
  | false, some tag => .tagged tag node
  | _, _ => node

/-- Expansion counts how often an alias may still be followed. -/
abbrev Expanding := StateT Nat Outcome

/-- The tree that an alias stands for; any other stands for itself. -/
def follow (anchors : List (Nat × Tree)) : Tree → Expanding Tree
  | aliasOf number => do
    let left ← get
    if left = 0 then throw .tooManyAliases
    set (left - 1)
    match anchors.lookup number with
    | some tree => return tree
    | none => throw .unknownAnchor
  | tree => return tree

/-- Whether a tree is written by its anchor only. -/
def isAlias : Tree → Bool
  | aliasOf _ => true
  | _ => false

/-- The node of a tree, with collections nested no deeper than a limit. The tag of a mapping covers
its keys: theirs are not regarded, unless they come from an alias. -/
def expandWithin (anchors : List (Nat × Tree)) : Nat → Bool → Tree → Expanding Node
  | depth, belowTag, tree => do
    let belowTag := belowTag && !tree.isAlias
    match ← follow anchors tree with
    | aliasOf _ => throw .unknownAnchor
    | scalar p text style => liftM (understandScalar belowTag p (String.ofList text) style)
    | sequence p items =>
      match depth with
      | 0 => throw .tooDeep
      | depth + 1 =>
        let nodes ← items.mapM (expandWithin anchors depth false)
        return withTag belowTag p (.sequence nodes)
    | mapping p entries =>
      match depth with
      | 0 => throw .tooDeep
      | depth + 1 =>
        let nodes ← entries.foldlM (fun before (name, tree) => do
          let key ← expandWithin anchors depth (belowTag || p.ownTag?.isSome) name
          if before.any fun entry => entry.1.same key then throw .duplicateKey
          let node ← expandWithin anchors depth false tree
          return (key, node) :: before) []
        return withTag belowTag p (.mapping nodes.reverse)

/-- The deepest nesting of collections. -/
def depthLimit : Nat := 128

/-- How often an alias may be followed for each mark. -/
def aliasesPerMark : Nat := 100

/-- The node of a tree. -/
def expand (tree : Tree) : Outcome Node :=
  (expandWithin tree.anchors depthLimit false tree).run' (aliasesPerMark * tree.marks)

/-- The text of a scalar or of the scalar that an alias stands for, whatever its tag and quotes. -/
def textOf (anchors : List (Nat × Tree)) : Tree → Outcome String
  | scalar _ text _ => .ok (String.ofList text)
  | aliasOf number =>
    match anchors.lookup number with
    | some (scalar _ text _) => .ok (String.ofList text)
    | _ => .error .wrongType
  | _ => .error .wrongType

/-- The entries of a mapping from texts to texts; where nothing is written there are none. -/
def textEntries (tree : Tree) : Outcome (List (String × String)) :=
  match tree with
  | mapping _ entries =>
    entries.mapM fun (name, part) => do
      return (← textOf tree.anchors name, ← textOf tree.anchors part)
  | scalar _ [] .plain => .ok []
  | _ => .error .wrongType

end Tree

/-- The node that a YAML text writes; an empty text writes nothing. -/
def Node.ofText (text : String) : Outcome Node := do
  match ← Tree.ofText text.toList with
  | some tree => tree.expand
  | none => return .null

/-- The entries of a YAML text that is a mapping from texts to texts. -/
def textEntries (text : String) : Outcome (List (String × String)) := do
  match ← Tree.ofText text.toList with
  | some tree => tree.textEntries
  | none => return []

end DocMatch.Yaml
