import DocMatch.Text.Quoted
import DocMatch.Value.Basic
import DocMatch.Yaml.Printer

/-!
Nodes: what a YAML document says once its aliases are followed and its scalars are understood. A
mapping may have any node as a key; only one whose keys are scalars is a document value.

    ? {a: 1}            a key that names no entry,
    : b                 shown as   Mapping {"a": Number(1)}
-/

namespace DocMatch.Yaml

/-- A node of a YAML document. A tag of its own is kept with the node that it is on. -/
inductive Node
  | null
  | boolean (b : Bool)
  | integer (n : Int)
  | float (x : Binary64)
  | string (s : String)
  | sequence (items : List Node)
  | mapping (entries : List (Node × Node))
  | tagged (tag : String) (node : Node)

namespace Node

mutual

/-- Equality of nodes: all numbers that are none count as one, an integer is no floating point
number, and the order of the entries of a mapping does not matter. -/
def same : Node → Node → Bool
  | null, null => true
  | boolean a, boolean b => a == b
  | integer m, integer n => m == n
  | float x, float y => x.equals y || (x == .nan && y == .nan)
  | string s, string t => s == t
  | sequence xs, sequence ys => sameItems xs ys
  | mapping xs, mapping ys => xs.length == ys.length && sameEntries xs ys
  | tagged s x, tagged t y => s == t && same x y
  | _, _ => false

def sameItems : List Node → List Node → Bool
  | [], [] => true
  | x :: xs, y :: ys => same x y && sameItems xs ys
  | _, _ => false

def sameEntries : List (Node × Node) → List (Node × Node) → Bool
  | [], _ => true
  | (key, node) :: rest, ys =>
    (ys.any fun entry => same key entry.1 && same node entry.2) && sameEntries rest ys

end

/-- The text of a truth value. -/
def booleanText (b : Bool) : String := if b then "true" else "false"

/-- The text of an integer. -/
def integerText (n : Int) : String := String.ofList (Layout.intDigits n)

/-- The text of a floating point number. -/
def floatText (x : Binary64) : String := String.ofList (layout.write x)

mutual

/-- A node as messages show it. -/
def describe : Node → String
  | null => "Null"
  | boolean b => "Bool(" ++ booleanText b ++ ")"
  | integer n => "Number(" ++ integerText n ++ ")"
  | float x => "Number(" ++ floatText x ++ ")"
  | string s => "String(" ++ Quoted.quote s ++ ")"
  | sequence items => "Sequence [" ++ ", ".intercalate (describeItems items) ++ "]"
  | mapping entries => "Mapping \x7b" ++ ", ".intercalate (describeEntries entries) ++ "\x7d"
  | tagged tag node => "TaggedValue \x7b tag: !" ++ tag ++ ", value: " ++ describe node ++ " \x7d"

def describeItems : List Node → List String
  | [] => []
  | node :: rest => describe node :: describeItems rest

/-- The entries of a mapping; scalar keys are shown without their kind. -/
def describeEntries : List (Node × Node) → List String
  | [] => []
  | (key, node) :: rest =>
    let name := match key with
      | boolean b => booleanText b
      | integer n => integerText n
      | float x => floatText x
      | string s => Quoted.quote s
      | key => describe key
    (name ++ ": " ++ describe node) :: describeEntries rest

end

/-- The name of the entry that a key stands for, or the key itself, without tags, if it stands for
none. -/
def entryName : Node → Except Node String
  | null => .ok "null"
  | boolean b => .ok (booleanText b)
  | integer n => .ok (integerText n)
  | float x => .ok (floatText x)
  | string s => .ok s
  | tagged _ node => entryName node
  | node => .error node

mutual

/-- The document value of a node, or the first key in it that names no entry. Tags are dropped, and
of entries of one name the first place and the last value count. -/
def toValue : Node → Except Node Value
  | null => .ok .null
  | boolean b => .ok (.boolean b)
  | integer n => .ok (Literal.ofInt n).toValue
  | float x => .ok (.float x)
  | string s => .ok (.string s)
  | sequence items => (toItems items).map Value.sequence
  | mapping entries => (toFields entries).map fun fields => Value.mapping (Fields.ofList fields)
  | tagged _ node => toValue node

def toItems : List Node → Except Node (List Value)
  | [] => .ok []
  | node :: rest => do
    let v ← toValue node
    return v :: (← toItems rest)

def toFields : List (Node × Node) → Except Node (List (String × Value))
  | [] => .ok []
  | (key, node) :: rest => do
    let name ← entryName key
    let v ← toValue node
    return (name, v) :: (← toFields rest)

end

example : (mapping [(sequence [integer 1, null], tagged "t" (string "é\n"))]).describe =
    "Mapping \x7bSequence [Number(1), Null]: "
      ++ "TaggedValue \x7b tag: !t, value: String(\"é\\n\") \x7d\x7d" := by
  decide +kernel

example : same (mapping [(null, integer 1), (float .nan, null)])
    (mapping [(float .nan, null), (null, integer 1)]) = true := by
  decide +kernel

end Node

end DocMatch.Yaml
