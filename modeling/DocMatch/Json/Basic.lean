import DocMatch.Value.Basic

/-!
Trees as they are written: what JSON and YAML output have in common. Numbers are integers of any
size or floating point numbers; members keep their order.
-/

namespace DocMatch

/-- A tree to be written. -/
inductive Json
  | null
  | boolean (b : Bool)
  | integer (n : Int)
  | float (x : Binary64)
  | string (s : String)
  | array (items : List Json)
  | object (members : List (String × Json))

namespace Value

mutual

/-- A document value as a tree. -/
def toJson : Value → Json
  | null => .null
  | boolean b => .boolean b
  | integer n => .integer n.toInt
  | float x => .float x
  | string s => .string s
  | sequence items => .array (itemsToJson items)
  | mapping fields => .object (fieldsToJson fields)

def itemsToJson : List Value → List Json
  | [] => []
  | v :: rest => v.toJson :: itemsToJson rest

def fieldsToJson : List (String × Value) → List (String × Json)
  | [] => []
  | (name, v) :: rest => (name, v.toJson) :: fieldsToJson rest

end

end Value

end DocMatch
