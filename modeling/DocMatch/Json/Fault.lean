import DocMatch.Json.Draft

/-!
What can be wrong with a JSON text, and reading a document value from one.
-/

namespace DocMatch

/-- What is wrong with a JSON text, or with the tree that it writes. -/
inductive JsonFault
  | malformed | trailing | tooDeep | unpairedSurrogate | outOfRange | wrongType | duplicateField
  | missingField | extraItem
  deriving DecidableEq

def JsonFault.message : JsonFault → String
  | malformed => "malformed text"
  | trailing => "trailing characters"
  | tooDeep => "nesting too deep"
  | unpairedSurrogate => "unpaired surrogate"
  | outOfRange => "number out of range"
  | wrongType => "value of an unexpected type"
  | duplicateField => "duplicate field"
  | missingField => "missing field"
  | extraItem => "too many items"

/-- The deepest nesting of arrays and objects that is read from a text. -/
def nestingLimit : Nat := 127

namespace Draft

/-- A number, unless it is too large. -/
def checkedLiteral : Literal → Except JsonFault Literal
  | .float x => if x.isFinite then .ok (.float x) else .error .outOfRange
  | l => .ok l

/-- The text of a string literal. -/
def textOf : Option String → Except JsonFault String
  | some s => .ok s
  | none => .error .unpairedSurrogate

mutual

/-- The document value of a draft. A repeated name keeps its first place and its last value. -/
def toValue (limit : Nat) : Draft → Except JsonFault Value
  | null => .ok .null
  | boolean b => .ok (.boolean b)
  | integer n => (checkedLiteral (Literal.ofInt n)).map Literal.toValue
  | float x => (checkedLiteral (.float x)).map Literal.toValue
  | string s => (textOf s).map Value.string
  | array items =>
    if limit = 0 then .error .tooDeep else (toItems (limit - 1) items).map Value.sequence
  | object members =>
    if limit = 0 then .error .tooDeep
    else (toFields (limit - 1) members).map fun fields => Value.mapping (Fields.ofList fields)
  | broken => .error .malformed

def toItems (limit : Nat) : List Draft → Except JsonFault (List Value)
  | [] => .ok []
  | d :: rest => do
    let v ← toValue limit d
    return v :: (← toItems limit rest)

def toFields (limit : Nat) : List (Option String × Draft) → Except JsonFault (List (String × Value))
  | [] => .ok []
  | (name, d) :: rest => do
    let name ← textOf name
    let v ← toValue limit d
    return (name, v) :: (← toFields limit rest)

end

mutual

/-- Whether no leaf is broken. -/
def isSound : Draft → Bool
  | broken => false
  | array items => areSound items
  | object members => membersSound members
  | _ => true

def areSound : List Draft → Bool
  | [] => true
  | d :: rest => d.isSound && areSound rest

def membersSound : List (Option String × Draft) → Bool
  | [] => true
  | (_, d) :: rest => d.isSound && membersSound rest

end

/-- The members of an object, if all of them are strings. -/
def toTexts : List (Option String × Draft) → Except JsonFault (List (String × String))
  | [] => .ok []
  | (_, broken) :: _ => .error .malformed
  | (name, string s) :: rest => do
    let name ← textOf name
    let s ← textOf s
    return (name, s) :: (← toTexts rest)
  | _ => .error .wrongType

end Draft

/-- The members of a JSON text that is an object of strings. -/
def Json.textMembers (text : String) : Except JsonFault (List (String × String)) := do
  match Draft.read text.toList with
  | (.object members, rest) =>
    let texts ← Draft.toTexts members
    if Draft.endsWell rest then return texts else throw .trailing
  | (.broken, _) => throw .malformed
  | _ => throw .wrongType

/-- The document value written by a JSON text. -/
def Value.ofJsonText (text : String) (rounding : Rounding := .once) : Except JsonFault Value := do
  let (draft, rest) := Draft.read text.toList rounding
  let v ← draft.toValue nestingLimit
  if Draft.endsWell rest then return v else throw .trailing

end DocMatch
