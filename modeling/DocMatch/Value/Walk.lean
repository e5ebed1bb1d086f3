import DocMatch.Expr.Pipeline

/-!
Walking along a path. A walk that edits goes down every step but the last, edits the value it
reached there, and wraps the result back up in the steps it came by; entries and elements beside the
path are dropped.

    routes.running.destination == "0.0.0.0/0"

    {routes: {running: [r₁, r₂], config: […]}, interfaces: […]}     walk down to [r₁, r₂]
    {routes: {running: [r₁]}}                                       keep r₁, wrap up again

The last step names a field of every element of the sequence that was reached: a filter keeps the
elements whose field equals the literal, a replacement sets the field in all of them.
-/

namespace DocMatch

/-- Why a walk ended early. -/
inductive WalkError
  | emptyPath
  | notFound (name : String)
  | outOfRange (index : UInt64) (length : Nat)
  | wrongShape (step : Step) (expected found : Shape)
  | terminalIndex (index : UInt64)
  deriving DecidableEq

def WalkError.message : WalkError → String
  | emptyPath => "bad path expression: path cannot be empty"
  | notFound name => "bad path expression: " ++ name ++ " does not exist"
  | outOfRange index length =>
    "bad path expression: index " ++ (Step.index index).text
      ++ " out of range for sequence of length " ++ String.ofList (Layout.natDigits length)
  | wrongShape step expected found =>
    "bad path expression: cannot walk " ++ step.text ++ " through a " ++ found.name
      ++ ", expected a " ++ expected.name
  | terminalIndex index =>
    "bad path expression: terminal step only accepts identifier, got index "
      ++ (Step.index index).text

namespace Value

/-- Takes one step: a name leads into a mapping, a position into a sequence. -/
def descend : Value → Step → Except WalkError Value
  | mapping fields, .key name =>
    match Fields.get? name fields with
    | some v => .ok v
    | none => .error (.notFound name)
  | sequence items, .index i =>
    match items[i.toNat]? with
    | some v => .ok v
    | none => .error (.outOfRange i items.length)
  | v, .key name => .error (.wrongShape (.key name) .mapping v.shape)
  | v, .index i => .error (.wrongShape (.index i) .sequence v.shape)

/-- Follows every step of a path. -/
def navigate (v : Value) : Path → Except WalkError Value
  | [] => .ok v
  | step :: path => do navigate (← v.descend step) path

/-- A value inside the one-entry shape that a step leads into. -/
def wrap : Step → Value → Value
  | .key name, v => mapping [(name, v)]
  | .index _, v => sequence [v]

/-- Walks down all steps but the last, edits what is there, and wraps the result up again. -/
def walk (edit : Step → Value → Except WalkError Value) (v : Value) : Path → Except WalkError Value
  | [] => .error .emptyPath
  | [last] => edit last v
  | step :: next :: path => do
    let child ← v.descend step
    return wrap step (← walk edit child (next :: path))

/-- The field named by the last step of a path. -/
def terminalField : Step → Except WalkError String
  | .key name => .ok name
  | .index i => .error (.terminalIndex i)

/-- The elements of a sequence whose fields are asked for. -/
def elements (field : String) : Value → Except WalkError (List Value)
  | sequence items => .ok items
  | v => .error (.wrongShape (.key field) .sequence v.shape)

/-- The entries of an element whose field is asked for. -/
def entries (field : String) : Value → Except WalkError (Fields Value)
  | mapping fields => .ok fields
  | v => .error (.wrongShape (.key field) .mapping v.shape)

/-- The elements whose field equals the literal. Every element must have the field. -/
def keep (field : String) (l : Literal) : List Value → Except WalkError (List Value)
  | [] => .ok []
  | item :: rest => do
    let fields ← entries field item
    match Fields.get? field fields with
    | none => .error (.notFound field)
    | some found =>
      let kept ← keep field l rest
      return if found.matchesLiteral l then item :: kept else kept

/-- The elements with their field set to the literal. Every element must be a mapping. -/
def assign (field : String) (l : Literal) : List Value → Except WalkError (List Value)
  | [] => .ok []
  | item :: rest => do
    let fields ← entries field item
    return mapping (Fields.put field l.toValue fields) :: (← assign field l rest)

/-- Edits the elements of a sequence through the field that the last step names; without a literal
there is nothing to do. -/
def editElements (edit : String → Literal → List Value → Except WalkError (List Value))
    (l? : Option Literal) (last : Step) (v : Value) : Except WalkError Value :=
  match l? with
  | none => .ok v
  | some l => do
    let field ← terminalField last
    let items ← elements field v
    return sequence (← edit field l items)

/-- Selects the elements whose terminal field equals the literal; without one, all of what the walk
reached. -/
def filter (v : Value) (path : Path) (l? : Option Literal) : Except WalkError Value :=
  v.walk (editElements keep l?) path

/-- Sets the terminal field of every element to the literal; without one, the walk alone is done. -/
def replace (v : Value) (path : Path) (l? : Option Literal) : Except WalkError Value :=
  v.walk (editElements assign l?) path

end Value

end DocMatch
