import DocMatch.Value.Walk

/-!
Running stages. A path that starts with the word `matchers` and a name is followed on the value of
that matcher, any other path on what the stage is given. How a matcher's value is found is left
open: stages run over any `lookup`, and over any effect that can fail with an error.

    matchers.gw.routes.0.dev      lookup gw,  then follow  routes.0.dev  on its value
    interfaces.name               follow  interfaces.name  on the input of the stage
-/

namespace DocMatch

/-- Why a stage has no value. -/
inductive EvalError
  | leftArgumentNotPath
  | walk (e : WalkError)
  | unsupportedLiteral (path : Path) (found : Shape)
  | reservedWord
  | unknownMatcher (name : String)
  | cycle (chain : List String)
  | notImplemented (operator : Operator)
  deriving DecidableEq

/-- The name of an operator. -/
def Operator.name : Operator → String
  | filter => "filter"
  | replace => "replace"
  | merge => "merge"

def EvalError.message : EvalError → String
  | leftArgumentNotPath => "bad filter expression: left argument must be a path"
  | walk e => e.message
  | unsupportedLiteral path found =>
    "path " ++ path.text ++ " resolved to a " ++ found.name
      ++ ", only strings and numbers can be compared or assigned"
  | reservedWord => "bad path expression: matchers must be followed by a matcher name"
  | unknownMatcher name => "unknown matcher " ++ name
  | cycle chain => "matcher cycle detected: " ++ String.intercalate " -> " chain
  | notImplemented operator => operator.name ++ " operator is not implemented"

/-- Where a path is followed, and the steps to follow there. -/
inductive Source
  | input (path : Path)
  | matcher (name : String) (path : Path)
  | reserved
  deriving DecidableEq

/-- The word that starts a reference to a matcher. -/
def referenceWord : String := "matchers"

/-- Where a path is followed. The reserved word needs a name after it. -/
def Path.source : Path → Source
  | [] => .input []
  | step :: path =>
    if step = .key referenceWord then
      match path with
      | .key name :: rest => .matcher name rest
      | _ => .reserved
    else .input (step :: path)

/-- A bare path to a scalar selects that scalar; any other filter keeps a branch. -/
def Value.select (v : Value) (path : Path) (l? : Option Literal) : Except WalkError Value :=
  match l?, v.navigate path with
  | none, .ok found => if found.isScalar then .ok found else v.filter path none
  | _, _ => v.filter path l?

/-- The path that a stage works on. A stage that merges has none, nor one whose left argument is a
literal. -/
def Stage.target (stage : Stage) : Except EvalError Path :=
  match stage.operator, stage.left with
  | .merge, _ => .error (.notImplemented .merge)
  | _, .literal _ => .error .leftArgumentNotPath
  | _, .path p => .ok p

/-- What an operator makes of a value, along the steps that are left to follow there. A path with no
steps left selects all. -/
def Operator.apply (operator : Operator) (l? : Option Literal) (v : Value) (path : Path) :
    Except WalkError Value :=
  if path.isEmpty then .ok v
  else if operator = .replace then v.replace path l?
  else v.select path l?

section

variable {m : Type → Type} [Monad m] [MonadExceptOf EvalError m]

/-- The result of a walk, within an evaluation. -/
def EvalError.ofWalk (r : Except WalkError Value) : m Value :=
  match r with
  | .ok v => pure v
  | .error e => throw (.walk e)

/-- The value that a path is followed on, and the steps to follow there. -/
def Path.locate (lookup : String → m Value) (input : Value) (path : Path) : m (Value × Path) :=
  match path.source with
  | .input rest => pure (input, rest)
  | .matcher name rest => do return (← lookup name, rest)
  | .reserved => throw .reservedWord

/-- The literal that a right argument stands for. -/
def Argument.evaluate (lookup : String → m Value) (input : Value) : Argument → m Literal
  | .literal l => pure l
  | .path p => do
    let (v, rest) ← Path.locate lookup input p
    let found ← EvalError.ofWalk (v.navigate rest)
    match found.toLiteral? with
    | some l => pure l
    | none => throw (.unsupportedLiteral p found.shape)

/-- The literal that the right argument of a stage stands for, if it has one. -/
def Stage.literal? (lookup : String → m Value) (stage : Stage) (input : Value) :
    m (Option Literal) :=
  match stage.right with
  | none => pure none
  | some right => do return some (← right.evaluate lookup input)

/-- Runs a stage: first its right argument is evaluated, then its path is located, and then the
operator is applied there. -/
def Stage.run (lookup : String → m Value) (stage : Stage) (input : Value) : m Value :=
  match stage.target with
  | .error e => throw e
  | .ok p => do
    let l? ← stage.literal? lookup input
    let (v, rest) ← Path.locate lookup input p
    EvalError.ofWalk (stage.operator.apply l? v rest)

/-- Runs stages from left to right, each on what the one before it made. -/
def runStages (lookup : String → m Value) : List Stage → Value → m Value
  | [], v => pure v
  | stage :: rest, v => do runStages lookup rest (← stage.run lookup v)

/-- Runs a pipeline on a document. -/
def Pipeline.run (lookup : String → m Value) (p : Pipeline) (document : Value) : m Value :=
  runStages lookup p.stages document

end

end DocMatch
