import DocMatch.Value.Basic

/-!
Pipelines: what an expression means once it has been read. A pipeline is one or more stages; each
stage applies an operator to a path, or to a path and what to compare with or to set.

    stage    interfaces.name == "eth1"        a path, an operator and a second argument
    stage    interfaces                       a path alone; its operator is the filter
-/

namespace DocMatch

/-- One step of a path: into a sequence by position, or into a mapping by name. -/
inductive Step
  | index (i : UInt64)
  | key (name : String)
  deriving DecidableEq

/-- A path is followed from left to right. -/
abbrev Path := List Step

namespace Step

/-- The text of a step. -/
def text : Step → String
  | index i => String.ofList (Layout.natDigits i.toNat)
  | key name => name

/-- The name of a step into a mapping. -/
def key? : Step → Option String
  | key name => some name
  | index _ => none

end Step

/-- The text of a path: its steps with dots between them. -/
def Path.text (path : Path) : String := String.intercalate "." (path.map Step.text)

/-- An argument of a stage. -/
inductive Argument
  | literal (l : Literal)
  | path (p : Path)
  deriving DecidableEq

/-- What a stage does with its path. -/
inductive Operator
  | filter | replace | merge
  deriving DecidableEq

/-- The mark of an operator. -/
def Operator.symbol : Operator → String
  | filter => "=="
  | replace => "="
  | merge => "+"

/-- A stage: an operator, its left argument and perhaps a right one. -/
structure Stage where
  operator : Operator
  left : Argument
  right : Option Argument
  deriving DecidableEq

/-- The arguments of a stage, left before right. -/
def Stage.arguments (stage : Stage) : List Argument := stage.left :: stage.right.toList

/-- One or more stages; each works on what the stage before it made. -/
structure Pipeline where
  first : Stage
  rest : List Stage
  deriving DecidableEq

/-- The stages from left to right. -/
def Pipeline.stages (p : Pipeline) : List Stage := p.first :: p.rest

/-- Named pipelines in the order in which they were declared. -/
abbrev Matchers := Fields Pipeline

end DocMatch
