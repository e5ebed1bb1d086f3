import DocMatch.Expr.Pipeline
import DocMatch.Json.Basic

/-!
The interchange form of pipelines: trees that other tools read and write. A pipeline is nested to
the right, and what is absent is left out.

    {expression: {op: 1, args: [{path: [{ident: "a"}, {idx: 0}]}, {string: "x"}]}, pipe: {…}}

The operators are numbered 1 (filter), 2 (replace) and 3 (merge).
-/

namespace DocMatch

/-- The number of an operator. -/
def Operator.code : Operator → Nat
  | filter => 1
  | replace => 2
  | merge => 3

/-- The operator of a number; zero also means the filter. -/
def Operator.ofCode? : Nat → Option Operator
  | 0 | 1 => some .filter
  | 2 => some .replace
  | 3 => some .merge
  | _ => none

def Operator.encode (op : Operator) : Json := .integer op.code

def Step.encode : Step → Json
  | index i => .object [("idx", .integer i.toNat)]
  | key name => .object [("ident", .string name)]

def Literal.encode : Literal → String × Json
  | integer n => ("num", .integer n.toInt)
  | float x => ("num", .float x)
  | string s => ("string", .string s)

def Argument.encode : Argument → Json
  | literal l => .object [l.encode]
  | path p => .object [("path", .array (p.map Step.encode))]

def Stage.encode (stage : Stage) : Json :=
  .object [("op", stage.operator.encode), ("args", .array (stage.arguments.map Argument.encode))]

namespace Pipeline

/-- A stage with the stages after it nested inside. -/
def encodeStages (stage : Stage) : List Stage → Json
  | [] => .object [("expression", stage.encode)]
  | next :: rest => .object [("expression", stage.encode), ("pipe", encodeStages next rest)]

def encode (p : Pipeline) : Json := encodeStages p.first p.rest

end Pipeline

/-- Named pipelines, in order. -/
def Matchers.encode (matchers : Matchers) : Json := .object (matchers.mapValues Pipeline.encode)

end DocMatch
