import DocMatch.Interchange.Encode
import DocMatch.Json.Fault

/-!
Decoding the interchange form. A draft is walked through in reading order, and the first thing wrong
is reported: an operator where it stands, and a step, an argument or a stage as soon as all of it
has been read. What is no interchange form at all (broken text, a value of another type, a field
twice) is a fault of the text.

Each of the four objects may also be written as an array of its fields in order. Fields of other
names are passed over.
-/

namespace DocMatch

/-- What makes a well-formed tree no pipeline. -/
inductive EncodingError
  | ambiguousStep | emptyStep | ambiguousArgument | emptyArgument | emptyPath
  | argumentCount (n : Nat)
  | unknownOperator (code : Nat)
  deriving DecidableEq

def EncodingError.message : EncodingError → String
  | ambiguousStep => "step cannot contain both index and identifier"
  | emptyStep => "step must contain an index or an identifier"
  | ambiguousArgument => "argument must contain exactly one of num, string or path"
  | emptyArgument => "argument must contain a num, a string or a path"
  | emptyPath => "argument path cannot be empty"
  | argumentCount n =>
    "expression takes one or two arguments, got " ++ String.ofList (Layout.natDigits n)
  | unknownOperator code => "unknown operator code " ++ String.ofList (Layout.natDigits code)

/-- Why a text could not be decoded. -/
inductive DecodeError
  | text (fault : JsonFault)
  | encoding (e : EncodingError)
  deriving DecidableEq

/-- The result of decoding. -/
abbrev Decoding := Except DecodeError

namespace Decode

def fail {α : Type} (fault : JsonFault) : Decoding α := .error (.text fault)

/-- A result whose error is a fault of the text. -/
def ofFault {α : Type} : Except JsonFault α → Decoding α
  | .ok a => .ok a
  | .error fault => .error (.text fault)

/-- A value that may be `null`, which is the same as absent. -/
def optional {α : Type} (decode : Draft → Decoding α) : Draft → Decoding (Option α)
  | .null => .ok none
  | d => (decode d).map some

def text : Draft → Decoding String
  | .string s => ofFault (Draft.textOf s)
  | .broken => fail .malformed
  | _ => fail .wrongType

/-- A number: an integer that fits, or a floating point number. -/
def number : Draft → Decoding Literal
  | .integer n => ofFault (Draft.checkedLiteral (Literal.ofInt n))
  | .float x => ofFault (Draft.checkedLiteral (.float x))
  | .broken => fail .malformed
  | _ => fail .wrongType

/-- A position: an integer of 64 bits without sign. -/
def position : Draft → Decoding UInt64
  | .integer n => if 0 ≤ n ∧ n < UInt64.size then .ok (UInt64.ofNat n.toNat) else fail .outOfRange
  | .broken => fail .malformed
  | _ => fail .wrongType

/-- An operator: its number has eight bits. -/
def operator : Draft → Decoding Operator
  | .integer n =>
    if 0 ≤ n ∧ n < UInt8.size then
      match Operator.ofCode? n.toNat with
      | some op => .ok op
      | none => .error (.encoding (.unknownOperator n.toNat))
    else fail .outOfRange
  | .broken => fail .malformed
  | _ => fail .wrongType

/-- The items of an array one level down. -/
def items {α : Type} (limit : Nat) (decode : Nat → Draft → Decoding α) : Draft → Decoding (List α)
  | .array items => if limit = 0 then fail .tooDeep else items.mapM (decode (limit - 1))
  | .broken => fail .malformed
  | _ => fail .wrongType

/-- Reads members in order. A field may stand only once; what `field` does not know is passed over,
but it has to be well-formed. -/
def members {σ : Type} (field : String → Option (Draft → σ → Decoding σ)) :
    σ → List (Option String × Draft) → Decoding σ
  | state, [] => .ok state
  | _, (none, .broken) :: _ => fail .malformed
  | _, (none, _) :: _ => fail .unpairedSurrogate
  | state, (some name, d) :: rest =>
    match field name with
    | some read => do members field (← read d state) rest
    | none => if d.isSound then members field state rest else fail .malformed

/-- Reads the items of an array as fields in order; at the end the rest may be missing. -/
def positional {σ : Type} : List (Draft → σ → Decoding σ) → σ → List Draft → Decoding σ
  | _, state, [] => .ok state
  | [], _, _ :: _ => fail .extraItem
  | read :: reads, state, d :: rest => do positional reads (← read d state) rest

/-- Reads a field that has not been read before. -/
def once {α σ : Type} (get : σ → Option α) (set : σ → α → σ) (decode : Draft → Decoding α)
    (d : Draft) (state : σ) : Decoding σ := do
  if (get state).isSome then fail .duplicateField
  return set state (← decode d)

/-- Reads an object through its named fields, in either of its two forms, one level down. -/
def record {σ : Type} (limit : Nat) (fields : List (String × (Draft → σ → Decoding σ)))
    (start : σ) : Draft → Decoding σ
  | .object ms => if limit = 0 then fail .tooDeep else members (Fields.get? · fields) start ms
  | .array items =>
    if limit = 0 then fail .tooDeep else positional (fields.map Prod.snd) start items
  | .broken => fail .malformed
  | _ => fail .wrongType

/-- The fields of a step that have been read; a field read as `null` counts as read. -/
structure StepFields where
  idx : Option (Option UInt64) := none
  ident : Option (Option String) := none

/-- A step has one of its two fields. -/
def StepFields.toStep (f : StepFields) : Decoding Step :=
  match f.idx.join, f.ident.join with
  | some i, none => .ok (.index i)
  | none, some name => .ok (.key name)
  | some _, some _ => .error (.encoding .ambiguousStep)
  | none, none => .error (.encoding .emptyStep)

def step (limit : Nat) (d : Draft) : Decoding Step := do
  let f ← record limit
    [("idx", once StepFields.idx (fun f a => { f with idx := some a }) (optional position)),
      ("ident", once StepFields.ident (fun f a => { f with ident := some a }) (optional text))]
    {} d
  f.toStep

/-- The fields of an argument that have been read. -/
structure ArgumentFields where
  num : Option (Option Literal) := none
  string : Option (Option String) := none
  path : Option (Option Path) := none

/-- An argument has one of its three fields, and a path has steps. -/
def ArgumentFields.toArgument (f : ArgumentFields) : Decoding Argument :=
  match f.num.join, f.string.join, f.path.join with
  | some l, none, none => .ok (.literal l)
  | none, some s, none => .ok (.literal (.string s))
  | none, none, some p => if p.isEmpty then .error (.encoding .emptyPath) else .ok (.path p)
  | none, none, none => .error (.encoding .emptyArgument)
  | _, _, _ => .error (.encoding .ambiguousArgument)

def argument (limit : Nat) (d : Draft) : Decoding Argument := do
  let f ← record limit
    [("num", once ArgumentFields.num (fun f a => { f with num := some a }) (optional number)),
      ("string", once ArgumentFields.string (fun f a => { f with string := some a })
        (optional text)),
      ("path", once ArgumentFields.path (fun f a => { f with path := some a })
        (optional (items (limit - 1) step)))]
    {} d
  f.toArgument

/-- The fields of a stage that have been read. -/
structure StageFields where
  op : Option Operator := none
  args : Option (List Argument) := none

/-- A stage has one or two arguments; without a number its operator is the filter. -/
def StageFields.toStage (f : StageFields) : Decoding Stage :=
  let op := f.op.getD .filter
  match f.args with
  | none => fail .missingField
  | some [left] => .ok ⟨op, left, none⟩
  | some [left, right] => .ok ⟨op, left, some right⟩
  | some args => .error (.encoding (.argumentCount args.length))

def stage (limit : Nat) (d : Draft) : Decoding Stage := do
  let f ← record limit
    [("op", once StageFields.op (fun f a => { f with op := some a }) operator),
      ("args", once StageFields.args (fun f a => { f with args := some a })
        (items (limit - 1) argument))]
    {} d
  f.toStage

/-- The fields of a pipeline that have been read. -/
structure PipelineFields where
  expression : Option Stage := none
  pipe : Option (Option Pipeline) := none

/-- A pipeline has a stage, and perhaps a pipeline after it. -/
def PipelineFields.toPipeline (f : PipelineFields) : Decoding Pipeline :=
  match f.expression, f.pipe.join with
  | some first, some rest => .ok ⟨first, rest.stages⟩
  | some first, none => .ok ⟨first, []⟩
  | none, _ => fail .missingField

/-- A pipeline whose tree is at most `limit` deep. -/
def pipeline : Nat → Draft → Decoding Pipeline
  | 0, .object _ | 0, .array _ => fail .tooDeep
  | 0, .broken => fail .malformed
  | 0, _ => fail .wrongType
  | limit + 1, d => do
    let f ← record (limit + 1)
      [("expression", once PipelineFields.expression (fun f a => { f with expression := some a })
          (stage limit)),
        ("pipe", once PipelineFields.pipe (fun f a => { f with pipe := some a })
          (optional (pipeline limit)))]
      {} d
    f.toPipeline

/-- Named pipelines; a repeated name keeps its first place and its last pipeline. -/
def namedPipelines (limit : Nat) :
    List (Option String × Draft) → Decoding (List (String × Pipeline))
  | [] => .ok []
  | (none, .broken) :: _ => fail .malformed
  | (name, d) :: rest => do
    let name ← ofFault (Draft.textOf name)
    let p ← pipeline limit d
    return (name, p) :: (← namedPipelines limit rest)

def matchers (limit : Nat) : Draft → Decoding Matchers
  | .object ms =>
    if limit = 0 then fail .tooDeep else (namedPipelines (limit - 1) ms).map Fields.ofList
  | .broken => fail .malformed
  | _ => fail .wrongType

/-- Decodes a JSON text, whose numbers are rounded once; nothing may follow the tree. -/
def ofText {α : Type} (decode : Nat → Draft → Decoding α) (text : String) : Decoding α := do
  let (draft, rest) := Draft.read text.toList
  let a ← decode nestingLimit draft
  if Draft.endsWell rest then return a else fail .trailing

end Decode

end DocMatch
