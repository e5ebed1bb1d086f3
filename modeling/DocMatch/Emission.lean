import DocMatch.Document
import DocMatch.Resolve.Session

/-!
Emission: resolving the matchers of a file against a document, all of them or those that are asked
for, in one session. The first failure ends an emission, unless it is told to keep going; then each
matcher that was asked for has either a value or an error.

    asked for   good, bad, also, good
    resolved    good
    failures    bad, also                 with the errors, when it keeps going
-/

namespace DocMatch

/-- What an emission gives. -/
structure Emission where
  resolved : Fields Value
  failures : Fields EvalError

namespace Emission

/-- Nothing has been resolved yet. -/
def empty : Emission := ⟨[], []⟩

def withValue (e : Emission) (name : String) (v : Value) : Emission :=
  { e with resolved := e.resolved.put name v }

def withFailure (e : Emission) (name : String) (error : EvalError) : Emission :=
  { e with failures := e.failures.put name error }

end Emission

namespace Matchers

/-- Resolves names in order and adds what becomes of them. -/
def emitNames (matchers : Matchers) (document : Value) (keepGoing : Bool) :
    List String → Session → Emission → Except EvalError Emission
  | [], _, emission => .ok emission
  | name :: rest, session, emission =>
    match matchers.resolve document name session with
    | (.ok v, session) =>
      emitNames matchers document keepGoing rest session (emission.withValue name v)
    | (.error e, session) =>
      if keepGoing then
        emitNames matchers document keepGoing rest session (emission.withFailure name e)
      else .error e

/-- The names that are resolved: those asked for, or all if none is. -/
def requested (matchers : Matchers) (names : List String) : List String :=
  if names.isEmpty then matchers.names else names

/-- Resolves the names asked for in a session of their own. -/
def emit (matchers : Matchers) (document : Value) (names : List String) (keepGoing : Bool) :
    Except EvalError Emission :=
  matchers.emitNames document keepGoing (matchers.requested names) Session.empty Emission.empty

end Matchers

/-- The texts that an emission starts from, and what it is asked for. -/
structure EmissionRequest where
  matchers : String
  matchersFormat : Format
  input : Option String
  inputFormat : Format
  names : List String
  keepGoing : Bool

/-- Reads the matchers, then the document, and resolves what is asked for. The numbers of a JSON
document are rounded in steps. -/
def EmissionRequest.run (r : EmissionRequest) : Except Problem Emission := do
  let matchers ← Matchers.load r.matchersFormat r.matchers
  match r.input with
  | none => throw .noInput
  | some text =>
    let document ← Value.ofText r.inputFormat text .inSteps
    (matchers.emit document r.names r.keepGoing).mapError Problem.evaluation

end DocMatch
