import DocMatch.Command.Help
import DocMatch.Emission
import DocMatch.Interchange.Encode
import DocMatch.Json.Printer

/-!
Running the program: a command line, the files it names and the standard input give an exit code and
two texts. A result goes to the first text; what failed goes to the second, line by line:

    good: eth2                                  standard output
    bad: … mtu does not exist                   standard error, exit code 1
    1 matcher(s) failed
-/

namespace DocMatch.Command

/-- Where the program runs: how files and the standard input are read. There is no standard input
when it is a terminal. -/
structure Surroundings (m : Type → Type) where
  readFile : String → m (Except FileError String)
  readInput : m (Except FileError (Option String))

/-- What the program leaves behind. -/
structure Outcome where
  code : Nat
  output : String
  errors : String

namespace Outcome

/-- All went well. -/
def success (output : String) : Outcome := ⟨0, output, ""⟩

/-- There is no result. -/
def problem (p : Problem) : Outcome := ⟨1, "", p.message ++ "\n"⟩

/-- The command line is wrong. -/
def usage (e : UsageError) : Outcome :=
  ⟨2, "", e.message ++ "\n\nFor more information, try '--help'.\n"⟩

end Outcome

/-- A text that ends with a line break. -/
def endLine (s : String) : String := if s.toList.getLast? = some '\n' then s else s ++ "\n"

/-- The pipeline of an expression, as the command `check` takes it. -/
def checkExpression (expression : String) : Except Problem Pipeline :=
  (Pipeline.parse expression).mapError Problem.expression

/-- A tree as JSON text. -/
def renderJson (pretty : Bool) (j : Json) : String := if pretty then j.toPrettyText else j.toText

/-- Resolved values as a text of an output format. -/
def render (settings : EmitSettings) (resolved : Fields Value) : String :=
  let j := (Value.mapping resolved).toJson
  match settings.output with
  | .json => renderJson settings.pretty j
  | .yaml => Yaml.toText j

/-- The line of a matcher that failed. -/
def failureLine (name : String) (e : EvalError) : String := name ++ ": " ++ e.message ++ "\n"

/-- What an emission leaves behind. Values are printed even when matchers failed. -/
def Outcome.ofEmission (settings : EmitSettings) (e : Emission) : Outcome :=
  let output := endLine (render settings e.resolved)
  if e.failures.isEmpty then .success output
  else
    ⟨1, output,
      String.join (e.failures.map fun failure => failureLine failure.1 failure.2)
        ++ (Problem.failed e.failures.length).message ++ "\n"⟩

/-- The texts that the command `emit` starts from: first the matchers are read, then the
document. -/
def EmitSettings.request {m : Type → Type} [Monad m] (settings : EmitSettings)
    (s : Surroundings m) : ExceptT FileError m EmissionRequest := do
  let matchers ← ExceptT.mk (s.readFile settings.matchers)
  let (input, guess) ← match settings.input with
    | some path => do
      let text ← ExceptT.mk (s.readFile path)
      pure (some text, Format.ofPath path)
    | none => do
      let text? ← ExceptT.mk s.readInput
      pure (text?, Format.yaml)
  return {
    matchers
    matchersFormat := Format.ofPath settings.matchers
    input
    inputFormat := settings.format.getD guess
    names := settings.names
    keepGoing := settings.keepGoing }

/-- Runs the command `emit`. -/
def runEmit {m : Type → Type} [Monad m] (settings : EmitSettings) (s : Surroundings m) :
    m Outcome := do
  match ← (settings.request s).run with
  | .error e => return .problem (.file e)
  | .ok request =>
    match request.run with
    | .error p => return .problem p
    | .ok emission => return .ofEmission settings emission

/-- Runs a request. -/
def Request.run {m : Type → Type} [Monad m] (request : Request) (s : Surroundings m) : m Outcome :=
  match request with
  | .check expression pretty =>
    match checkExpression expression with
    | .error p => pure (.problem p)
    | .ok pipeline => pure (.success (endLine (renderJson pretty pipeline.encode)))
  | .emit settings => runEmit settings s
  | .help topic => pure (.success topic.text)
  | .version => pure (.success versionText)

/-- Runs a command line. -/
def run {m : Type → Type} [Monad m] (s : Surroundings m) (words : List String) : m Outcome :=
  match Request.read words with
  | .error e => pure (.usage e)
  | .ok request => request.run s

end DocMatch.Command
