import DocMatch.Command.Words
import DocMatch.Document

/-!
Requests: what a command line asks for. Its words are taken in order, and the first that asks for
help or for the version, or that is wrong, decides; what is missing shows at the end.

    matchers [-v] check [-p] [-v] EXPRESSION
    matchers [-v] emit -m FILE [-i FILE] [-f FORMAT] [-n NAME]… [-o FORMAT] [-p] [-k] [-v]
    matchers [-v] help [COMMAND]
-/

namespace DocMatch.Command

/-- What help can be asked for. -/
inductive Topic
  | program | check | emit | help
  deriving DecidableEq

/-- What the command `emit` is told. -/
structure EmitSettings where
  matchers : String
  input : Option String
  format : Option Format
  names : List String
  output : Format
  pretty : Bool
  keepGoing : Bool
  deriving DecidableEq

/-- What a command line asks for. -/
inductive Request
  | check (expression : String) (pretty : Bool)
  | emit (settings : EmitSettings)
  | help (topic : Topic)
  | version
  deriving DecidableEq

/-- The options that every command has, or the program itself. -/
def helpSwitch : Switch := ⟨'h', "help", none, false, false, fun _ => true, "Print help"⟩

def versionSwitch : Switch := ⟨'V', "version", none, false, false, fun _ => true, "Print version"⟩

def verboseSwitch : Switch :=
  ⟨'v', "verbose", none, false, false, fun _ => true,
    "Log resolution steps to stderr (same as RUST_LOG=debug)"⟩

def programSwitches : List Switch := [verboseSwitch, helpSwitch, versionSwitch]

def checkSwitches : List Switch :=
  [⟨'p', "pretty", none, false, false, fun _ => true, "Pretty-print the AST"⟩, verboseSwitch,
    helpSwitch]

/-- Whether a text names an output format; only small letters do. -/
def isOutputName (s : String) : Bool := s = "json" || s = "yaml"

def emitSwitches : List Switch :=
  [⟨'m', "matchers", some "MATCHERS", true, false, (· ≠ ""),
      "File mapping matcher names to expressions"⟩,
    verboseSwitch,
    ⟨'i', "input", some "INPUT", false, false, (· ≠ ""),
      "Document file (reads from stdin if not provided)"⟩,
    ⟨'f', "format", some "FORMAT", false, false, fun s => (Format.ofName s).isOk,
      "Document format, guessed from the file extension by default"⟩,
    ⟨'n', "name", some "NAMES", false, true, fun _ => true, "Only resolve the named matchers"⟩,
    ⟨'o', "output", some "OUTPUT", false, false, isOutputName,
      "Output format [default: yaml] [possible values: json, yaml]"⟩,
    ⟨'p', "pretty", none, false, false, fun _ => true, "Pretty-print JSON output"⟩,
    ⟨'k', "keep-going", none, false, false, fun _ => true,
      "Keep resolving other matchers when one fails"⟩,
    helpSwitch]

/-- What has been given so far: options by letter with their values, and operands, each in order. -/
structure Given where
  options : List (Char × String)
  operands : List String

namespace Given

/-- Nothing has been given. -/
def none : Given := ⟨[], []⟩

/-- Whether an option has been given. -/
def has (g : Given) (letter : Char) : Bool := g.options.any (·.1 = letter)

/-- The values of an option. -/
def values (g : Given) (letter : Char) : List String :=
  (g.options.filter (·.1 = letter)).map Prod.snd

/-- The value of an option that is given at most once. -/
def value? (g : Given) (letter : Char) : Option String := (g.values letter).head?

end Given

/-- Why no more words are taken. -/
inductive Stop
  | help
  | version
  | usage (e : UsageError)

/-- Takes one mention; at most `operands` operands are taken. -/
def take (operands : Nat) (g : Given) : Mention → Except Stop Given
  | .fault e => .error (.usage e)
  | .operand word =>
    if g.operands.length < operands then .ok { g with operands := g.operands ++ [word] }
    else .error (.usage (.unexpectedOperand word))
  | .option s value =>
    if s.letter = helpSwitch.letter then .error .help
    else if s.letter = versionSwitch.letter then .error .version
    else if !s.repeatable && g.has s.letter then .error (.usage (.repeated s.name))
    else if !s.accepts (value.getD "") then
      .error (.usage (.invalidValue s.name (value.getD "")))
    else .ok { g with options := g.options ++ [(s.letter, value.getD "")] }

/-- What the words of a command give. -/
def gather (switches : List Switch) (operands : Nat) (words : List String) : Except Stop Given :=
  (readWords switches words).foldlM (take operands) Given.none

/-- The request that gathering ends with early. -/
def Stop.request (topic : Topic) : Stop → Except UsageError Request
  | .help => .ok (.help topic)
  | .version => .ok .version
  | .usage e => .error e

/-- The request of the command `check`. -/
def readCheck (words : List String) : Except UsageError Request :=
  match gather checkSwitches 1 words with
  | .error stop => stop.request .check
  | .ok g =>
    match g.operands with
    | [] => .error (.missing "<EXPRESSION>")
    | expression :: _ => .ok (.check expression (g.has 'p'))

/-- The request of the command `emit`. -/
def readEmit (words : List String) : Except UsageError Request :=
  match gather emitSwitches 0 words with
  | .error stop => stop.request .emit
  | .ok g =>
    match g.value? 'm' with
    | none => .error (.missing "--matchers <MATCHERS>")
    | some matchers =>
      .ok (.emit {
        matchers
        input := g.value? 'i'
        format := (g.value? 'f').bind fun s => (Format.ofName s).toOption
        names := g.values 'n'
        output := if g.value? 'o' = some "json" then .json else .yaml
        pretty := g.has 'p'
        keepGoing := g.has 'k' })

/-- The topic that words name; no command has commands of its own. -/
def readTopic : List String → Except UsageError Request
  | [] => .ok (.help .program)
  | word :: rest =>
    let topic? := if word = "check" then some Topic.check
      else if word = "emit" then some .emit
      else if word = "help" then some .help
      else none
    match topic?, rest with
    | some topic, [] => .ok (.help topic)
    | some _, other :: _ => .error (.unknownCommand other)
    | none, _ => .error (.unknownCommand word)

/-- The request of a command by its name. -/
def readCommand (name : String) (words : List String) : Except UsageError Request :=
  if name = "check" then readCheck words
  else if name = "emit" then readEmit words
  else if name = "help" then readTopic words
  else .error (.unknownCommand name)

/-- What a command line asks for. The options of the program stand before the name of the
command. -/
def Request.read (words : List String) : Except UsageError Request :=
  let (before, after) := words.span isOptionWord
  match gather programSwitches 0 before with
  | .error stop => stop.request .program
  | .ok _ =>
    match after with
    | [] => .error .missingCommand
    | name :: rest =>
      if before.contains "--" then .error (.unexpectedOperand name) else readCommand name rest

end DocMatch.Command
