import DocMatch.Expr.Reading
import DocMatch.Json.Fault
import DocMatch.Resolve.Stage
import DocMatch.Yaml.Node

/-!
Problems: why documents and files of matchers, or a command over them, have no result. The wording
of each begins with the part of the work that it came up in.
-/

namespace DocMatch

/-- Why a file cannot be read. -/
inductive FileError
  | notFound | notDirectory | isDirectory | notText
  | other (text : String)
  deriving DecidableEq

def FileError.message : FileError → String
  | notFound => "No such file or directory (os error 2)"
  | notDirectory => "Not a directory (os error 20)"
  | isDirectory => "Is a directory (os error 21)"
  | notText => ParseError.notTextMessage
  | other text => text

/-- Why there is no result. -/
inductive Problem
  | expression (e : ParseError)
  | matcher (e : Matchers.ReadError)
  | evaluation (e : EvalError)
  | json (fault : JsonFault)
  | yaml (fault : YamlFault)
  | file (e : FileError)
  | noInput
  | noMatchers
  | unsupportedKey (key : Yaml.Node)
  | unknownFormat (name : String)
  | failed (count : Nat)

def Problem.message : Problem → String
  | expression e => "parse error: " ++ e.message
  | matcher e => "parse error: " ++ e.message
  | evaluation e => "evaluation error: " ++ e.message
  | json fault => "invalid JSON: " ++ fault.message
  | yaml fault => "invalid YAML: " ++ fault.message
  | file e => "IO error: " ++ e.message
  | noInput => "no input provided, use --input or pipe a document to stdin"
  | noMatchers => "matchers file defines no matchers"
  | unsupportedKey key =>
    "unsupported mapping key " ++ key.describe ++ ", only scalar keys are allowed"
  | unknownFormat name => "unknown format '" ++ name ++ "', expected json or yaml"
  | failed count => String.ofList (Layout.natDigits count) ++ " matcher(s) failed"

end DocMatch
