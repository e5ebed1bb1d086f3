import DocMatch.Problem
import DocMatch.Yaml.Expansion

/-!
Documents and files of matchers, each in one of two formats. A document is any value; a file of
matchers names expressions, and in YAML every scalar of it counts by its text:

    gw: routes.running.destination == "0.0.0.0/0"
    first: 1                        the expression   1
-/

namespace DocMatch

/-- How a document or a file of matchers is written. -/
inductive Format
  | json | yaml
  deriving DecidableEq

namespace Format

/-- The name of a format. -/
def name : Format → String
  | json => "json"
  | yaml => "yaml"

/-- The format of a name in small letters. -/
def ofLowerName? (name : String) : Option Format :=
  if name = "json" then some json else if name = "yaml" ∨ name = "yml" then some yaml else none

/-- A text in small letters, as far as its letters are ASCII. -/
def lower (s : String) : String := String.ofList (s.toList.map Char.toLower)

/-- The format of a name in letters of either case. -/
def ofName (name : String) : Except Problem Format :=
  match ofLowerName? (lower name) with
  | some format => .ok format
  | none => .error (.unknownFormat (lower name))

/-- Cuts a text at every slash. -/
def components : List Char → List Char × List (List Char)
  | [] => ([], [])
  | c :: rest =>
    let (first, more) := components rest
    if c = '/' then ([], first :: more) else (c :: first, more)

/-- The name of the file at the end of a path: the last part that is not empty and not the directory
itself. The directory above has no name. -/
def fileName? (path : String) : Option (List Char) :=
  let (first, more) := components path.toList
  match ((first :: more).filter fun part => !part.isEmpty && part != ['.']).getLast? with
  | some part => if part = ['.', '.'] then none else some part
  | none => none

/-- The text after the last dot of a file name; the dot cannot be its first character. -/
def extension? (fileName : List Char) : Option String :=
  let reversed := fileName.reverse
  match reversed.dropWhile (· != '.') with
  | '.' :: _ :: _ => some (String.ofList (reversed.takeWhile (· != '.')).reverse)
  | _ => none

/-- The format that the extension of a path stands for, in letters of either case. -/
def ofPath? (path : String) : Option Format := do
  ofLowerName? (lower (← extension? (← fileName? path)))

/-- The format of a file whose format is not given: without a known extension it is YAML, in which
JSON can be read too. -/
def ofPath (path : String) : Format := (ofPath? path).getD .yaml

example : ofPath? "a.b/c.JSON/." = some json ∧ ofPath? ".yaml" = none ∧
    ofPath? "x.yml/.." = none ∧ ofPath? "..yml" = some yaml := by
  decide +kernel

end Format

/-- The document value written by a text. In JSON its numbers are rounded as is said, in YAML always
once. -/
def Value.ofText (format : Format) (text : String) (rounding : Rounding := .once) :
    Except Problem Value :=
  match format with
  | .json => (Value.ofJsonText text rounding).mapError Problem.json
  | .yaml => do
    let node ← (Yaml.Node.ofText text).mapError Problem.yaml
    node.toValue.mapError Problem.unsupportedKey

namespace Matchers

/-- The named expressions written by a text, before any of them is read. -/
def expressions (format : Format) (text : String) : Except Problem (List (String × String)) :=
  match format with
  | .json => (Json.textMembers text).mapError Problem.json
  | .yaml => (Yaml.textEntries text).mapError Problem.yaml

/-- The matchers of a file. There is at least one; of expressions of one name only the last is
read. -/
def load (format : Format) (text : String) : Except Problem Matchers := do
  let entries ← expressions format text
  if entries.isEmpty then throw .noMatchers
  (Matchers.read (Fields.ofList entries)).mapError Problem.matcher

end Matchers

end DocMatch
