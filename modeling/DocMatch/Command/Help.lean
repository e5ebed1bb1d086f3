import DocMatch.Command.Request

/-!
Help: a line about the topic, its usage, and then its commands, operands and options in columns.

    Validate an expression and print its AST

    Usage: matchers check [OPTIONS] <EXPRESSION>

    Arguments:
      <EXPRESSION>  The expression to parse
-/

namespace DocMatch.Command

/-- The name of the program. -/
def programName : String := "matchers"

/-- The version of the program. -/
def programVersion : String := "0.1.0"

/-- What a topic is about. -/
def Topic.about : Topic → String
  | program => "Matchers - select and rewrite fields of YAML/JSON documents"
  | check => "Validate an expression and print its AST"
  | emit => "Resolve a matchers file against a document"
  | help => "Print this message or the help of the given subcommand(s)"

/-- How a topic is used. -/
def Topic.usage : Topic → String
  | program => programName ++ " [OPTIONS] <COMMAND>"
  | check => programName ++ " check [OPTIONS] <EXPRESSION>"
  | emit => programName ++ " emit [OPTIONS] --matchers <MATCHERS>"
  | help => programName ++ " help [COMMAND]..."

/-- A heading with rows of two columns. -/
structure Section where
  heading : String
  rows : List (String × String)

/-- Rows with the second column aligned. -/
def alignRows (rows : List (String × String)) : List String :=
  let width := rows.foldl (fun w row => max w row.1.length) 0
  rows.map fun row =>
    "  " ++ row.1 ++ String.ofList (List.replicate (width - row.1.length) ' ') ++ "  " ++ row.2

/-- The first column of an option. -/
def Switch.usage (s : Switch) : String :=
  "-" ++ String.ofList [s.letter] ++ ", --" ++ s.word
    ++ (match s.placeholder with
      | some p => " <" ++ p ++ ">"
      | none => "")

/-- The section on options. -/
def optionSection (switches : List Switch) : Section :=
  ⟨"Options", switches.map fun s => (s.usage, s.help)⟩

/-- The sections of a topic. -/
def Topic.sections : Topic → List Section
  | program =>
    [⟨"Commands", [("check", check.about), ("emit", emit.about), ("help", help.about)]⟩,
      optionSection programSwitches]
  | check =>
    [⟨"Arguments", [("<EXPRESSION>", "The expression to parse")]⟩, optionSection checkSwitches]
  | emit => [optionSection emitSwitches]
  | help => [⟨"Arguments", [("[COMMAND]...", "Print help for the subcommand(s)")]⟩]

/-- The lines of a section, after an empty one. -/
def Section.lines (s : Section) : List String := "" :: (s.heading ++ ":") :: alignRows s.rows

/-- The help on a topic. -/
def Topic.text (t : Topic) : String :=
  let lines := [t.about, "", "Usage: " ++ t.usage] ++ t.sections.flatMap Section.lines
  String.join (lines.map (· ++ "\n"))

/-- The line that tells the version. -/
def versionText : String := programName ++ " " ++ programVersion ++ "\n"

end DocMatch.Command
