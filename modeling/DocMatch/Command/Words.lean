/-!
Words of a command line. A word with a hyphen in front stands for options, any other is an operand;
after `--` every word is an operand.

    --output json      --output=json      -o json      -o=json      -ojson
    -kp                two options without values
    -                  an operand
-/

namespace DocMatch.Command

/-- An option: its letter, its word, and what its value is called if it takes one. -/
structure Switch where
  letter : Char
  word : String
  placeholder : Option String
  /-- Whether the option must be given. -/
  required : Bool
  /-- Whether the option may be given more than once. -/
  repeatable : Bool
  /-- Whether a value is allowed. -/
  accepts : String → Bool
  help : String

/-- What is wrong with a command line. -/
inductive UsageError
  | missingCommand
  | unknownCommand (word : String)
  | unknownOption (word : String)
  | missingValue (option : String)
  | unexpectedValue (option : String)
  | invalidValue (option value : String)
  | repeated (option : String)
  | unexpectedOperand (word : String)
  | missing (name : String)
  deriving DecidableEq

def UsageError.message : UsageError → String
  | missingCommand => "error: a command is required"
  | unknownCommand word => "error: unrecognized command '" ++ word ++ "'"
  | unknownOption word => "error: unexpected option '" ++ word ++ "'"
  | missingValue option => "error: option '" ++ option ++ "' needs a value"
  | unexpectedValue option => "error: option '" ++ option ++ "' takes no value"
  | invalidValue option value =>
    "error: invalid value '" ++ value ++ "' for option '" ++ option ++ "'"
  | repeated option => "error: option '" ++ option ++ "' cannot be given more than once"
  | unexpectedOperand word => "error: unexpected operand '" ++ word ++ "'"
  | missing name => "error: " ++ name ++ " is required"

/-- What a word, or a letter of it, stands for. -/
inductive Mention
  | option (switch : Switch) (value : Option String)
  | operand (word : String)
  | fault (e : UsageError)

/-- Whether a word stands for options; a hyphen alone does not. -/
def isOptionWord (word : String) : Bool :=
  match word.toList with
  | '-' :: _ :: _ => true
  | _ => false

/-- An option with a hyphen and its word. -/
def Switch.name (s : Switch) : String := "--" ++ s.word

/-- The options that letters stand for. The last of them may still need the next word as its
value. -/
def readLetters (switches : List Switch) : List Char → List Mention × Option Switch
  | [] => ([], none)
  | c :: rest =>
    match switches.find? fun s => s.letter = c with
    | none => ([.fault (.unknownOption (String.ofList ['-', c]))], none)
    | some s =>
      if s.placeholder.isNone then
        let (mentions, waiting) := readLetters switches rest
        (.option s none :: mentions, waiting)
      else
        match rest with
        | [] => ([], some s)
        | '=' :: value => ([.option s (some (String.ofList value))], none)
        | value => ([.option s (some (String.ofList value))], none)

/-- The option that a word after two hyphens stands for, with a value after an equals sign. It may
still need the next word as its value. -/
def readLong (switches : List Switch) (body : List Char) : List Mention × Option Switch :=
  let name := String.ofList (body.takeWhile (· != '='))
  match switches.find? fun s => s.word = name, body.dropWhile (· != '=') with
  | none, _ => ([.fault (.unknownOption ("--" ++ name))], none)
  | some s, [] => if s.placeholder.isNone then ([.option s none], none) else ([], some s)
  | some s, _ :: value =>
    if s.placeholder.isNone then ([.fault (.unexpectedValue s.name)], none)
    else ([.option s (some (String.ofList value))], none)

/-- What one word stands for. -/
def readWord (switches : List Switch) (word : String) : List Mention × Option Switch :=
  match word.toList with
  | '-' :: '-' :: body => readLong switches body
  | '-' :: c :: rest => readLetters switches (c :: rest)
  | _ => ([.operand word], none)

/-- What words stand for, from left to right. -/
def readWords (switches : List Switch) : List String → List Mention
  | [] => []
  | word :: rest =>
    if word = "--" then rest.map Mention.operand
    else
      match readWord switches word, rest with
      | (mentions, none), rest => mentions ++ readWords switches rest
      | (mentions, some s), [] => mentions ++ [.fault (.missingValue s.name)]
      | (mentions, some s), value :: rest =>
        if isOptionWord value then mentions ++ [.fault (.missingValue s.name)]
        else mentions ++ .option s (some value) :: readWords switches rest

end DocMatch.Command
