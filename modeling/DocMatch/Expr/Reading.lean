import DocMatch.Expr.Pipeline
import DocMatch.Expr.Token

/-!
Reading expressions.

    expression  =  stage ("|" stage)*
    stage       =  argument (("==" | "=" | "+") argument)?
    argument    =  STRING  |  segment ("." segment)*
    segment     =  IDENT  |  INT

Reading goes over the tokens once and stops at the first one that no expression has in its place;
the error carries that token.
-/

namespace DocMatch

/-- What is wrong with the token at which reading stopped. -/
inductive ParseFault
  | leadingDot | doubleDot | dotAfterString | trailingDot | missingDot | mixedStringAndPath
  | illegalCharacter | invalidIndex | emptyArgument | chainedOperator
  deriving DecidableEq

/-- The wording of a fault. -/
def ParseFault.message : ParseFault → String
  | leadingDot => "cannot start with dot"
  | doubleDot => "just one dot can be used"
  | dotAfterString => "only dot with identifiers or integer can be used on path expression"
  | trailingDot => "path cannot end with dot"
  | missingDot => "path segments must be separated by dot"
  | mixedStringAndPath => "path expressions and strings cannot be mixed"
  | illegalCharacter => "illegal character"
  | invalidIndex => "invalid index"
  | emptyArgument => "missing argument"
  | chainedOperator => "one operator per pipe stage"

/-- Why an expression could not be read: its bytes are not text, or a token is out of place. -/
inductive ParseError
  | notText
  | unexpected (fault : ParseFault) (token : Token)
  deriving DecidableEq

namespace ParseError

/-- The column of the token at fault. -/
def column? : ParseError → Option Nat
  | notText => none
  | unexpected _ token => some token.column

/-- The wording for bytes that are not text. -/
def notTextMessage : String := "stream did not contain valid UTF-8"

def message : ParseError → String
  | notText => "failed to read expression: " ++ notTextMessage
  | unexpected fault token =>
    "bad expression (col " ++ String.ofList (Layout.natDigits token.column) ++ ", lit "
      ++ token.text ++ "): " ++ fault.message

end ParseError

namespace Token

/-- Tokens up to a separator, and the separator or end token that stopped them. -/
structure Cut where
  body : List Token
  stop : Token
  deriving DecidableEq

/-- Cuts tokens at every separator of a kind; the last piece stops at the end token. There is always
a first piece. -/
def cutAt (separator : Kind → Bool) (ending : Token) : List Token → Cut × List Cut
  | [] => (⟨[], ending⟩, [])
  | token :: rest =>
    let (head, more) := cutAt separator ending rest
    if separator token.kind then (⟨[], token⟩, head :: more)
    else (⟨token :: head.body, head.stop⟩, more)

end Token

namespace Pipeline

/-- The step that a segment stands for; positions are numbers of 64 bits. -/
def stepOf (token : Token) : Except ParseError Step :=
  if token.kind = .integer then
    let n := natOfDigits token.text.toList
    if n < UInt64.size then .ok (.index (UInt64.ofNat n)) else .error (.unexpected .invalidIndex token)
  else .ok (.key token.text)

/-- The fault of a token at the start of an argument, where a string or a segment must stand. -/
def faultAtStart : Token.Kind → Option ParseFault
  | .identifier | .integer | .string => none
  | .dot => some .leadingDot
  | .illegal => some .illegalCharacter
  | _ => some .emptyArgument

/-- The fault of a token after a string, where nothing of the same argument can stand. -/
def faultAfterString : Token.Kind → ParseFault
  | .dot => .dotAfterString
  | .illegal => .illegalCharacter
  | _ => .mixedStringAndPath

/-- The fault of a token after a segment, where only a dot can stand. -/
def faultAfterSegment : Token.Kind → Option ParseFault
  | .dot => none
  | .identifier | .integer => some .missingDot
  | .illegal => some .illegalCharacter
  | _ => some .mixedStringAndPath

/-- The fault of a token after a dot, where only a segment can stand. -/
def faultAfterDot : Token.Kind → Option ParseFault
  | .identifier | .integer => none
  | .dot => some .doubleDot
  | .illegal => some .illegalCharacter
  | _ => some .mixedStringAndPath

mutual

/-- The rest of a path, after a segment. -/
def readAfterSegment (stop : Token) : List Token → Except ParseError Path
  | [] => .ok []
  | token :: rest =>
    match faultAfterSegment token.kind with
    | some fault => .error (.unexpected fault token)
    | none => readAfterDot stop rest

/-- The rest of a path, after a dot. -/
def readAfterDot (stop : Token) : List Token → Except ParseError Path
  | [] => .error (.unexpected .trailingDot stop)
  | token :: rest =>
    match faultAfterDot token.kind with
    | some fault => .error (.unexpected fault token)
    | none => do
      let step ← stepOf token
      let path ← readAfterSegment stop rest
      return step :: path

end

/-- An argument that is a string; nothing can follow it. -/
def readString (text : String) : List Token → Except ParseError Argument
  | [] => .ok (.literal (.string text))
  | token :: _ => .error (.unexpected (faultAfterString token.kind) token)

/-- The argument written by the tokens before a separator. -/
def readArgument (cut : Token.Cut) : Except ParseError Argument :=
  match cut.body with
  | [] => .error (.unexpected .emptyArgument cut.stop)
  | token :: rest =>
    match faultAtStart token.kind with
    | some fault => .error (.unexpected fault token)
    | none =>
      if token.kind = .string then readString token.text rest
      else do
        let step ← stepOf token
        let path ← readAfterSegment cut.stop rest
        return .path (step :: path)

/-- The operator that a token stands for. -/
def operatorOf : Token.Kind → Operator
  | .assign => .replace
  | .merge => .merge
  | _ => .filter

/-- The stage written by the tokens before a pipe or the end; it has at most one operator. -/
def readStage (cut : Token.Cut) : Except ParseError Stage :=
  match Token.cutAt Token.Kind.isOperator cut.stop cut.body with
  | (left, []) => do
    return ⟨.filter, ← readArgument left, none⟩
  | (left, right :: more) => do
    let leftArgument ← readArgument left
    let rightArgument ← readArgument right
    if more.isEmpty then return ⟨operatorOf left.stop.kind, leftArgument, some rightArgument⟩
    else throw (.unexpected .chainedOperator right.stop)

/-- The pipeline written by tokens. -/
def ofTokens (ending : Token) (tokens : List Token) : Except ParseError Pipeline :=
  match Token.cutAt (· == .pipe) ending tokens with
  | (head, more) => do
    let first ← readStage head
    let rest ← more.mapM readStage
    return ⟨first, rest⟩

/-- The pipeline written by a text. -/
def parse (text : String) : Except ParseError Pipeline :=
  ofTokens (Token.ending text) (Token.tokens text)

/-- The pipeline written by bytes, which must be text in UTF-8. -/
def parseBytes (bytes : ByteArray) : Except ParseError Pipeline :=
  match String.fromUTF8? bytes with
  | some text => parse text
  | none => .error .notText

example : (parse "a.0==\"x\" | b").toOption =
    some ⟨⟨.filter, .path [.key "a", .index 0], some (.literal (.string "x"))⟩,
      [⟨.filter, .path [.key "b"], none⟩]⟩ := by
  decide +kernel

end Pipeline

namespace Matchers

/-- An expression that could not be read, with the name of its matcher. -/
structure ReadError where
  matcher : String
  source : ParseError
  deriving DecidableEq

def ReadError.message (e : ReadError) : String :=
  "matcher " ++ e.matcher ++ ": " ++ e.source.message

/-- Reads named expressions from left to right, up to the first that cannot be read. A repeated name
keeps its first place and its last expression. -/
def read (expressions : List (String × String)) : Except ReadError Matchers := do
  let pipelines ← expressions.mapM fun (name, text) =>
    match Pipeline.parse text with
    | .ok pipeline => .ok (name, pipeline)
    | .error source => .error (⟨name, source⟩ : ReadError)
  return Fields.ofList pipelines

end Matchers

end DocMatch
