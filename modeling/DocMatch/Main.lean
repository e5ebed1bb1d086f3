import DocMatch.Command.Run

/-!
The program: reads files and the standard input, and writes what running the command line gives.
-/

namespace DocMatch.Command

/-- The text of bytes in UTF-8. -/
def textOfBytes (bytes : ByteArray) : Except FileError String :=
  match String.fromUTF8? bytes with
  | some text => .ok text
  | none => .error .notText

/-- The cause of a failure of the file system. -/
def fileErrorOf : IO.Error → FileError
  | .noFileOrDirectory .. => .notFound
  | .inappropriateType _ code _ =>
    if code = 20 then .notDirectory else .isDirectory
  | e => .other (toString e)

/-- Reads a file. -/
def readFile (path : String) : IO (Except FileError String) := do
  try
    return textOfBytes (← IO.FS.readBinFile path)
  catch e => return .error (fileErrorOf e)

/-- Reads a stream to its end. -/
partial def readToEnd (stream : IO.FS.Stream) (before : ByteArray) : IO ByteArray := do
  let bytes ← stream.read 65536
  if bytes.isEmpty then return before else readToEnd stream (before ++ bytes)

/-- Reads the standard input, unless it is a terminal. -/
def readInput : IO (Except FileError (Option String)) := do
  let stream ← IO.getStdin
  if ← stream.isTty then return .ok none
  return (textOfBytes (← readToEnd stream .empty)).map some

end DocMatch.Command

def main (words : List String) : IO UInt32 := do
  let outcome ← DocMatch.Command.run ⟨DocMatch.Command.readFile, DocMatch.Command.readInput⟩ words
  IO.print outcome.output
  IO.eprint outcome.errors
  return outcome.code.toUInt32
