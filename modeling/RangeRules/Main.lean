import RangeRules.CommandLine.Session

/-!
# The command

Reads the program from a file or from standard input, and writes what the session yields.
-/
namespace RangeRules.CommandLine

/-- Why a file cannot be read. A directory can be opened, so that only then no name is given. -/
def readFailure : IO.Error → ReadFailure
  | .noFileOrDirectory .. => .missing
  | .permissionDenied .. => .denied
  | .inappropriateType (some _) .. => .notDirectory
  | .inappropriateType none .. => .isDirectory
  | e => .other e.toString

def decode (bytes : ByteArray) : Except ReadFailure String :=
  match String.fromUTF8? bytes with
  | some text => .ok text
  | none => .error .notText

/-- The text of a file, or why it cannot be read. -/
def readFile (name : String) : IO (Except ReadFailure String) := do
  try return decode (← IO.FS.readBinFile name)
  catch e => return .error (readFailure e)

/-- All of standard input. -/
def readInput : IO (Except ReadFailure String) := do
  return decode (← (← IO.getStdin).readBinToEnd)

def Result.write (r : Result) : IO UInt32 := do
  (← IO.getStdout).putStr r.output
  (← IO.getStderr).putStr r.errors
  return r.code.toUInt32

/-- Runs the command on its arguments. -/
def execute (arguments : List String) : IO UInt32 := do
  match prepare arguments with
  | .error result => result.write
  | .ok session =>
    let (place, text) ← match session.file with
      | some name => pure (name, ← readFile name)
      | none => pure ("stdin", ← readInput)
    match text with
    | .error cause => (unreadable place cause).write
    | .ok text => (session.run (← (← IO.getStderr).isTty) text.toList).write

end RangeRules.CommandLine

def main (arguments : List String) : IO UInt32 := RangeRules.CommandLine.execute arguments
