import RangeRules.Bindings.Text
import RangeRules.CommandLine.Arguments
import RangeRules.Program.Outline
import RangeRules.Report.Render
import RangeRules.Run
import RangeRules.Text.Wrap

/-!
# Sessions

What the command does with its arguments and the text of a program. Sources are converted before
the text is asked for; the text is then parsed, outlined if that was asked for, and run. Sinks go to
the output and diagnostics to the error output, with a last line that counts the errors.
-/
namespace RangeRules.CommandLine

open Text (Source)

/-- What the command leaves behind: its exit code, and what it wrote to either output. -/
structure Result where
  code : Nat
  output : String
  errors : String

/-- The cells of a line of a failure message. -/
def failureWidth : Nat := 78

/-- A failure of the command itself, with its cause if there is one. -/
def failureText (message : String) (cause? : Option String) : String :=
  let head := Text.wrapped (failureWidth - 4) "  × " "  │ " message
  let cause := match cause? with
    | some cause => Text.wrapped (failureWidth - 6) "  ╰─▶ " "      " cause ++ "\n"
    | none => ""
  "Error: " ++ head ++ "\n" ++ cause ++ "\n"

def Result.failure (message : String) (cause? : Option String) : Result :=
  ⟨1, "", failureText message cause?⟩

/-- The sources of a run, in the form that it needs. -/
inductive Sources where
  | abstract (sources : Bindings AbstractValue) (options : AnalysisOptions)
  | concrete (sources : Bindings Value)

structure Session where
  sources : Sources
  outline : Bool
  file : Option String

/-- Prepares a session, or gives the result of the command if its sources do not allow one. -/
def Session.of (s : Settings) : Except SourceError Session := do
  let sources ←
    if s.concrete then
      pure (.concrete (← SourceArgument.concreteSources s.sources))
    else
      pure (.abstract (← SourceArgument.abstractSources s.sources)
        ⟨s.precisionLoss, s.unreachableOtherwise⟩)
  return ⟨sources, s.outline, s.file⟩

/-- Prepares a session from arguments, or gives the result of the command if that fails. -/
def prepare (arguments : List String) : Except Result Session :=
  match Settings.read arguments with
  | .error e => .error ⟨2, "", e.text⟩
  | .ok settings =>
    match Session.of settings with
    | .error e => .error (.failure e.message e.cause?)
    | .ok session => .ok session

/-- Why a program cannot be read from its place. -/
inductive ReadFailure where
  | missing
  | denied
  /-- A name goes through something that is no directory. -/
  | notDirectory
  | isDirectory
  | nameTooLong
  | notText
  | other (message : String)

def ReadFailure.message : ReadFailure → String
  | .missing => "No such file or directory (os error 2)"
  | .denied => "Permission denied (os error 13)"
  | .notDirectory => "Not a directory (os error 20)"
  | .isDirectory => "Is a directory (os error 21)"
  | .nameTooLong => "File name too long (os error 36)"
  | .notText => "stream did not contain valid UTF-8"
  | .other message => message

/-- The result when the program could not be read from its place. -/
def unreadable (place : String) (cause : ReadFailure) : Result :=
  .failure ("reading " ++ place) (some cause.message)

/-- Adds the line that counts errors, if there are any. -/
def Result.of (output : String) (source : Source) (colour : Bool) (log : List Diagnostic) :
    Result :=
  let errors := Log.count .error log
  let text := Report.renderAll colour source log
  if errors = 0 then ⟨0, output, text⟩
  else ⟨1, output, text ++ failureText s!"{errors} error(s) reported" none⟩

namespace Session

/-- The sinks of a run as lines, and its diagnostics. -/
def evaluate (session : Session) (p : Program) :
    Except ContractViolation (String × List Diagnostic) := do
  match session.sources with
  | .abstract sources options =>
    let e ← p.analyze sources options
    return (e.sinks.lines AbstractValue.text, e.diagnostics p.source)
  | .concrete sources =>
    let e ← p.interpret sources
    return (e.sinks.lines Value.text, e.diagnostics p.source)

def outlineText (session : Session) (p : Program) : String :=
  if session.outline then "=== Parsed Program ===\n" ++ Outline.program p ++ "\n\n" else ""

/-- Runs a session on the text of a program. -/
def run (session : Session) (colour : Bool) (source : Source) : Result :=
  match Program.parse source with
  | .error e => .of "" source colour [e.diagnostic]
  | .ok p =>
    let outline := session.outlineText p
    match session.evaluate p with
    | .error c => .of outline source colour [c.diagnostic source]
    | .ok (sinks, log) => .of (outline ++ sinks) source colour log

end Session

end RangeRules.CommandLine
