import RangeRules.SourceArgument
import RangeRules.Text.Plain

/-!
# Command-line arguments

The command takes flags, sources and at most one file. An argument that starts with a hyphen is an
option, up to a lone `--`; the value of `--source` is the next argument or follows an equals sign.
An argument is read as soon as it is met, so the first bad one is the one refused.
-/
namespace RangeRules.CommandLine

structure Settings where
  /-- Whether to run on values instead of descriptions. -/
  concrete : Bool
  sources : List SourceArgument
  precisionLoss : Bool
  unreachableOtherwise : Bool
  /-- Whether to print the program as it was read. -/
  outline : Bool
  /-- The file that holds the program, or else it is standard input. -/
  file : Option String

def Settings.start : Settings := ⟨false, [], false, false, false, none⟩

inductive UsageError where
  | invalidSource (text : String) (cause : SourceError)
  /-- An option, or the file, without a value. -/
  | missingValue (argument : String)
  | repeatedFlag (flag : String)
  | unexpected (argument : String)

namespace UsageError

def sourceOption : String := "--source <NAME=SPEC>"

def fileArgument : String := "[FILE]"

def advice : String := "\n\nFor more information, try '"

/-- The error and what to do next, in parts each of which is printed by itself. -/
def parts : UsageError → List String
  | .invalidSource text cause =>
    ["error: invalid value '", text, "' for '", sourceOption, s!"': {cause.message}{advice}",
      "--help", "'.\n"]
  | .missingValue argument =>
    ["error: a value is required for '", argument, "' but none was supplied" ++ advice,
      "--help", "'.\n"]
  | .repeatedFlag flag =>
    ["error: the argument '", flag, "' cannot be used multiple times" ++ advice,
      "--help", "'.\n"]
  | .unexpected argument =>
    ["error: unexpected argument '", argument, "' found" ++ advice, "--help", "'.\n"]

/-- The error as it is printed. Nothing in an argument instructs the terminal. -/
def text (e : UsageError) : String := String.join (e.parts.map Text.plainText)

end UsageError

/-- Sets a flag that may be given once. -/
def setFlag (flag : String) (given : Bool) (settings : Settings) : Except UsageError Settings :=
  if given then .error (.repeatedFlag flag) else .ok settings

def addSource (text : String) (s : Settings) : Except UsageError Settings :=
  match SourceArgument.read text.toList with
  | .ok a => .ok { s with sources := s.sources ++ [a] }
  | .error cause => .error (.invalidSource text cause)

/-- Sets the file, whose name is not empty. -/
def addFile (name : String) (s : Settings) : Except UsageError Settings :=
  match s.file with
  | none =>
    if name = "" then .error (.missingValue UsageError.fileArgument)
    else .ok { s with file := some name }
  | some _ => .error (.unexpected name)

/-- Adds the arguments after a lone `--`. -/
def addFiles (s : Settings) : List String → Except UsageError Settings
  | [] => .ok s
  | name :: rest => do addFiles (← addFile name s) rest

/-- Whether an argument is an option rather than a name; a lone hyphen is a name. -/
def isOption (argument : String) : Bool :=
  match argument.toList with
  | '-' :: _ :: _ => true
  | _ => false

/-- The value in `--source=VALUE`. -/
def sourceValue? (argument : String) : Option String :=
  let flag := "--source=".toList
  let cs := argument.toList
  if flag.isPrefixOf cs then some (String.ofList (cs.drop flag.length)) else none

/-- Adds an argument that takes no further one. -/
def addArgument (argument : String) (s : Settings) : Except UsageError Settings :=
  match argument with
  | "--concrete" => setFlag argument s.concrete { s with concrete := true }
  | "--report-precision-loss" => setFlag argument s.precisionLoss { s with precisionLoss := true }
  | "--warn-unreachable-otherwise" =>
    setFlag argument s.unreachableOtherwise { s with unreachableOtherwise := true }
  | "--debug-parse" => setFlag argument s.outline { s with outline := true }
  | _ =>
    match sourceValue? argument with
    | some value => addSource value s
    | none => if isOption argument then .error (.unexpected argument) else addFile argument s

/-- Adds arguments one after the other. -/
def addArguments (s : Settings) : List String → Except UsageError Settings
  | [] => .ok s
  | "--" :: rest => addFiles s rest
  | "--source" :: rest =>
    match rest with
    | [] => .error (.missingValue UsageError.sourceOption)
    | value :: rest =>
      if isOption value then .error (.missingValue UsageError.sourceOption)
      else do addArguments (← addSource value s) rest
  | argument :: rest => do addArguments (← addArgument argument s) rest

/-- The settings that arguments ask for. -/
def Settings.read (arguments : List String) : Except UsageError Settings :=
  addArguments .start arguments

end RangeRules.CommandLine
