import RangeRules.Diagnostic.Basic
import RangeRules.Grammar.Rule
import RangeRules.Text.Blank

/-!
# Errors in a program text

Why a text is no program, and how that is told. A syntax error lists what could have stood at its
place, as concepts rather than rules, and quotes what stands there instead.
-/
namespace RangeRules

open Text (Span Location Source)

namespace ParseError

inductive Cause where
  | unexpectedToken (expected found : String)
  /-- A number that is too large to be finite. -/
  | invalidNumber (digits : String)
  /-- A variable that no earlier statement assigns. -/
  | unboundVariable (name : String)
  /-- A sink that an earlier statement assigns too. -/
  | duplicateSink (name : String)
  /-- An expression of `depth` levels or more, where `limit` are allowed. -/
  | maxDepthExceeded (depth limit : Nat)
  | other (message : String)
deriving DecidableEq

def Cause.message : Cause → String
  | .unexpectedToken expected found => s!"Expected {expected}, found {found}"
  | .invalidNumber digits => s!"Invalid number literal '{digits}'"
  | .unboundVariable name => s!"Variable '{name}' is used before it is assigned"
  | .duplicateSink name => s!"Sink '{name}' is assigned more than once"
  | .maxDepthExceeded _ limit => s!"Expression nesting depth exceeds maximum of {limit} levels"
  | .other message => message

def Cause.code : Cause → String
  | .unexpectedToken .. => "P001"
  | .invalidNumber _ => "P002"
  | .unboundVariable _ => "P003"
  | .maxDepthExceeded .. => "P004"
  | .duplicateSink _ => "P005"
  | .other _ => "P999"

def Cause.help : Cause → List String
  | .unexpectedToken .. | .other _ => []
  | .invalidNumber _ => ["Number literals must be finite, like `42` or `2.5`"]
  | .unboundVariable name =>
    [s!"Assign it first with `{name} = ...`, or write `this.{name}` for a source"]
  | .duplicateSink _ => ["Each sink must be assigned exactly once"]
  | .maxDepthExceeded .. => ["Reduce nesting or simplify the expression"]

end ParseError

/-- A cause and the part of the text that it concerns. -/
structure Fault where
  cause : ParseError.Cause
  span : Span
deriving DecidableEq

/-- A fault in a text. -/
structure ParseError where
  cause : ParseError.Cause
  source : Source
  span : Span
deriving DecidableEq

namespace ParseError

def location (e : ParseError) : Location := .of e.source e.span.start

def diagnostic (e : ParseError) : Diagnostic where
  severity := .error
  code := e.cause.code
  message := e.cause.message
  span := e.span
  location := e.location
  help := e.cause.help

/-- The error as one text: its headline with the code, and a line for each hint. -/
def message (e : ParseError) : String :=
  let d := e.diagnostic
  let first := s!"{d.severity.name}: {d.headline} [{d.code}]"
  first ++ String.join (d.help.map fun hint => "\nhelp: " ++ hint)

/-- A list of alternatives in words. -/
def alternatives : List String → String
  | [] => "something else"
  | [only] => only
  | [first, last] => first ++ " or " ++ last
  | first :: rest => first ++ ", " ++ alternatives rest

/-- What was expected, each concept once. -/
def expectedText (rules : List Rule) : String :=
  alternatives (rules.map Rule.concept).eraseDups

/-- How much of the text at an error is quoted at most. -/
def quotedLength : Nat := 16

/-- What stands at an offset, up to the next blank, or else that nothing does. -/
def quotedAt (source : Source) (offset : Nat) : String :=
  let rest := match Text.splitBytes? offset source with
    | some (_, after) => after
    | none => []
  match (rest.take quotedLength).takeWhile fun c => !Text.isBlank c with
  | [] => "end of input"
  | cs => "'" ++ String.ofList cs ++ "'"

/-- What was found: a rule that should not have matched, or else the text at the offset. -/
def foundText (unwanted : List Rule) (source : Source) (offset : Nat) : String :=
  match unwanted with
  | [] => quotedAt source offset
  | .keyword :: _ => "keyword"
  | .endOfInput :: _ => "end of input"
  | rule :: _ => rule.name

/-- Why a reader stopped. -/
inductive Refusal where
  /-- Rules that could not be matched, and rules that could but should not. -/
  | rules (wanted unwanted : List Rule)
  /-- A reason in words, as of a reader with a bound of its own on nesting. `Program.read` has no
  such bound, and never stops for one. -/
  | message (text : String)

/-- The messages of a reader that has run out of room for nesting, which is told as an excess of
levels. -/
def limitMessages : List String := ["stack limit reached", "call limit reached"]

/-- The error of a reader that stopped at a place, where `limit` levels are allowed. -/
def ofRefusal (source : Source) (span : Span) (limit : Nat) : Refusal → ParseError
  | .rules wanted unwanted =>
    ⟨.unexpectedToken (expectedText wanted) (foundText unwanted source span.start), source, span⟩
  | .message text =>
    if limitMessages.contains text then ⟨.maxDepthExceeded (limit + 1) limit, source, span⟩
    else ⟨.other text, source, span⟩

end ParseError

end RangeRules
