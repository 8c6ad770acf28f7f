import RangeRules.Text.Location

/-!
# Diagnostics

A diagnostic tells of one problem at one place of a program: how grave it is, a code, a message and
hints. A log is a list of diagnostics in the order of their arrival; nothing is merged or dropped.
-/
namespace RangeRules

open Text (Span Location)

/-- How grave a problem is, the gravest first. -/
inductive Severity where
  | error | warning | info
deriving DecidableEq

def Severity.name : Severity → String
  | .error => "error"
  | .warning => "warning"
  | .info => "info"

def Severity.rank : Severity → Nat
  | .error => 0
  | .warning => 1
  | .info => 2

structure Diagnostic where
  severity : Severity
  code : String
  message : String
  span : Span
  location : Location
  help : List String
deriving DecidableEq

def Diagnostic.isError (d : Diagnostic) : Bool := d.severity = .error

/-- The message with the location it concerns. -/
def Diagnostic.headline (d : Diagnostic) : String :=
  d.message ++ " at " ++ d.location.text

namespace Log

def hasErrors (log : List Diagnostic) : Bool := log.any Diagnostic.isError

def count (severity : Severity) (log : List Diagnostic) : Nat :=
  log.countP fun d => d.severity = severity

/-- The severities of a log, the gravest first. -/
def severities (log : List Diagnostic) : List Severity :=
  (log.map (·.severity)).mergeSort fun a b => a.rank ≤ b.rank

end Log

end RangeRules
