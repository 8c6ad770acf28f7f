import RangeRules.Diagnostic.Basic
import RangeRules.Operator

/-!
# Problems

The problems that a run of a program can find. A problem knows its severity, code and wording; a
finding says at which part of the program it arose, and which part its message quotes.
-/
namespace RangeRules

open Text (Span Location Source)

/-- The type of a value, as messages name it. -/
inductive ValueType where
  | number | boolean | undefined
deriving DecidableEq

def ValueType.name : ValueType → String
  | .number => "number"
  | .boolean => "boolean"
  | .undefined => "undefined"

inductive Problem where
  /-- The predicate of a clause has a value that is no boolean. -/
  | predicateNotBoolean (found : ValueType)
  /-- The consequents of one `when` expression differ in type. -/
  | consequentTypeMismatch (expected found : ValueType)
  /-- An operator is applied to something other than a number. -/
  | nonNumericOperand (op : Operator) (found : ValueType)
  /-- The predicate of a clause is false whatever the sources are. -/
  | unreachableClause
  /-- Some predicate is true whatever the sources are. -/
  | unreachableOtherwise
  /-- A divisor may be zero. -/
  | precisionLoss
  /-- A divisor is zero. -/
  | divisionByZero
deriving DecidableEq

namespace Problem

def severity : Problem → Severity
  | .predicateNotBoolean _ | .consequentTypeMismatch .. | .nonNumericOperand ..
  | .divisionByZero => .error
  | .unreachableClause | .unreachableOtherwise => .warning
  | .precisionLoss => .info

def code : Problem → String
  | .predicateNotBoolean _ => "T001"
  | .consequentTypeMismatch .. => "T002"
  | .nonNumericOperand .. => "T003"
  | .unreachableClause => "W001"
  | .unreachableOtherwise => "W002"
  | .precisionLoss => "I001"
  | .divisionByZero => "R001"

/-- The wording of a problem with the part that it concerns, quoted. -/
def message (quoted : String) : Problem → String
  | .predicateNotBoolean _ => s!"When clause predicate `{quoted}` is not a boolean"
  | .consequentTypeMismatch .. => s!"When clause consequent `{quoted}` has wrong type"
  | .nonNumericOperand op _ => s!"Operand `{quoted}` of `{op.symbol}` is not a number"
  | .unreachableClause => s!"When clause predicate `{quoted}` will never be true"
  | .unreachableOtherwise => s!"Otherwise clause `{quoted}` will never be reached"
  | .precisionLoss => s!"Divisor `{quoted}` may be zero; result is unbounded"
  | .divisionByZero => s!"Division by zero in `{quoted}`"

def help : Problem → List String
  | .predicateNotBoolean found =>
    [s!"found a {found.name}; use a comparison such as `this.x > 0`"]
  | .consequentTypeMismatch expected found =>
    [s!"the first consequent is a {expected.name}, this one is a {found.name}"]
  | .nonNumericOperand _ found => [s!"found a {found.name}"]
  | .unreachableClause => ["remove the clause or widen the source ranges"]
  | .unreachableOtherwise | .precisionLoss | .divisionByZero => []

/-- The diagnostic of a problem at a place. -/
def diagnostic (problem : Problem) (quoted : String) (span : Span) (location : Location) : Diagnostic where
  severity := problem.severity
  code := problem.code
  message := problem.message quoted
  span := span
  location := location
  help := problem.help

end Problem

/-- A problem, the part of the program that its message quotes, and the part that it is found at. -/
structure Finding where
  problem : Problem
  quoted : Span
  span : Span
deriving DecidableEq

/-- The diagnostic of a finding in the given program text. -/
def Finding.diagnostic (source : Source) (f : Finding) : Diagnostic :=
  f.problem.diagnostic (Text.quote source f.quoted) f.span (.of source f.span.start)

end RangeRules
