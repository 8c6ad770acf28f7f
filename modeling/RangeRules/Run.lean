import RangeRules.Evaluation.Abstract
import RangeRules.Evaluation.Concrete
import RangeRules.Program.Parse

/-!
# Running a program text

A text is parsed and run at once, on values or on descriptions of values. What stops it before any
sink has a value is an error in the text or a breach of contract; all else is told by diagnostics.
-/
namespace RangeRules

open Text (Source)

inductive RunError where
  | parse (e : ParseError)
  | contract (c : ContractViolation)

/-- The error as a diagnostic on the text of the program. -/
def RunError.diagnostic (source : Source) : RunError → Diagnostic
  | .parse e => e.diagnostic
  | .contract c => c.diagnostic source

/-- Runs a text on descriptions of values. -/
def analyze (source : Source) (sources : Bindings AbstractValue) (options : AnalysisOptions) :
    Except RunError (Evaluation AbstractValue) := do
  let p ← (Program.parse source).mapError .parse
  (p.analyze sources options).mapError .contract

/-- Runs a text on values. -/
def interpret (source : Source) (sources : Bindings Value) :
    Except RunError (Evaluation Value) := do
  let p ← (Program.parse source).mapError .parse
  (p.interpret sources).mapError .contract

end RangeRules
