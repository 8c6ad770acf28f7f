import RangeRules.Bindings.Basic
import RangeRules.Diagnostic.Problem
import RangeRules.Expr
import RangeRules.Number.Shortest

/-!
# Runs of a program

A run takes the statements in order and gives each sink a value. Problems in the program are
findings, listed in the order in which they arise; they leave the part concerned undefined and the
run goes on. A breach of contract stops it: a source was not supplied, or the tree is one that no
text has.
-/
namespace RangeRules

open Text (Span Source Location)

/-- What is asked of a run by its caller, and was not kept. -/
inductive ContractViolation where
  | unboundSource (name : String) (span : Span)
  | unboundVariable (name : String) (span : Span)
  | nonFiniteLiteral (value : Number) (span : Span)

namespace ContractViolation

def span : ContractViolation → Span
  | .unboundSource _ s | .unboundVariable _ s | .nonFiniteLiteral _ s => s

def message : ContractViolation → String
  | .unboundSource name _ => s!"source `this.{name}` has no binding"
  | .unboundVariable name _ => s!"variable `{name}` is read before it is assigned"
  | .nonFiniteLiteral value _ => s!"number literal {value.text} is not finite"

def help : ContractViolation → String
  | .unboundSource name _ => s!"Bind `{name}` in the sources passed to the pass"
  | .unboundVariable .. =>
    "Run only programs built by the parser, which rejects reads before assignment"
  | .nonFiniteLiteral .. =>
    "Run only programs built by the parser, which rejects non-finite literals"

/-- The diagnostic of a breach of contract in a program with the given text. -/
def diagnostic (source : Source) (c : ContractViolation) : Diagnostic where
  severity := .error
  code := "C001"
  message := c.message
  span := c.span
  location := .of source c.span.start
  help := [c.help]

end ContractViolation

/-- A value with the findings made on the way to it. -/
structure Outcome (V : Type u) where
  value : V
  findings : List Finding

/-- What a run yields: the values of the sinks in order, and its findings. -/
structure Evaluation (V : Type u) where
  sinks : Bindings V
  findings : List Finding

/-- The findings of a run as diagnostics on the program text. -/
def Evaluation.diagnostics (source : Source) (e : Evaluation V) : List Diagnostic :=
  e.findings.map (Finding.diagnostic source)

/-- How an expression is evaluated among sources and variables. -/
abbrev Evaluator (V : Type u) := Environment V → Expr → Except ContractViolation (Outcome V)

/-- Runs statements on from a state of the variables and sinks, with what was found before. -/
def runFrom (eval : Evaluator V) (env : Environment V) (done : Evaluation V) :
    List Statement → Except ContractViolation (Evaluation V)
  | [] => .ok done
  | .variable name body :: rest => do
    let r ← eval env body
    runFrom eval (env.bind name r.value) { done with findings := done.findings ++ r.findings } rest
  | .sink name body :: rest => do
    let r ← eval env body
    runFrom eval env ⟨done.sinks.put name r.value, done.findings ++ r.findings⟩ rest

/-- Runs a program on the given sources. -/
def Program.run (eval : Evaluator V) (p : Program) (sources : Bindings V) :
    Except ContractViolation (Evaluation V) :=
  runFrom eval (.start sources) ⟨.empty, []⟩ p.statements

/-- Reads a name that must be bound. -/
def require (value : Option V) (otherwise : ContractViolation) :
    Except ContractViolation (Outcome V) :=
  match value with
  | some v => .ok ⟨v, []⟩
  | none => .error otherwise

end RangeRules
