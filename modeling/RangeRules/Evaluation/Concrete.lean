import RangeRules.Evaluation.Basic
import RangeRules.Value.Abstract

/-!
# Evaluation on values

Operators compute with numbers as they are, overflow and all; division by zero is a problem instead
of an infinity. A `when` expression evaluates its predicates in order up to the first that holds,
and then only the consequent of that clause.
-/
namespace RangeRules

namespace Arithmetic

/-- The number computed, or none for a division by zero. -/
def result? (op : Arithmetic) (x y : Number) : Option Number :=
  match op with
  | .add => some (x + y)
  | .sub => some (x - y)
  | .mul => some (x * y)
  | .div => if y.isZero then none else some (x / y)

end Arithmetic

namespace Comparison

def holds (op : Comparison) (x y : Number) : Bool :=
  match op with
  | .lt => x < y
  | .le => x ≤ y
  | .gt => y < x
  | .ge => y ≤ x
  | .eq => x == y
  | .ne => x != y

end Comparison

namespace Concrete

/-- Applies an operator to two numbers. -/
def compute (span : Text.Span) (op : Operator) (x y : Number) : Outcome Value :=
  match op with
  | .comparison op => ⟨.boolean (op.holds x y), []⟩
  | .arithmetic op =>
    match op.result? x y with
    | some z => ⟨.number z, []⟩
    | none => ⟨.undefined, [⟨.divisionByZero, span, span⟩]⟩

/--
Applies an operator to two values. The first operand that is no number is a problem, unless either
is undefined, which was a problem before.
-/
def operate (span : Text.Span) (op : Operator) (leftSpan rightSpan : Text.Span) :
    Value → Value → Outcome Value
  | .number x, .number y => compute span op x y
  | .undefined, _ | _, .undefined => ⟨.undefined, []⟩
  | .number _, .boolean _ =>
    ⟨.undefined, [⟨.nonNumericOperand op .boolean, rightSpan, rightSpan⟩]⟩
  | .boolean _, _ => ⟨.undefined, [⟨.nonNumericOperand op .boolean, leftSpan, leftSpan⟩]⟩

mutual

/-- The value of an expression. -/
def eval (env : Environment Value) : Expr → Except ContractViolation (Outcome Value)
  | .number _ x => .ok ⟨.number x, []⟩
  | .boolean _ b => .ok ⟨.boolean b, []⟩
  | .source span name => require (env.source? name) (.unboundSource name span)
  | .variable span name => require (env.local? name) (.unboundVariable name span)
  | .operate span op left right => do
    let l ← eval env left
    let r ← eval env right
    let o := operate span op left.span right.span l.value r.value
    return ⟨o.value, l.findings ++ r.findings ++ o.findings⟩
  | .choose _ branches => choose env branches

/-- The value of the first clause that applies. -/
def choose (env : Environment Value) : Branches → Except ContractViolation (Outcome Value)
  | .otherwise value => eval env value
  | .clause predicate consequent rest => do
    let p ← eval env predicate
    match p.value with
    | .boolean true =>
      let c ← eval env consequent
      return ⟨c.value, p.findings ++ c.findings⟩
    | .boolean false =>
      let r ← choose env rest
      return ⟨r.value, p.findings ++ r.findings⟩
    | .undefined => return ⟨.undefined, p.findings⟩
    | .number _ =>
      let mismatch : Finding := ⟨.predicateNotBoolean .number, predicate.span, predicate.span⟩
      return ⟨.undefined, p.findings ++ [mismatch]⟩

end

end Concrete

/-- Runs a program on values. -/
def Program.interpret (p : Program) (sources : Bindings Value) :
    Except ContractViolation (Evaluation Value) :=
  p.run Concrete.eval sources

end RangeRules
