import RangeRules.Evaluation.Basic
import RangeRules.Value.Abstract

/-!
# Evaluation on abstract values

Sources are descriptions of values, and so are results: what an expression may compute from any of
the values described. Every part of a `when` expression whose predicates are booleans is evaluated,
also one that no run on values reaches, so that no problem of type is hidden. The result unites
`otherwise` with the consequents of the clauses that may apply.
-/
namespace RangeRules

/-- What is reported beyond problems of type and clauses that never apply. -/
structure AnalysisOptions where
  /-- Whether to report divisors that may be zero. -/
  precisionLoss : Bool
  /-- Whether to report an `otherwise` that some predicate shuts out. -/
  unreachableOtherwise : Bool

/-- Nothing beyond. -/
def AnalysisOptions.plain : AnalysisOptions := ⟨false, false⟩

def Arithmetic.onIntervals : Arithmetic → Interval → Interval → Interval
  | .add => .add
  | .sub => .sub
  | .mul => .mul
  | .div => .div

def Comparison.onIntervals : Comparison → Interval → Interval → BooleanSet
  | .lt => Interval.lt
  | .le => Interval.le
  | .gt => Interval.gt
  | .ge => Interval.ge
  | .eq => Interval.eq
  | .ne => Interval.ne

namespace Abstract

/-- Applies an operator to two intervals. -/
def compute (options : AnalysisOptions) (op : Operator) (rightSpan : Text.Span)
    (i j : Interval) : Outcome AbstractValue :=
  match op with
  | .comparison op => ⟨.boolean (op.onIntervals i j), []⟩
  | .arithmetic op =>
    let loss := options.precisionLoss && op = .div && j.containsZero
    ⟨.interval (op.onIntervals i j), if loss then [⟨.precisionLoss, rightSpan, rightSpan⟩] else []⟩

/--
Applies an operator to two abstract values. The first operand that is no interval is a problem,
unless either is undefined, which was a problem before.
-/
def operate (options : AnalysisOptions) (op : Operator) (leftSpan rightSpan : Text.Span) :
    AbstractValue → AbstractValue → Outcome AbstractValue
  | .interval i, .interval j => compute options op rightSpan i j
  | .undefined, _ | _, .undefined => ⟨.undefined, []⟩
  | .interval _, .boolean _ =>
    ⟨.undefined, [⟨.nonNumericOperand op .boolean, rightSpan, rightSpan⟩]⟩
  | .boolean _, _ => ⟨.undefined, [⟨.nonNumericOperand op .boolean, leftSpan, leftSpan⟩]⟩

/-- The problem of a predicate with the given value, if it is no boolean. -/
def predicateFindings (span : Text.Span) : AbstractValue → List Finding
  | .interval _ => [⟨.predicateNotBoolean .number, span, span⟩]
  | .boolean _ | .undefined => []

/-- The sets that all of some predicates are, if all are sets. -/
def predicateSets? : List AbstractValue → Option (List BooleanSet)
  | [] => some []
  | .boolean set :: rest => (predicateSets? rest).map (set :: ·)
  | _ :: _ => none

/-- The clauses that never apply. -/
def unreachableFindings (branches : Branches) (predicates : List BooleanSet) : List Finding :=
  (branches.clauses.zip predicates).filterMap fun (clause, set) =>
    if set.contains true then none else some ⟨.unreachableClause, clause.1.span, clause.1.span⟩

/-- The `otherwise` that never applies, if that is to be reported. -/
def otherwiseFindings (options : AnalysisOptions) (branches : Branches)
    (predicates : List BooleanSet) : List Finding :=
  if options.unreachableOtherwise && predicates.contains .onlyTrue then
    [⟨.unreachableOtherwise, branches.fallback.span, branches.fallback.span⟩]
  else []

/-- The consequents with their places, `otherwise` last. -/
def consequentSpans (branches : Branches) : List Text.Span :=
  branches.clauses.map (·.2.span) ++ [branches.fallback.span]

/-- The first of some consequents whose type differs from the given one. -/
def firstMismatch? (type : ValueType) (consequents : List (AbstractValue × Text.Span)) :
    Option (AbstractValue × Text.Span) :=
  consequents.find? fun (value, _) => value.type ≠ type

/-- Unites `otherwise` with the consequents of the clauses that may apply. -/
def unite (predicates : List BooleanSet) (consequents : List AbstractValue)
    (otherwise : AbstractValue) : AbstractValue :=
  (predicates.zip consequents).foldl
    (fun all (set, value) => if set.contains true then all.union value else all) otherwise

/-- The value of a `when` expression from the values of its parts. -/
def select (branches : Branches) (predicates : List BooleanSet) (consequents : List AbstractValue)
    (otherwise : AbstractValue) : Outcome AbstractValue :=
  let all := consequents ++ [otherwise]
  if all.any AbstractValue.isUndefined then ⟨.undefined, []⟩
  else
    let expected := (all.headD otherwise).type
    match firstMismatch? expected (all.zip (consequentSpans branches)) with
    | some (value, span) =>
      ⟨.undefined, [⟨.consequentTypeMismatch expected value.type, span, span⟩]⟩
    | none => ⟨unite predicates consequents otherwise, []⟩

mutual

/-- The description of an expression's values. -/
def eval (options : AnalysisOptions) (env : Environment AbstractValue) :
    Expr → Except ContractViolation (Outcome AbstractValue)
  | .number span x =>
    match Interval.make? x x with
    | .ok i => .ok ⟨.interval i, []⟩
    | .error _ => .error (.nonFiniteLiteral x span)
  | .boolean _ b => .ok ⟨.boolean (.singleton b), []⟩
  | .source span name => require (env.source? name) (.unboundSource name span)
  | .variable span name => require (env.local? name) (.unboundVariable name span)
  | .operate _ op left right => do
    let l ← eval options env left
    let r ← eval options env right
    let o := operate options op left.span right.span l.value r.value
    return ⟨o.value, l.findings ++ r.findings ++ o.findings⟩
  | .choose _ branches => do
    let ps ← predicates options env branches
    match predicateSets? ps.value with
    | none => return ⟨.undefined, ps.findings⟩
    | some sets =>
      let dead := unreachableFindings branches sets ++ otherwiseFindings options branches sets
      let cs ← consequents options env branches
      let d ← fallback options env branches
      let chosen := select branches sets cs.value d.value
      return ⟨chosen.value, ps.findings ++ dead ++ cs.findings ++ d.findings ++ chosen.findings⟩

/-- The values of the predicates, with the problem of each that is no boolean. -/
def predicates (options : AnalysisOptions) (env : Environment AbstractValue) :
    Branches → Except ContractViolation (Outcome (List AbstractValue))
  | .otherwise _ => .ok ⟨[], []⟩
  | .clause p _ rest => do
    let v ← eval options env p
    let vs ← predicates options env rest
    return ⟨v.value :: vs.value,
      v.findings ++ predicateFindings p.span v.value ++ vs.findings⟩

/-- The values of the consequents, without `otherwise`. -/
def consequents (options : AnalysisOptions) (env : Environment AbstractValue) :
    Branches → Except ContractViolation (Outcome (List AbstractValue))
  | .otherwise _ => .ok ⟨[], []⟩
  | .clause _ c rest => do
    let v ← eval options env c
    let vs ← consequents options env rest
    return ⟨v.value :: vs.value, v.findings ++ vs.findings⟩

/-- The value of `otherwise`. -/
def fallback (options : AnalysisOptions) (env : Environment AbstractValue) :
    Branches → Except ContractViolation (Outcome AbstractValue)
  | .otherwise e => eval options env e
  | .clause _ _ rest => fallback options env rest

end

end Abstract

/-- Runs a program on descriptions of values. -/
def Program.analyze (p : Program) (sources : Bindings AbstractValue) (options : AnalysisOptions) :
    Except ContractViolation (Evaluation AbstractValue) :=
  p.run (Abstract.eval options) sources

end RangeRules
