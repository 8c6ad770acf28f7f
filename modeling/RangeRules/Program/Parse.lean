import RangeRules.Expr
import RangeRules.Number.Numeral
import RangeRules.Phrase.Read
import RangeRules.Program.Error
import RangeRules.Token.Scan

/-!
# Parsing

A text becomes a program in two steps. It is first read as a whole, so that an error of syntax
anywhere comes before all others. Then the statements are checked in order: an expression has at
most so many levels, its numbers are finite, its variables were assigned by earlier statements, and
no sink is assigned twice. Of the parts of an expression the operands are checked before the
operator, from left to right.

Levels are counted on the way. A `Gauge` knows the level on which the check stands and the deepest
one so far; from it each operand of a chain is measured, and an operator goes one level further
than the taller of its operands.
-/
namespace RangeRules

open Text (Source)

/-- What an expression is checked against. -/
structure Scope where
  limit : Nat
  declared : List String

/-- The level on which a check stands, and the deepest that it has reached. -/
structure Gauge where
  level : Nat
  deepest : Nat

/-- A check, which keeps count of the levels on its way. -/
abbrev Check := StateT Gauge (Except Fault)

/-- Refuses a part that would be the level `depth`, if that is too deep. -/
def Scope.enter (scope : Scope) (depth : Nat) (span : Text.Span) : Check Unit := do
  unless depth ≤ scope.limit do throw ⟨.maxDepthExceeded depth scope.limit, span⟩
  modify fun g => { g with deepest := max g.deepest depth }

/-- Checks a part one level further down. -/
def Scope.below (scope : Scope) (span : Text.Span) (part : Check α) : Check α := do
  let depth := (← get).level + 1
  scope.enter depth span
  modify fun g => { g with level := depth }
  let result ← part
  modify fun g => { g with level := depth - 1 }
  return result

/-- Checks an operand of a chain at the level `base`, and tells how many levels further it goes. -/
def Scope.operand (scope : Scope) (base : Nat) (span : Text.Span) (part : Check α) :
    Check (α × Nat) := do
  let outer := (← get).deepest
  modify fun g => { g with deepest := base }
  let result ← scope.below span part
  let reached := (← get).deepest
  modify fun g => { g with deepest := max reached outer }
  return (result, reached - base)

mutual

/-- The tree of a term in a chain at the level `base`, and how many levels further it goes. -/
def Term.check (scope : Scope) (base : Nat) : Term → Check (Expr × Nat)
  | .number span digits => scope.operand base span do
    let value := Number.ofLiteral digits
    if value.isFinite then return .number span value
    else throw ⟨.invalidNumber (String.ofList digits), span⟩
  | .boolean span value => scope.operand base span do
    return .boolean span value
  | .source span name => scope.operand base span do
    return .source span name
  | .variable span name => scope.operand base span do
    if scope.declared.contains name then return .variable span name
    else throw ⟨.unboundVariable name, span⟩
  | .group span inner => scope.operand base span do
    return (← inner.check scope).withSpan span
  | .operate op left right => do
    let (l, leftHeight) ← left.check scope base
    let (r, rightHeight) ← right.check scope base
    let span := Text.Span.cover left.span right.span
    let height := max leftHeight rightHeight + 1
    scope.enter (base + height) span
    return (.operate span op l r, height)

/-- The tree of an expression. -/
def Phrase.check (scope : Scope) : Phrase → Check Expr
  | .chain span top => scope.below span do
    let base := (← get).level
    let (e, _) ← top.check scope base
    return e
  | .choose span branches => scope.below span do
    return .choose span (← branches.check scope)

def PhraseBranches.check (scope : Scope) : PhraseBranches → Check Branches
  | .otherwise value => do
    return .otherwise (← value.check scope)
  | .clause p c rest => do
    return .clause (← p.check scope) (← c.check scope) (← rest.check scope)

end

/-- The statements as trees, where earlier ones have assigned `declared` and `sinks`. -/
def checkStatements (limit : Nat) (declared sinks : List String) :
    List WrittenStatement → Check (List Statement)
  | [] => return []
  | s :: rest => do
    let body ← s.body.check ⟨limit, declared⟩
    if s.isSink then
      if sinks.contains s.name then throw ⟨.duplicateSink s.name, s.span⟩
      return .sink s.name body :: (← checkStatements limit declared (s.name :: sinks) rest)
    else
      return .variable s.name body :: (← checkStatements limit (s.name :: declared) sinks rest)

namespace Program

/-- How many levels an expression may have unless a caller says otherwise. -/
def defaultLimit : Nat := 256

/-- The statements of a text as written. -/
def read (source : Source) : Except Attempts (List WrittenStatement) :=
  let seq := Token.Sequence.of source
  Phrase.Read.program seq.finish seq.tokens

/-- Parses a text whose expressions may have at most `limit` levels. -/
def parseWithin (limit : Nat) (source : Source) : Except ParseError Program :=
  match read source with
  | .error a =>
    .error (.ofRefusal source ⟨a.furthest, a.furthest⟩ limit (.rules (Rule.sorted a.rules) []))
  | .ok written =>
    match checkStatements limit [] [] written ⟨0, 0⟩ with
    | .error fault => .error ⟨fault.cause, source, fault.span⟩
    | .ok (statements, _) => .ok ⟨source, statements⟩

def parse (source : Source) : Except ParseError Program := parseWithin defaultLimit source

end Program

end RangeRules
