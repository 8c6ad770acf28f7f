import RangeRules.Operator
import RangeRules.Text.Location

/-!
# Phrases

A phrase is an expression as written, before anything is asked of its numbers and names: operands,
groups in parentheses, chains of operators and `when` expressions, each with its place. A chain is
kept as the tree that precedence gives it.
-/
namespace RangeRules

open Text (Span)

mutual

/-- An operand, or an operator of a chain with what it is applied to. -/
inductive Term where
  | number (span : Span) (digits : List Char)
  | boolean (span : Span) (value : Bool)
  | source (span : Span) (name : String)
  | variable (span : Span) (name : String)
  | group (span : Span) (inner : Phrase)
  | operate (op : Operator) (left right : Term)

/-- A whole expression. -/
inductive Phrase where
  | chain (span : Span) (top : Term)
  | choose (span : Span) (branches : PhraseBranches)

/-- The clauses of a `when` expression and, last, its `otherwise`. -/
inductive PhraseBranches where
  | otherwise (value : Phrase)
  | clause (predicate consequent : Phrase) (rest : PhraseBranches)

end

/-- The place of a term; an operator spans from its left operand to its right one. -/
def Term.span : Term → Span
  | .number s _ | .boolean s _ | .source s _ | .variable s _ | .group s _ => s
  | .operate _ l r => Span.cover l.span r.span

def Phrase.span : Phrase → Span
  | .chain s _ | .choose s _ => s

mutual

/-- The levels of a term: one for an operand, one more than its inside for a group, one more than
the taller side for an operator. -/
def Term.levels : Term → Nat
  | .number .. | .boolean .. | .source .. | .variable .. => 1
  | .group _ inner => inner.levels + 1
  | .operate _ l r => max l.levels r.levels + 1

/-- The levels of an expression: one more than those of its top, or of its tallest part. -/
def Phrase.levels : Phrase → Nat
  | .chain _ top => top.levels + 1
  | .choose _ branches => branches.levels + 1

def PhraseBranches.levels : PhraseBranches → Nat
  | .otherwise value => value.levels
  | .clause p c rest => max (max p.levels c.levels) rest.levels

end

/-- The operands of an arithmetic chain after the first, each with the operator before it. -/
abbrev Links := List (Arithmetic × Term)

namespace Term

/-- Applies an operator that still waits for its right operand. -/
def complete (waiting : Option (Term × Arithmetic)) (right : Term) : Term :=
  match waiting with
  | none => right
  | some (left, op) => .operate (.arithmetic op) left right

/--
The tree of an arithmetic chain: operators associate to the left, and products are completed
before the sums they stand in. `waiting` is the sum so far with the operator after it, and
`product` the product so far.
-/
def resolveFrom (waiting : Option (Term × Arithmetic)) (product : Term) : Links → Term
  | [] => complete waiting product
  | (op, t) :: rest =>
    if op.bindsTight then resolveFrom waiting (.operate (.arithmetic op) product t) rest
    else resolveFrom (some (complete waiting product, op)) t rest

def resolve (first : Term) (links : Links) : Term := resolveFrom none first links

end Term

/-- A statement as written: `name = body` for a variable, `name: body` for a sink. -/
structure WrittenStatement where
  isSink : Bool
  name : String
  span : Span
  body : Phrase

end RangeRules
