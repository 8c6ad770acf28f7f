import RangeRules.Number.Basic
import RangeRules.Operator
import RangeRules.Text.Location

/-!
# Expressions

The tree of an expression, every node with the place it was read from. Two runs of one tree differ
only in what a value is. A tree need not come from a text: its places may then be empty, its
numbers infinite and its `when` expressions without a clause.
-/
namespace RangeRules

open Text (Span)

mutual

inductive Expr where
  | number (span : Span) (value : Number)
  | boolean (span : Span) (value : Bool)
  /-- A variable assigned by an earlier statement. -/
  | variable (span : Span) (name : String)
  /-- A source, written `this.name`. -/
  | source (span : Span) (name : String)
  | operate (span : Span) (op : Operator) (left right : Expr)
  | choose (span : Span) (branches : Branches)

/-- The clauses of a `when` expression and, last, its `otherwise`. -/
inductive Branches where
  | otherwise (value : Expr)
  | clause (predicate consequent : Expr) (rest : Branches)

end

def Expr.span : Expr → Span
  | .number s _ | .boolean s _ | .variable s _ | .source s _ | .operate s .. | .choose s _ => s

/-- The same expression with another place, as parentheses give it. -/
def Expr.withSpan (span : Span) : Expr → Expr
  | .number _ v => .number span v
  | .boolean _ v => .boolean span v
  | .variable _ n => .variable span n
  | .source _ n => .source span n
  | .operate _ op l r => .operate span op l r
  | .choose _ b => .choose span b

/-- The clauses, each predicate with its consequent. -/
def Branches.clauses : Branches → List (Expr × Expr)
  | .otherwise _ => []
  | .clause p c rest => (p, c) :: rest.clauses

/-- What the expression is when no clause applies. -/
def Branches.fallback : Branches → Expr
  | .otherwise e => e
  | .clause _ _ rest => rest.fallback

inductive Statement where
  /-- Gives a variable its value, in place of any earlier one. -/
  | variable (name : String) (body : Expr)
  /-- Gives a sink its value. -/
  | sink (name : String) (body : Expr)

def Statement.name : Statement → String
  | .variable n _ | .sink n _ => n

def Statement.body : Statement → Expr
  | .variable _ e | .sink _ e => e

/-- A list of statements, and the text that their places refer to. -/
structure Program where
  source : Text.Source
  statements : List Statement

/-- The names of the sinks, in the order of their statements. -/
def Program.sinkNames (p : Program) : List String :=
  p.statements.filterMap fun
    | .sink n _ => some n
    | .variable .. => none

end RangeRules
