import RangeRules.Operator

/-!
# The rules of the grammar

Each rule has the name by which it is known outside, a place in the order of the grammar, and the
concept that a reader is told was expected where the rule could not be matched.
-/
namespace RangeRules

inductive Rule where
  | endOfInput
  | whitespace | comment
  | program | statement | variableAssignment | sinkAssignment
  | expression | whenExpr | whenClause | otherwiseClause
  | binary | arithmetic | arithmeticOp | comparisonOp
  | add | sub | mul | div | le | ge | eq | ne | lt | gt
  | operand | grouped | sourceRef | variableRef | boolean | number
  | ident | identChar | keyword | kwWhen | kwOtherwise | kwThis
deriving DecidableEq

namespace Rule

/-- All rules, the end of the input first and the others as the grammar lists them. -/
def all : List Rule :=
  [.endOfInput, .whitespace, .comment, .program, .statement, .variableAssignment, .sinkAssignment,
   .expression, .whenExpr, .whenClause, .otherwiseClause, .binary, .arithmetic, .arithmeticOp,
   .comparisonOp, .add, .sub, .mul, .div, .le, .ge, .eq, .ne, .lt, .gt, .operand, .grouped,
   .sourceRef, .variableRef, .boolean, .number, .ident, .identChar, .keyword, .kwWhen,
   .kwOtherwise, .kwThis]

def name : Rule → String
  | .endOfInput => "EOI"
  | .whitespace => "WHITESPACE"
  | .comment => "COMMENT"
  | .program => "program"
  | .statement => "statement"
  | .variableAssignment => "variable_assignment"
  | .sinkAssignment => "sink_assignment"
  | .expression => "expression"
  | .whenExpr => "when_expr"
  | .whenClause => "when_clause"
  | .otherwiseClause => "otherwise_clause"
  | .binary => "binary"
  | .arithmetic => "arithmetic"
  | .arithmeticOp => "arithmetic_op"
  | .comparisonOp => "comparison_op"
  | .add => "add"
  | .sub => "sub"
  | .mul => "mul"
  | .div => "div"
  | .le => "le"
  | .ge => "ge"
  | .eq => "eq"
  | .ne => "ne"
  | .lt => "lt"
  | .gt => "gt"
  | .operand => "operand"
  | .grouped => "grouped"
  | .sourceRef => "source_ref"
  | .variableRef => "variable_ref"
  | .boolean => "boolean"
  | .number => "number"
  | .ident => "ident"
  | .identChar => "ident_char"
  | .keyword => "keyword"
  | .kwWhen => "kw_when"
  | .kwOtherwise => "kw_otherwise"
  | .kwThis => "kw_this"

/-- The rule that matches one operator. -/
def ofOperator : Operator → Rule
  | .arithmetic .add => .add
  | .arithmetic .sub => .sub
  | .arithmetic .mul => .mul
  | .arithmetic .div => .div
  | .comparison .lt => .lt
  | .comparison .le => .le
  | .comparison .gt => .gt
  | .comparison .ge => .ge
  | .comparison .eq => .eq
  | .comparison .ne => .ne

/-- What an error message calls a rule. -/
def concept : Rule → String
  | .variableAssignment | .sinkAssignment => "statement"
  | .number | .boolean => "literal"
  | .ident | .variableRef => "identifier"
  | .sourceRef | .kwThis => "source reference"
  | .add | .sub | .mul | .div | .lt | .le | .gt | .ge | .eq | .ne => "operator"
  | .kwWhen | .whenClause => "`when`"
  | .kwOtherwise | .otherwiseClause => "`otherwise`"
  | .endOfInput => "end of input"
  | _ => "expression"

/-- The given rules without repetition, in the order of the grammar. -/
def sorted (rules : List Rule) : List Rule := all.filter rules.contains

end Rule

end RangeRules
