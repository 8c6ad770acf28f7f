import RangeRules.Expr
import RangeRules.Number.Shortest
import RangeRules.Text.Quoted

/-!
# Outlines

The tree of a program in full, for someone who wants to see how it was read: a line for each part,
indented by its depth and ended by a comma.
-/
namespace RangeRules.Outline

/-- The indentation of a depth. -/
def indent (depth : Nat) : String := String.ofList (List.replicate (4 * depth) ' ')

/-- Items between two brackets, a line for each; the brackets alone if there are none. -/
def block (depth : Nat) (opening closing : String) (items : List String) : String :=
  if items.isEmpty then opening ++ closing
  else
    opening ++ "\n" ++ String.join (items.map fun item => indent (depth + 1) ++ item ++ ",\n") ++
      indent depth ++ closing

/-- A named part with its fields. -/
def record (depth : Nat) (name : String) (fields : List String) : String :=
  block depth (name ++ " \x7b") "\x7d" fields

/-- A named part with one content. -/
def wrap (depth : Nat) (name content : String) : String :=
  block depth (name ++ "(") ")" [content]

def quoted (s : String) : String := String.ofList (Text.quoted s.toList)

def arithmeticName : Arithmetic → String
  | .add => "Add"
  | .sub => "Sub"
  | .mul => "Mul"
  | .div => "Div"

def comparisonName : Comparison → String
  | .lt => "Lt"
  | .le => "Le"
  | .gt => "Gt"
  | .ge => "Ge"
  | .eq => "Eq"
  | .ne => "Ne"

/-- The name of an operator and of the nodes that it makes. -/
def operatorNames : Operator → String × String
  | .arithmetic op => ("Binary", arithmeticName op)
  | .comparison op => ("Comparison", comparisonName op)

mutual

def expr (depth : Nat) : Expr → String
  | .number _ x => wrap depth "Literal" ("Number(" ++ Number.text x ++ ")")
  | .boolean _ b => wrap depth "Literal" (if b then "Bool(true)" else "Bool(false)")
  | .variable _ name => wrap depth "Variable" (quoted name)
  | .source _ name => wrap depth "Source" (quoted name)
  | .operate _ op l r =>
    let names := operatorNames op
    record depth names.1
      ["op: " ++ names.2, "left: " ++ expr (depth + 1) l, "right: " ++ expr (depth + 1) r]
  | .choose _ branches =>
    record depth "When"
      ["clauses: " ++ block (depth + 1) "[" "]" (clauses (depth + 2) branches),
       "otherwise: " ++ fallback (depth + 1) branches]

/-- The clauses of a `when` expression, each at the given depth. -/
def clauses (depth : Nat) : Branches → List String
  | .otherwise _ => []
  | .clause p c rest =>
    record depth "WhenClause"
      ["predicate: " ++ expr (depth + 1) p, "consequent: " ++ expr (depth + 1) c] ::
      clauses depth rest

def fallback (depth : Nat) : Branches → String
  | .otherwise e => expr depth e
  | .clause _ _ rest => fallback depth rest

end

def statement (s : Statement) : String :=
  let kind := match s with
    | .variable .. => "Variable"
    | .sink .. => "Sink"
  record 1 kind ["name: " ++ quoted s.name, "expr: " ++ expr 2 s.body]

/-- The outline of a program. -/
def program (p : Program) : String := block 0 "[" "]" (p.statements.map statement)

end RangeRules.Outline
