/-!
# Operators

Four operators compute a number from two numbers, and six compare them. In a chain of operators
multiplication and division bind tighter than addition and subtraction, and these tighter than a
comparison.
-/
namespace RangeRules

inductive Arithmetic where
  | add | sub | mul | div
deriving DecidableEq

inductive Comparison where
  | lt | le | gt | ge | eq | ne
deriving DecidableEq

inductive Operator where
  | arithmetic (op : Arithmetic)
  | comparison (op : Comparison)
deriving DecidableEq

def Arithmetic.symbol : Arithmetic → String
  | .add => "+"
  | .sub => "-"
  | .mul => "*"
  | .div => "/"

/-- Whether an operator is a multiplication or a division. -/
def Arithmetic.bindsTight : Arithmetic → Bool
  | .mul | .div => true
  | .add | .sub => false

def Comparison.symbol : Comparison → String
  | .lt => "<"
  | .le => "<="
  | .gt => ">"
  | .ge => ">="
  | .eq => "=="
  | .ne => "!="

def Operator.symbol : Operator → String
  | .arithmetic op => op.symbol
  | .comparison op => op.symbol

end RangeRules
