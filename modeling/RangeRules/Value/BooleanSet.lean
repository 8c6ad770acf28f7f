/-!
# Sets of booleans

A nonempty set of booleans: what is known of a boolean that is not computed. The connectives are
Kleene's, and the union of two sets is the least set that includes both.
-/
namespace RangeRules

inductive BooleanSet where
  | onlyTrue | onlyFalse | both
deriving DecidableEq

namespace BooleanSet

/-- The set of one boolean. -/
def singleton : Bool → BooleanSet
  | true => .onlyTrue
  | false => .onlyFalse

def contains : BooleanSet → Bool → Bool
  | .onlyTrue, b => b
  | .onlyFalse, b => !b
  | .both, _ => true

/-- The only element of a set, if it has only one. -/
def value? : BooleanSet → Option Bool
  | .onlyTrue => some true
  | .onlyFalse => some false
  | .both => none

def not : BooleanSet → BooleanSet
  | .onlyTrue => .onlyFalse
  | .onlyFalse => .onlyTrue
  | .both => .both

def and : BooleanSet → BooleanSet → BooleanSet
  | .onlyFalse, _ | _, .onlyFalse => .onlyFalse
  | .onlyTrue, .onlyTrue => .onlyTrue
  | _, _ => .both

def or : BooleanSet → BooleanSet → BooleanSet
  | .onlyTrue, _ | _, .onlyTrue => .onlyTrue
  | .onlyFalse, .onlyFalse => .onlyFalse
  | _, _ => .both

def union (a b : BooleanSet) : BooleanSet := if a = b then a else .both

/-- Whether every element of the second set is in the first. -/
def encloses (a b : BooleanSet) : Bool := a = b ∨ a = .both

def text : BooleanSet → String
  | .onlyTrue => "\x7btrue\x7d"
  | .onlyFalse => "\x7bfalse\x7d"
  | .both => "\x7btrue,false\x7d"

end BooleanSet

end RangeRules
