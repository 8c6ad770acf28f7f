import RangeRules.Diagnostic.Problem
import RangeRules.Value.Interval

/-!
# Values and abstract values

A value is what an expression computes from given sources, and an abstract value describes the
values that it may compute: an interval of numbers or a set of booleans. Either is undefined where
a problem left the expression without a value. `AbstractValue.contains` ties the two together.
-/
namespace RangeRules

inductive Value where
  | number (x : Number)
  | boolean (b : Bool)
  | undefined

inductive AbstractValue where
  | interval (i : Interval)
  | boolean (set : BooleanSet)
  | undefined

namespace Value

def type : Value → ValueType
  | .number _ => .number
  | .boolean _ => .boolean
  | .undefined => .undefined

def isUndefined (v : Value) : Bool := v.type = .undefined

def number? : Value → Option Number
  | .number x => some x
  | _ => none

def boolean? : Value → Option Bool
  | .boolean b => some b
  | _ => none

/-- Whether two values are equal; a number that is none differs even from itself. -/
def same : Value → Value → Bool
  | .number x, .number y => x == y
  | .boolean b, .boolean c => b == c
  | .undefined, .undefined => true
  | _, _ => false

def text : Value → String
  | .number x => x.plainText
  | .boolean b => if b then "true" else "false"
  | .undefined => "undefined"

/--
The most precise description of a value. No interval has an infinite number alone in it, so an
infinity is described together with the finite number next to it.
-/
def lift : Value → AbstractValue
  | .number x =>
    if x.isNaN then .interval .entire
    else if x == Number.infinity then .interval ⟨Number.largest, Number.infinity⟩
    else if x == -Number.infinity then .interval ⟨-Number.infinity, -Number.largest⟩
    else .interval (.singleton x)
  | .boolean b => .boolean (.singleton b)
  | .undefined => .undefined

end Value

namespace AbstractValue

def type : AbstractValue → ValueType
  | .interval _ => .number
  | .boolean _ => .boolean
  | .undefined => .undefined

def isUndefined (a : AbstractValue) : Bool := a.type = .undefined

def interval? : AbstractValue → Option Interval
  | .interval i => some i
  | _ => none

def boolean? : AbstractValue → Option BooleanSet
  | .boolean set => some set
  | _ => none

/-- Whether two descriptions are of the same type. -/
def sameType (a b : AbstractValue) : Bool := a.type = b.type

def same : AbstractValue → AbstractValue → Bool
  | .interval i, .interval j => i.same j
  | .boolean s, .boolean t => s = t
  | .undefined, .undefined => true
  | _, _ => false

/-- What describes all that either describes; nothing does for two types. -/
def union : AbstractValue → AbstractValue → AbstractValue
  | .interval i, .interval j => .interval (i.union j)
  | .boolean s, .boolean t => .boolean (s.union t)
  | _, _ => .undefined

/-- Whether a value is among those described. -/
def contains : AbstractValue → Value → Bool
  | .interval i, .number x => i.contains x
  | .boolean set, .boolean b => set.contains b
  | .undefined, .undefined => true
  | _, _ => false

/-- Whether the first description admits all that the second does. -/
def encloses : AbstractValue → AbstractValue → Bool
  | .interval i, .interval j => i.encloses j
  | .boolean s, .boolean t => s.encloses t
  | .undefined, .undefined => true
  | _, _ => false

def text : AbstractValue → String
  | .interval i => i.text
  | .boolean set => set.text
  | .undefined => "undefined"

end AbstractValue

end RangeRules
