import RangeRules.Number.Shortest
import RangeRules.Value.BooleanSet

/-!
# Intervals

The numbers between two bounds, both included. A lower bound may be minus infinity and an upper
bound infinity, so that every interval has a finite number in it; `Interval.WellFormed` says so.
The operations on intervals compute with bounds only. Where a result would leave the form, because
a sum of bounds is not a number or both overflow to one side, it is widened.
-/
namespace RangeRules

structure Interval where
  lo : Number
  hi : Number

/-- Why two bounds make no interval. -/
inductive IntervalError where
  | notANumber
  | inverted (lo hi : Number)
  | noRealValue (lo hi : Number)

def IntervalError.message : IntervalError → String
  | .notANumber => "interval bound is not a number"
  | .inverted lo hi => s!"lower bound {lo.text} is greater than upper bound {hi.text}"
  | .noRealValue lo hi => s!"interval [{lo.text}, {hi.text}] contains no real number"

namespace Interval

/-- The bounds are ordered and leave room for a finite number. -/
structure WellFormed (i : Interval) : Prop where
  ordered : i.lo ≤ i.hi
  lo_lt : i.lo < Number.infinity
  lt_hi : -Number.infinity < i.hi

/-- The interval with the given bounds, if there is one. -/
def make? (lo hi : Number) : Except IntervalError Interval :=
  if lo.isNaN ∨ hi.isNaN then .error .notANumber
  else if hi < lo then .error (.inverted lo hi)
  else if lo == Number.infinity ∨ hi == -Number.infinity then .error (.noRealValue lo hi)
  else .ok ⟨lo, hi⟩

/-- All numbers. -/
def entire : Interval := ⟨-Number.infinity, Number.infinity⟩

/-- The interval of one number, which should be finite. -/
def singleton (x : Number) : Interval := ⟨x, x⟩

def isSingleton (i : Interval) : Bool := i.lo == i.hi

def contains (i : Interval) (x : Number) : Bool := i.lo ≤ x ∧ x ≤ i.hi

def containsZero (i : Interval) : Bool := i.contains 0.0

/-- Whether the second interval lies within the first. -/
def encloses (i j : Interval) : Bool := i.lo ≤ j.lo ∧ j.hi ≤ i.hi

/-- Whether two intervals have equal bounds. -/
def same (i j : Interval) : Bool := i.lo == j.lo ∧ i.hi == j.hi

/-- The interval between two computed bounds, widened if they do not make one. -/
def between (lo hi : Number) : Interval :=
  if lo.isNaN ∨ hi.isNaN then entire
  else
    ⟨if lo == Number.infinity then Number.largest else lo,
     if hi == -Number.infinity then -Number.largest else hi⟩

/-- The least interval with four computed numbers in it. -/
def hull (a b c d : Number) : Interval :=
  if a.isNaN ∨ b.isNaN ∨ c.isNaN ∨ d.isNaN then entire
  else between (Number.lesser (Number.lesser a b) (Number.lesser c d))
    (Number.greater (Number.greater a b) (Number.greater c d))

def add (i j : Interval) : Interval := between (i.lo + j.lo) (i.hi + j.hi)

def sub (i j : Interval) : Interval := between (i.lo - j.hi) (i.hi - j.lo)

/-- A product of bounds. Zero times an infinite bound is zero, since no factor is infinite. -/
def boundProduct (x y : Number) : Number := if x.isZero ∨ y.isZero then 0.0 else x * y

def mul (i j : Interval) : Interval :=
  hull (boundProduct i.lo j.lo) (boundProduct i.lo j.hi)
    (boundProduct i.hi j.lo) (boundProduct i.hi j.hi)

/-- A quotient; nothing is known of it when the divisor may be zero. -/
def div (i j : Interval) : Interval :=
  if j.containsZero then entire
  else hull (i.lo / j.lo) (i.lo / j.hi) (i.hi / j.lo) (i.hi / j.hi)

/-- The least interval that encloses both. -/
def union (i j : Interval) : Interval := ⟨Number.lesser i.lo j.lo, Number.greater i.hi j.hi⟩

def lt (i j : Interval) : BooleanSet :=
  if i.hi < j.lo then .onlyTrue else if j.hi ≤ i.lo then .onlyFalse else .both

def le (i j : Interval) : BooleanSet :=
  if i.hi ≤ j.lo then .onlyTrue else if j.hi < i.lo then .onlyFalse else .both

def gt (i j : Interval) : BooleanSet := j.lt i

def ge (i j : Interval) : BooleanSet := j.le i

/-- Equality is certain of two equal points only, and excluded of two intervals apart. -/
def eq (i j : Interval) : BooleanSet :=
  if i.isSingleton ∧ j.isSingleton ∧ i.lo == j.lo then .onlyTrue
  else if i.hi < j.lo ∨ j.hi < i.lo then .onlyFalse
  else .both

def ne (i j : Interval) : BooleanSet := (i.eq j).not

def boundText (x : Number) : String :=
  if x == Number.infinity then "+∞"
  else if x == -Number.infinity then "-∞"
  else x.plainText

def text (i : Interval) : String := "[" ++ boundText i.lo ++ "," ++ boundText i.hi ++ "]"

end Interval

end RangeRules
