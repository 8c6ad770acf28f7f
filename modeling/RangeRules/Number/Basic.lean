/-!
# Numbers

Programs compute with binary64 numbers: every operation rounds its exact result once, to nearest,
and there are two zeros, two infinities and a value that is not a number. The two zeros are equal,
and a value that is not a number is neither equal nor ordered to anything.
-/
namespace RangeRules

abbrev Number := Float

namespace Number

def infinity : Number := 1.0 / 0.0

def notANumber : Number := 0.0 / 0.0

/-- The largest finite number. -/
def largest : Number := Float.ofBits 0x7FEFFFFFFFFFFFFF

def isZero (x : Number) : Bool := x == 0.0

/-- The lesser of two numbers, the first if they are equal. -/
def lesser (x y : Number) : Number := if x ≤ y then x else y

/-- The greater of two numbers, the first if they are equal. -/
def greater (x y : Number) : Number := if y ≤ x then x else y

end Number

end RangeRules
