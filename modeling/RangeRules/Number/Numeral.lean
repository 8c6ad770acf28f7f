import RangeRules.Number.Basic

/-!
# Numerals

A numeral is a decimal: a whole number of digits times a power of ten. Its value is the number
nearest to it, which is infinite beyond the largest finite number. Two written forms are read.
A program writes plain digits with an optional fraction; an argument may also have a sign, an
exponent, a point at either end, and the words `inf`, `infinity` and `nan` in any case.
-/
namespace RangeRules

/-- The decimal `digits · 10 ^ exponent`. -/
structure Numeral where
  digits : Nat
  exponent : Int
deriving DecidableEq

namespace Numeral

def digitValue (c : Char) : Nat := c.toNat - '0'.toNat

def ofDigits (cs : List Char) : Nat := cs.foldl (fun n c => 10 * n + digitValue c) 0

/-- The decimal with the given digits before and after its point. -/
def ofParts (whole fraction : List Char) (exponent : Int) : Numeral :=
  ⟨ofDigits (whole ++ fraction), exponent - fraction.length⟩

/--
Brings the exponent into the range where it can matter. Above it a nonzero decimal exceeds every
finite number, and below it the decimal is less than half of the least positive one.
-/
def clampExponent (n : Numeral) : Int :=
  max (-(400 + n.digits.log2)) (min 400 n.exponent)

/-- The number nearest to a decimal. -/
def value (n : Numeral) : Number :=
  let e := n.clampExponent
  Float.ofScientific n.digits (e < 0) e.natAbs

/-- An optional exponent that ends the text. -/
def exponent? : List Char → Option Int
  | [] => some 0
  | c :: cs =>
    if c = 'e' ∨ c = 'E' then
      match cs with
      | '-' :: ds => (magnitude? ds).map fun n => -(n : Int)
      | '+' :: ds => (magnitude? ds).map fun n => (n : Int)
      | ds => (magnitude? ds).map fun n => (n : Int)
    else none
where
  magnitude? (ds : List Char) : Option Nat :=
    if ds ≠ [] ∧ ds.all Char.isDigit then some (ofDigits ds) else none

/-- The digits before a point and after it, and what follows them. -/
def parts (cs : List Char) : List Char × List Char × List Char :=
  let whole := cs.takeWhile Char.isDigit
  match cs.dropWhile Char.isDigit with
  | '.' :: rest => (whole, rest.takeWhile Char.isDigit, rest.dropWhile Char.isDigit)
  | rest => (whole, [], rest)

/-- A decimal without sign: at least one digit, on either side of an optional point. -/
def unsigned? (cs : List Char) : Option Numeral :=
  let (whole, fraction, rest) := parts cs
  if whole = [] ∧ fraction = [] then none
  else (exponent? rest).map (ofParts whole fraction)

end Numeral

namespace Number

/-- The value of a number as a program writes it, infinite if it is too large. -/
def ofLiteral (cs : List Char) : Number :=
  let (whole, fraction, _) := Numeral.parts cs
  (Numeral.ofParts whole fraction 0).value

/-- A number as an argument writes it, without its sign. -/
def unsigned? (cs : List Char) : Option Number :=
  let word := String.ofList (cs.map Char.toLower)
  if word = "inf" ∨ word = "infinity" then some infinity
  else if word = "nan" then some notANumber
  else (Numeral.unsigned? cs).map Numeral.value

/-- A number as an argument writes it. -/
def read? : List Char → Option Number
  | '-' :: cs => (unsigned? cs).map fun x => -x
  | '+' :: cs => unsigned? cs
  | cs => unsigned? cs

end Number

end RangeRules
