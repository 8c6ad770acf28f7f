import RangeRules.Number.Basic

/-!
# The shortest decimal of a number

A finite number is rounded to from a whole interval of reals. Its shortest decimal is a multiple of
the largest power of ten that has a multiple in that interval, and of these multiples the one
nearest to the number; when two are equally near it is the greater. All of this is exact
arithmetic on natural numbers.
-/
namespace RangeRules.Number

/-- A positive number `mantissa · 2 ^ place`, and whether the number below it is half as far away. -/
structure Binary where
  mantissa : Nat
  place : Int
  narrowBelow : Bool

/-- The magnitude of a finite number, read off its bits. -/
def Binary.ofNumber (x : Number) : Binary :=
  let bits : Nat := x.toBits.toNat
  let fraction : Nat := bits % Nat.pow 2 52
  let exponent : Nat := bits / Nat.pow 2 52 % Nat.pow 2 11
  if exponent = 0 then ⟨fraction, -1074, false⟩
  else ⟨Nat.pow 2 52 + fraction, (exponent : Int) - 1075, fraction = 0 ∧ 1 < exponent⟩

/-- The reals that round to a number, in units of a quarter of its last binary place. -/
structure Rounding where
  low : Nat
  center : Nat
  high : Nat
  /-- Whether the two ends round to the number too. -/
  closed : Bool
  /-- The unit is `2 ^ unit`. -/
  unit : Int

def Binary.rounding (b : Binary) : Rounding where
  low := 4 * b.mantissa - if b.narrowBelow then 1 else 2
  center := 4 * b.mantissa
  high := 4 * b.mantissa + 2
  closed := b.mantissa % 2 = 0
  unit := b.place - 2

/-- The multiples of `10 ^ exponent`, each of which is `step / scale` units. -/
structure Grid where
  step : Nat
  scale : Nat

def Rounding.grid (r : Rounding) (exponent : Int) : Grid where
  step := Nat.pow 10 exponent.toNat * Nat.pow 2 (-r.unit).toNat
  scale := Nat.pow 10 (-exponent).toNat * Nat.pow 2 r.unit.toNat

/-- Whether the multiple `n` of a grid rounds to the number. -/
def Rounding.admits (r : Rounding) (g : Grid) (n : Nat) : Bool :=
  if r.closed then r.low * g.scale ≤ n * g.step ∧ n * g.step ≤ r.high * g.scale
  else r.low * g.scale < n * g.step ∧ n * g.step < r.high * g.scale

/-- The nearest multiple of a grid that rounds to the number, if there is one. -/
def Rounding.nearest? (r : Rounding) (g : Grid) : Option Nat :=
  let below := r.center * g.scale / g.step
  let remainder := r.center * g.scale % g.step
  match r.admits g below, r.admits g (below + 1) with
  | true, true => some (if 2 * remainder < g.step then below else below + 1)
  | true, false => some below
  | false, true => some (below + 1)
  | false, false => none

/-- The first of `count` ever finer grids, from `10 ^ exponent` on, with a multiple in reach. -/
def Rounding.search (r : Rounding) : (count : Nat) → (exponent : Int) → Option (Nat × Int)
  | 0, _ => none
  | count + 1, exponent =>
    match r.nearest? (r.grid exponent) with
    | some n => some (n, exponent)
    | none => r.search count (exponent - 1)

/-- An exponent of ten at which every multiple but zero lies beyond the number. -/
def Binary.topExponent (b : Binary) : Int :=
  (b.mantissa.log2 + 1 + b.place) * 30103 / 100000 + 2

/--
The shortest decimal of a positive number, as digits and an exponent of ten. The search ends by
the place of the number itself, on whose grid it lies.
-/
def Binary.shortest (b : Binary) : Nat × Int :=
  let r := b.rounding
  (r.search (b.topExponent - min r.unit 0 + 1).toNat b.topExponent).getD (0, 0)

/-- A decimal in positional notation, without exponent. -/
def positional (digits : Nat) (exponent : Int) : List Char :=
  let ds := Nat.toDigits 10 digits
  if 0 ≤ exponent then ds ++ List.replicate exponent.toNat '0'
  else
    let places := (-exponent).toNat
    let ds := List.replicate (places + 1 - ds.length) '0' ++ ds
    ds.take (ds.length - places) ++ '.' :: ds.drop (ds.length - places)

/-- The text of a number: its shortest decimal, with a minus sign on the negative ones and on `-0`. -/
def text (x : Number) : String :=
  if x.isNaN then "NaN"
  else
    let sign := if x.toBits.toNat / Nat.pow 2 63 = 1 then "-" else ""
    if x.isInf then sign ++ "inf"
    else if x.isZero then sign ++ "0"
    else
      let (digits, exponent) := (Binary.ofNumber x).shortest
      sign ++ String.ofList (positional digits exponent)

/-- The text of a number where the two zeros are shown alike. -/
def plainText (x : Number) : String := if x.isZero then "0" else x.text

end RangeRules.Number
