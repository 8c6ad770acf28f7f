/-!
# Ranges of characters

A class of characters is given as the ranges of their code points, in ascending order and apart from
each other. Both ends belong to a range.
-/
namespace RangeRules.Text

abbrev Ranges := List (Nat × Nat)

/-- Whether one of the ranges includes a character. -/
def Ranges.has (ranges : Ranges) (c : Char) : Bool :=
  ranges.any fun (first, last) => first ≤ c.toNat && c.toNat ≤ last

end RangeRules.Text
