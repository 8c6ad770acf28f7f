import RangeRules.Text.Blank
import RangeRules.Text.Wide
import RangeRules.Text.ZeroWidth

/-!
# Cells

How many cells of a grid a character takes when it is drawn: none for marks and characters that are
not seen, two for wide ones, and one for most. Within a line blanks take one cell, except a tab,
which reaches up to the next multiple of four columns.
-/
namespace RangeRules.Text

/-- The controls, which are no part of a line. -/
def isControl (c : Char) : Bool := c.toNat < 0x20 || (0x7F ≤ c.toNat && c.toNat < 0xA0)

/-- The Khmer sign for "and so on", which stands for three signs. -/
def etcetera : Char := '\u17d8'

/-- The cells of a character by itself. Controls have none to speak of. -/
def cellWidth? (c : Char) : Option Nat :=
  if isControl c then none
  else if c.toNat < 0x7F then some 1
  else if zeroWidthRanges.has c then some 0
  else if wideRanges.has c then some 2
  else if c = etcetera then some 3
  else some 1

/-- The distance between two tab stops. -/
def tabStop : Nat := 4

/-- The cells of a character in the given column. -/
def cells (column : Nat) (c : Char) : Nat :=
  if c = '\t' then tabStop - column % tabStop
  else if isBlank c then 1
  else (cellWidth? c).getD 1

end RangeRules.Text
