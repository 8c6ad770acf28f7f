import RangeRules.Text.Hidden

/-!
# Quoted texts

A text between double quotes, with an escape for each quote, backslash and character that would not
be seen, or not by itself: line feed, return, tab and zero have short escapes, and the others are
written by number.
-/
namespace RangeRules.Text

/-- The escape of a character by its number. -/
def numericEscape (c : Char) : List Char :=
  ['\\', 'u', '\x7b'] ++ Nat.toDigits 16 c.toNat ++ ['\x7d']

/-- A character inside quotes. -/
def quoteChar (c : Char) : List Char :=
  match c with
  | '"' => ['\\', '"']
  | '\\' => ['\\', '\\']
  | '\n' => ['\\', 'n']
  | '\r' => ['\\', 'r']
  | '\t' => ['\\', 't']
  | '\x00' => ['\\', '0']
  | c => if isHidden c then numericEscape c else [c]

/-- A text in quotes. -/
def quoted (cs : List Char) : List Char := '"' :: cs.flatMap quoteChar ++ ['"']

end RangeRules.Text
