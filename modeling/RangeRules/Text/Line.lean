import RangeRules.Text.Location

/-!
# Lines

The lines of a text as a report shows them. Every mandatory break of a line counts as its end, not
only a line feed, and a return followed by a line feed is one break. A break at the end of the text
opens no further line, and the empty text has one line.
-/
namespace RangeRules.Text

/-- A character that ends a line. -/
def isBreak (c : Char) : Bool :=
  let n := c.toNat
  (10 ≤ n && n ≤ 13) || n = 0x85 || n = 0x2028 || n = 0x2029

/-- A text cut after each break. -/
def splitBreaks : Source → List Source
  | [] => []
  | c :: cs =>
    if isBreak c ∧ ¬(c = '\r' ∧ cs.head? = some '\n') then [c] :: splitBreaks cs
    else
      match splitBreaks cs with
      | [] => [[c]]
      | line :: lines => (c :: line) :: lines

/-- A line with its break, and where it stands. -/
structure Line where
  /-- Its number, counted from one. -/
  number : Nat
  /-- The characters before it. -/
  start : Nat
  /-- The bytes before it. -/
  startByte : Nat
  text : Source

/-- Numbers lines on from a place. -/
def numberLines (number start startByte : Nat) : List Source → List Line
  | [] => []
  | t :: ts =>
    ⟨number, start, startByte, t⟩ ::
      numberLines (number + 1) (start + t.length) (startByte + byteCount t) ts

/-- The lines of a text. -/
def linesOf (source : Source) : List Line :=
  match splitBreaks source with
  | [] => [⟨1, 0, 0, []⟩]
  | ts => numberLines 1 0 0 ts

/-- The last of some lines that starts at or before an offset. -/
def lineAt? (lines : List Line) (offset : Nat) : Option Line :=
  (lines.takeWhile fun l => l.startByte ≤ offset).getLast?

/-- How many characters of a line end at or before an offset. -/
def Line.charsBefore (l : Line) (offset : Nat) : Nat :=
  (takeBytes (offset - l.startByte) l.text).length

end RangeRules.Text
