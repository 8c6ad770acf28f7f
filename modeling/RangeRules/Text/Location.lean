/-!
# Places in a text

A text is a list of characters, and places in it are byte offsets of its UTF-8 form. A span is a
range of offsets; a location is what a reader sees instead, a line and a column. Offsets need not
fall between two characters: `Location.of` then moves back to the start of the character, and
`slice` yields nothing.
-/
namespace RangeRules.Text

/-- A text, character by character. -/
abbrev Source := List Char

/-- The number of bytes of a text. -/
def byteCount : Source → Nat
  | [] => 0
  | c :: cs => c.utf8Size + byteCount cs

/-- The longest beginning of a text that takes at most `n` bytes. -/
def takeBytes : Nat → Source → Source
  | _, [] => []
  | n, c :: cs => if c.utf8Size ≤ n then c :: takeBytes (n - c.utf8Size) cs else []

/-- A text cut after exactly `n` bytes, if a character ends there. -/
def splitBytes? : Nat → Source → Option (Source × Source)
  | 0, cs => some ([], cs)
  | _, [] => none
  | n, c :: cs =>
    if c.utf8Size ≤ n then
      (splitBytes? (n - c.utf8Size) cs).map fun (before, after) => (c :: before, after)
    else none

/-- A range of byte offsets, from `start` up to but not including `stop`. -/
structure Span where
  start : Nat
  stop : Nat
deriving DecidableEq, Inhabited

/-- The span from the start of one span to the end of another. -/
def Span.cover (first last : Span) : Span := ⟨first.start, last.stop⟩

/-- The characters of a span, if it is a forward range that cuts no character. -/
def slice? (source : Source) (span : Span) : Option Source :=
  if span.start ≤ span.stop then do
    let (_, after) ← splitBytes? span.start source
    let (inside, _) ← splitBytes? (span.stop - span.start) after
    return inside
  else none

/-- The text of a span as a quotation: empty where the span is not a proper one. -/
def quote (source : Source) (span : Span) : String :=
  String.ofList ((slice? source span).getD [])

/-- A line and a column, both counted from one; columns count characters. -/
structure Location where
  line : Nat
  column : Nat
deriving DecidableEq, Inhabited

namespace Location

/-- The place reached after reading `before`, starting from `here`. -/
def after (here : Location) : Source → Location
  | [] => here
  | c :: cs => after (if c = '\n' then ⟨here.line + 1, 1⟩ else ⟨here.line, here.column + 1⟩) cs

/-- The location of a byte offset. Only a line feed ends a line. -/
def of (source : Source) (offset : Nat) : Location :=
  after ⟨1, 1⟩ (takeBytes offset source)

def text (here : Location) : String := s!"{here.line}:{here.column}"

end Location

end RangeRules.Text
