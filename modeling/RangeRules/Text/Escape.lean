/-!
# Escape sequences

An escape character begins a sequence that instructs a terminal and is not seen. With a square
bracket after it the sequence goes up to the first of `@` to `~`, with a closing one up to a bell or
a further escape and backslash; any other sequence is of two characters.

A text is read one character at a time, and the state says what the characters so far leave open.
-/
namespace RangeRules.Text

inductive EscapeState where
  /-- No sequence is open. -/
  | closed
  /-- A sequence has just begun. -/
  | begun
  /-- A sequence with an opening bracket. -/
  | control
  /-- A sequence with a closing bracket, and whether its last character is an escape. -/
  | command (escaped : Bool)
deriving DecidableEq

namespace EscapeState

def escape : Char := '\x1b'

def bell : Char := '\x07'

/-- The state after one more character. -/
def next (s : EscapeState) (c : Char) : EscapeState :=
  match s with
  | closed => if c = escape then begun else closed
  | begun => if c = '[' then control else if c = ']' then command false else closed
  | control => if '@' ≤ c ∧ c ≤ '~' then closed else control
  | command escaped =>
    if c = bell ∨ (escaped ∧ c = '\\') then closed else command (c = escape)

/-- Whether a character is seen in this state. -/
def shows (s : EscapeState) (c : Char) : Bool := s = closed && c ≠ escape

/-- The characters of a text that are seen. -/
def shown (s : EscapeState) : List Char → List Char
  | [] => []
  | c :: cs => if s.shows c then c :: shown (s.next c) cs else shown (s.next c) cs

end EscapeState

/-- A text without its escape sequences. -/
def shownChars (cs : List Char) : List Char := EscapeState.closed.shown cs

end RangeRules.Text
