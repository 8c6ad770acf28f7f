import RangeRules.Text.Escape

/-!
# Plain text

A text without all that instructs a terminal. Escape sequences are left out, whether or not they are
ended, and so are controls other than tabs and line ends. Those are seen even inside most sequences,
and with them what follows, up to the next control; there the sequence goes on.
-/
namespace RangeRules.Text

/-- What the characters so far leave open. -/
inductive TerminalState where
  /-- No sequence is open. -/
  | text
  /-- An escape has just been read. -/
  | escape
  /-- An escape and signs that select what follows. -/
  | selecting
  /-- A control sequence, which ends with one of `@` to `~`. -/
  | control
  /-- A command to the system, which ends with a bell. -/
  | command
  /-- A string for the device, which only an escape or a cancel ends. -/
  | string
deriving DecidableEq

namespace TerminalState

/-- Cancels a sequence, whatever is open. -/
def cancels (c : Char) : Bool := c = '\x18' || c = '\x1a'

/-- The state after one more character that is not seen. An escape starts a sequence, whatever is
open. -/
def next (s : TerminalState) (c : Char) : TerminalState :=
  if c = EscapeState.escape then escape
  else if cancels c then text
  else
    match s with
    | text => text
    | escape =>
      if c < ' ' ∨ '~' < c then escape
      else if c < '0' then selecting
      else if c = '[' then control
      else if c = ']' then command
      else if c ∈ ['P', 'X', '^', '_'] then string
      else text
    | selecting => if '0' ≤ c ∧ c ≤ '~' then text else selecting
    | control => if '@' ≤ c ∧ c ≤ '~' then text else control
    | command => if c = EscapeState.bell then text else command
    | string => string

/-- Tabs and line ends. -/
def isLayout (c : Char) : Bool := c ∈ ['\t', '\n', '\x0c', '\r']

def isPrintable (c : Char) : Bool := ' ' ≤ c && c ≠ '\x7f'

/-- Whether a character is seen in a state, where `resumed` says whether the one before it is. -/
def shows (s : TerminalState) (resumed : Bool) (c : Char) : Bool :=
  (isPrintable c && (resumed || s = text)) ||
    (isLayout c && (resumed || s ≠ command && s ≠ string))

/-- The characters of a text that are seen. Beyond ASCII a character ends what is open. -/
def plain (s : TerminalState) (resumed : Bool) : List Char → List Char
  | [] => []
  | c :: cs =>
    if s.shows resumed c then c :: plain (if '\x7f' < c then text else s) true cs
    else plain (s.next c) false cs

end TerminalState

/-- A text as it is seen where nothing instructs the terminal. -/
def plainText (text : String) : String :=
  String.ofList (TerminalState.text.plain false text.toList)

end RangeRules.Text
