import RangeRules.Text.Alphanumeric
import RangeRules.Text.CellWidth
import RangeRules.Text.Escape
import RangeRules.Text.LineBreak.Basic

/-!
# Wrapping

A message is broken into lines of at most so many cells. Its words end where a line may be broken,
and after a hyphen between letters or digits; a word that no line holds is cut. Lines are filled in
order, each with as many words as it holds, and spaces at a break are dropped. Escape sequences take
no cells and are kept.
-/
namespace RangeRules.Text

/-- Puts a character in front of the first of some parts of a text. -/
def prepend (c : Char) : List (List Char) → List (List Char)
  | [] => [[c]]
  | part :: parts => (c :: part) :: parts

/-- The cells of a text in one line. -/
def lineWidth (cs : List Char) : Nat :=
  (shownChars cs).foldl (fun cells c => cells + (cellWidth? c).getD 0) 0

/-! ## Words -/

/-- A part of a message that stays in one line, and the number of spaces after it. -/
structure Word where
  text : List Char
  spaces : Nat

namespace Word

/-- The word of a part of a message. -/
def ofPart (part : List Char) : Word :=
  let text := (part.reverse.dropWhile (· = ' ')).reverse
  ⟨text, part.length - text.length⟩

def width (w : Word) : Nat := lineWidth w.text

/-- Gives the spaces of a word to the last of its pieces. -/
def ofPieces (spaces : Nat) : List (List Char) → List Word
  | [] => []
  | [piece] => [⟨piece, spaces⟩]
  | piece :: pieces => ⟨piece, 0⟩ :: ofPieces spaces pieces

end Word

/-- A soft hyphen, which would have to be shown only at a break. -/
def softHyphen : Char := '\u00ad'

/-- Clears the last of some marks. -/
def clearLast (marks : List Bool) : List Bool :=
  let (after, rest) := marks.reverse.span (!·)
  match rest with
  | [] => marks
  | _ :: before => (after ++ false :: before).reverse

/-- For each character that is shown, whether a word ends after it and another follows. Hyphens are
seen to later. -/
def wordEnds (shown : List Char) : List Bool :=
  clearLast ((shown.zip (lineBreaks shown)).map fun (c, breaks) =>
    breaks && c ≠ '-' && c ≠ softHyphen)

/-- A text cut after the shown characters that are marked. -/
def cutAfter (s : EscapeState) : (marks : List Bool) → List Char → List (List Char)
  | _, [] => []
  | marks, c :: cs =>
    if s.shows c then
      if marks.headD false then [c] :: cutAfter (s.next c) marks.tail cs
      else prepend c (cutAfter (s.next c) marks.tail cs)
    else prepend c (cutAfter (s.next c) marks cs)

/-- A text cut after each hyphen between letters or digits, given the character before it. -/
def cutHyphens (before? : Option Char) : List Char → List (List Char)
  | [] => []
  | c :: cs =>
    let rest := cutHyphens (some c) cs
    if c = '-' && before?.any isAlphanumeric && cs.head?.any isAlphanumeric then [c] :: rest
    else prepend c rest

/-- A text cut into pieces of at most `room` cells, where it has taken `used` cells already. Each
has at least one character that takes a cell. -/
def cutWide (room : Nat) (s : EscapeState) (used : Nat) : List Char → List (List Char)
  | [] => []
  | c :: cs =>
    if s.shows c then
      let n := (cellWidth? c).getD 0
      if 0 < used ∧ room < used + n then [] :: prepend c (cutWide room (s.next c) n cs)
      else prepend c (cutWide room (s.next c) (used + n) cs)
    else prepend c (cutWide room (s.next c) used cs)

namespace Word

/-- A word that may also end after its hyphens. -/
def hyphenated (w : Word) : List Word :=
  if w.text = [] then [w] else ofPieces w.spaces (cutHyphens none w.text)

/-- A word, in pieces if it is too wide. -/
def fitted (room : Nat) (w : Word) : List Word :=
  if room < w.width then ofPieces w.spaces (cutWide room .closed 0 w.text) else [w]

end Word

/-- The words of a line, none wider than a line if that can be. -/
def words (room : Nat) (line : List Char) : List Word :=
  let parts := cutAfter .closed (wordEnds (shownChars line)) line
  (parts.flatMap fun part => (Word.ofPart part).hyphenated).flatMap (·.fitted room)

/-! ## Lines -/

/-- Fills lines with words. The current line holds `line` and then `spaces`, `used` cells in all. -/
def fill (room : Nat) (line : List Char) (spaces used : Nat) : List Word → List (List Char)
  | [] => [line]
  | w :: ws =>
    if used + w.width ≤ room then
      fill room (line ++ List.replicate spaces ' ' ++ w.text) w.spaces
        (used + w.width + w.spaces) ws
    else line :: fill room w.text w.spaces (w.width + w.spaces) ws

/-- The lines of a message, broken after each line feed in it. -/
def messageLines : List Char → List (List Char)
  | [] => [[]]
  | c :: cs => if c = '\n' then [] :: messageLines cs else prepend c (messageLines cs)

/-- A message as lines of at most `room` cells. -/
def wrapLines (room : Nat) (message : List Char) : List (List Char) :=
  (messageLines message).flatMap fun line => fill room [] 0 0 (words room line)

/-- A message as one text, with an indentation for its first line and another for the rest. -/
def wrapped (room : Nat) (first rest message : String) : String :=
  match wrapLines room message.toList with
  | [] => first
  | l :: ls =>
    String.join ((first ++ String.ofList l) :: ls.map fun l => "\n" ++ rest ++ String.ofList l)

end RangeRules.Text
