import RangeRules.Report.Ink
import RangeRules.Report.Mark
import RangeRules.Text.CellWidth

/-!
# Rendering diagnostics

Each diagnostic is drawn as a report: a headline, the place in the program, the lines concerned
with a label that points at the marked part and repeats the message, and a hint. A part within one
line is underlined, and the label hangs from its middle. Of a part that goes over several lines
only the first and the last are shown, joined by a bar at the left.
-/
namespace RangeRules.Report

open Text (Source Line)

def severityTitle : Severity → String
  | .error => "Error"
  | .warning => "Warning"
  | .info => "Advice"

/-- What stands for the program in the headline of a report. -/
def programName : String := "<program>"

def digits (n : Nat) : List Char := Nat.toDigits 10 n

/-! ## Margins -/

/-- The margin of a row that shows a line of the program. -/
def lineMargin (width : Nat) (l : Line) : Row :=
  let number := digits l.number
  [.plain " ", .inked .frame (repeated (width - number.length) ' ' ++ String.ofList number ++ " │"),
   .plain " "]

/-- The margin of another row, with the given bar. -/
def barMargin (width : Nat) (bar : Char) : Row :=
  [.plain " ", .inked .margin (repeated (width + 1) ' ' ++ String.singleton bar), .plain " "]

def emptyMargin (width : Nat) : Row := barMargin width '│'

/-! ## Rows -/

/-- The characters of a line from a column on, blanks as spaces. -/
def lineCells (m : Mark) (l : Line) (column : Nat) : List Char → Row
  | [] => []
  | c :: cs =>
    let ink := if m.covers (l.start + column) then Ink.label else Ink.source
    let drawn := if Text.isBlank c then List.replicate (Text.cells column c) ' ' else [c]
    strokes ink drawn ++ lineCells m l (column + 1) cs

/-- What is shown of a line: its text without the blanks at its end. -/
def shownText (l : Line) : Source := Text.trimEnd l.text

def lineText (m : Mark) (l : Line) : Row := lineCells m l 0 (shownText l)

/-- The cells of a column of a line, one beyond the text that is shown. -/
def columnCells (l : Line) (column : Nat) : Nat :=
  match (shownText l)[column]? with
  | some c => Text.cells column c
  | none => 1

/-- A character in the first cell of a column, and another in its further cells. -/
def fillColumn (cells : Nat) (head tail : Piece) : Row :=
  match cells with
  | 0 => []
  | n + 1 => head :: List.replicate n tail

/-- A column filled with spaces. -/
def blankColumn (cells : Nat) : Row := List.replicate cells (.plain " ")

def labelPiece (c : Char) : Piece := .inked .label (String.singleton c)

/-- The columns of a mark within its line: its start, its end and its middle. -/
structure Underline where
  start : Nat
  stop : Nat
  middle : Nat

def Mark.underline (m : Mark) : Underline :=
  let s := m.start - m.first.start
  let e := m.stop - m.first.start
  ⟨s, e, (s + e) / 2⟩

/-- A column of the row under a marked line. -/
def underlineColumn (u : Underline) (cells column : Nat) : Row :=
  if column = u.middle then
    if u.start ≤ column ∧ column < u.stop then
      fillColumn cells (labelPiece '┬') (labelPiece '─')
    else fillColumn cells (labelPiece '│') (.plain " ")
  else if u.start ≤ column ∧ column < u.stop then
    fillColumn cells (labelPiece '─') (labelPiece '─')
  else blankColumn cells

/-- A column of the row that leads to the message. -/
def hookColumn (u : Underline) (cells column : Nat) : Row :=
  if column = u.middle then fillColumn cells (labelPiece '╰') (labelPiece '─')
  else if u.middle < column then fillColumn cells (labelPiece '─') (labelPiece '─')
  else blankColumn cells

/-- The rows of a mark within one line. -/
def inlineBody (width : Nat) (message : String) (m : Mark) : List Row :=
  let u := m.underline
  let columns := List.range (u.stop + 2)
  let draw (column : Nat → Nat → Row) : Row :=
    columns.flatMap fun i => column (columnCells m.first i) i
  [lineMargin width m.first ++ lineText m m.first,
   emptyMargin width ++ draw (underlineColumn u),
   emptyMargin width ++ draw (hookColumn u) ++ [.plain (" " ++ message)]]

/-- How far the label of a mark over several lines reaches to the right. -/
def reach (l : Line) : Nat :=
  (List.range (l.text.length + 2)).foldl (fun cells column => cells + columnCells l column) 0

/-- The rows of a mark over several lines. -/
def spreadBody (width : Nat) (message : String) (m : Mark) : List Row :=
  let n := 3 + reach m.last
  let gap : List Row :=
    if m.first.number + 1 < m.last.number then
      [barMargin width '┆' ++ [labelPiece '┆'] ++ spaces 3]
    else []
  [lineMargin width m.first ++ strokes .label ['╭', '─', '▶', ' '] ++ lineText m m.first] ++ gap ++
  [lineMargin width m.last ++ strokes .label ['├', '─', '▶', ' '] ++ lineText m m.last,
   emptyMargin width ++ [labelPiece '│'] ++ spaces n,
   emptyMargin width ++ [labelPiece '╰'] ++ List.replicate n (labelPiece '─') ++
     [.plain (" " ++ message)]]

/-- What stands before a hint. The bar of a mark goes on there only if it starts the second line. -/
def hintIndent (source : Source) (m : Mark) : Row :=
  if m.isInline then []
  else if (Text.linesOf source)[1]?.map (·.start) = some m.start then
    labelPiece '│' :: spaces 3
  else spaces 4

/-- The rows of the hints. -/
def hintRows (width : Nat) (source : Source) (m : Mark) (help : List String) : List Row :=
  let indent := emptyMargin width ++ hintIndent source m
  if help.isEmpty then []
  else indent :: help.map fun h => indent ++ [.inked .help "Help", .plain (": " ++ h)]

/-! ## Reports -/

def headline (d : Diagnostic) : Row :=
  [.inked (.severity d.severity) s!"[{d.code}] {severityTitle d.severity}:",
   .plain (" " ++ d.message)]

/-- The place of a mark in the program. -/
def placeRow (width : Nat) (m : Mark) : Row :=
  spaces (width + 2) ++ strokes .frame ['╭', '─', '['] ++
    [.plain s!" {programName}:{m.location.text} "] ++ strokes .frame [']']

/-- The rows of a report. Without a mark it has only its headline. -/
def rows (source : Source) (d : Diagnostic) : List Row :=
  match Mark.of? source d.span with
  | none => [headline d]
  | some m =>
    let width := (digits m.last.number).length
    let body := if m.isInline then inlineBody width d.message m else spreadBody width d.message m
    [headline d, placeRow width m, spaces (width + 2) ++ strokes .frame ['│']] ++ body ++
      hintRows width source m d.help ++
      [[.inked .frame (repeated (width + 2) '─' ++ "╯")]]

/-- The report of a diagnostic on the given program text. -/
def render (colour : Bool) (source : Source) (d : Diagnostic) : String :=
  String.join ((rows source d).map (·.written colour))

/-- The reports of some diagnostics, one after the other. -/
def renderAll (colour : Bool) (source : Source) (log : List Diagnostic) : String :=
  String.join (log.map (render colour source))

end RangeRules.Report
