import RangeRules.Text.Line

/-!
# Marks

A mark is the part of a text that a report points at, in characters and lines instead of bytes. A
span that starts beyond the text has none, and neither has one that ends beyond it; a span that is
empty or reversed marks the point where it starts.
-/
namespace RangeRules.Report

open Text (Source Span Line Location)

structure Mark where
  /-- The characters before the marked part. -/
  start : Nat
  /-- The characters up to its end. -/
  stop : Nat
  /-- The line where it starts. -/
  first : Line
  /-- The line of its last character. -/
  last : Line

/-- The mark of a span. -/
def Mark.of? (source : Source) (span : Span) : Option Mark :=
  let lines := Text.linesOf source
  let size := Text.byteCount source
  if size < span.start then none
  else do
    let first ← Text.lineAt? lines span.start
    let start := first.start + first.charsBefore span.start
    if span.stop ≤ span.start then return ⟨start, start, first, first⟩
    else if size < span.stop then none
    else
      let last ← Text.lineAt? lines (span.stop - 1)
      return ⟨start, last.start + last.charsBefore span.stop, first, last⟩

/-- Where a mark starts, among the lines of a report. -/
def Mark.location (m : Mark) : Location := ⟨m.first.number, m.start - m.first.start + 1⟩

/-- Whether the mark lies within one line. -/
def Mark.isInline (m : Mark) : Bool := m.first.number = m.last.number

/-- Whether the character with the given number of characters before it is marked. -/
def Mark.covers (m : Mark) (index : Nat) : Bool := m.start ≤ index && index < m.stop

end RangeRules.Report
