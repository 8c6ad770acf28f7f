import RangeRules.Proofs.Program.Places
import RangeRules.Proofs.Text.Place
import RangeRules.Report.Render

/-!
# The position in a report

Every diagnostic on a text lies within it, so its report has a second row with a position. The
report looks this up among its own lines and leaves the diagnostic's location aside. So the two
differ, and by exactly what it takes for lines to be counted in two ways.
-/
namespace RangeRules

open Text (Source Span Location byteCount)

/-- The diagnostics on a text: of an error in it, or of what a run of it finds or stops at. -/
inductive Diagnosed (source : Source) : Diagnostic → Prop where
  | parse {limit : Nat} {e : ParseError} (error : Program.parseWithin limit source = .error e) :
    Diagnosed source e.diagnostic
  | analysis {limit : Nat} {p : Program} {described : Bindings AbstractValue}
    {options : AnalysisOptions} {e : Evaluation AbstractValue} {d : Diagnostic}
    (parsed : Program.parseWithin limit source = .ok p)
    (run : p.analyze described options = .ok e) (mem : d ∈ e.diagnostics source) :
    Diagnosed source d
  | interpretation {limit : Nat} {p : Program} {sources : Bindings Value} {e : Evaluation Value}
    {d : Diagnostic} (parsed : Program.parseWithin limit source = .ok p)
    (run : p.interpret sources = .ok e) (mem : d ∈ e.diagnostics source) : Diagnosed source d
  | analysisStop {limit : Nat} {p : Program} {described : Bindings AbstractValue}
    {options : AnalysisOptions} {c : ContractViolation}
    (parsed : Program.parseWithin limit source = .ok p)
    (run : p.analyze described options = .error c) : Diagnosed source (c.diagnostic source)
  | interpretationStop {limit : Nat} {p : Program} {sources : Bindings Value}
    {c : ContractViolation} (parsed : Program.parseWithin limit source = .ok p)
    (run : p.interpret sources = .error c) : Diagnosed source (c.diagnostic source)

/-- The diagnostic is at a place in the text, and tells its location. -/
structure Diagnostic.Located (source : Source) (d : Diagnostic) : Prop where
  within : d.span.Within (byteCount source)
  location_eq : d.location = .of source d.span.start

theorem Evaluation.located_of_mem {V : Type} {source : Source} {e : Evaluation V} {d : Diagnostic}
    (hwithin : ∀ f ∈ e.findings, f.span.Within (byteCount source))
    (h : d ∈ e.diagnostics source) : d.Located source := by
  obtain ⟨f, hf, rfl⟩ := List.mem_map.1 h
  exact ⟨hwithin f hf, rfl⟩

theorem Diagnosed.located {source : Source} {d : Diagnostic} (h : Diagnosed source d) :
    d.Located source := by
  cases h with
  | parse error =>
    obtain ⟨rfl, hwithin⟩ := Program.within_of_parseWithin_error error
    exact ⟨hwithin, rfl⟩
  | analysis parsed run mem =>
    exact Evaluation.located_of_mem
      (Program.findings_within (Abstract.local_eval _) parsed run) mem
  | interpretation parsed run mem =>
    exact Evaluation.located_of_mem (Program.findings_within Concrete.local_eval parsed run) mem
  | analysisStop parsed run =>
    obtain ⟨-, hkeeps, -⟩ := Program.keepsContract_of_parseWithin parsed
    exact ⟨Program.violation_within parsed (hkeeps _ _) run, rfl⟩
  | interpretationStop parsed run =>
    obtain ⟨-, -, hkeeps⟩ := Program.keepsContract_of_parseWithin parsed
    exact ⟨Program.violation_within parsed (hkeeps _) run, rfl⟩

namespace Report

/-- The row of a report that tells a position. -/
def positionRow (width : Nat) (place : Location) : Row :=
  spaces (width + 2) ++ strokes .frame ['╭', '─', '['] ++
    [.plain s!" {programName}:{place.text} "] ++ strokes .frame [']']

theorem placeRow_eq (width : Nat) (m : Mark) :
    placeRow width m = positionRow width m.location := rfl

/-- A position can be read back from its row. -/
theorem positionRow_inj {width width' : Nat} {here there : Location}
    (h : positionRow width here = positionRow width' there) : here = there := by
  have hpiece := List.append_inj_right' (List.append_cancel_right h) rfl
  have htext : s!" {programName}:{here.text} " = s!" {programName}:{there.text} " :=
    congrArg Piece.text (List.cons.inj hpiece).1
  have hchars : ∀ place : Location, (s!" {programName}:{place.text} ").toList =
      " <program>:".toList ++ (place.text.toList ++ [' ']) := by
    intro place
    change (" " ++ programName ++ ":" ++ place.text ++ " ").toList = _
    rw [String.toList_append, String.toList_append, List.append_assoc]
    rfl
  have hlists := congrArg String.toList htext
  rw [hchars, hchars] at hlists
  have hplaces := List.append_cancel_right (List.append_cancel_left hlists)
  exact Location.text_inj.1 (String.toList_inj.1 hplaces)

/-- The report of a diagnostic has the position in its second row. -/
def HeadedAt (source : Source) (d : Diagnostic) (place : Location) : Prop :=
  ∃ width below, rows source d = headline d :: positionRow width place :: below

/-- A span within the text has a mark, at the place of the lines of a report. -/
theorem exists_mark {source : Source} {span : Span} (h : span.Within (byteCount source)) :
    ∃ m, Mark.of? source span = some m ∧
      m.location = Location.shownFrom ⟨1, 1⟩ source span.start := by
  obtain ⟨first, hfirst, hplace⟩ := Text.exists_lineAt?_linesOf source span.start
  obtain ⟨last, hlast, -⟩ := Text.exists_lineAt?_linesOf source (span.stop - 1)
  have hlocation : ∀ stop last, Mark.location ⟨first.start + first.charsBefore span.start, stop,
      first, last⟩ = Location.shownFrom ⟨1, 1⟩ source span.start := by
    intro stop last
    rw [← hplace, Mark.location, Nat.add_sub_cancel_left]
  unfold Mark.of?
  dsimp only
  rw [if_neg (Nat.not_lt.2 h.1), hfirst, Option.bind_eq_bind, Option.bind_some]
  by_cases hempty : span.stop ≤ span.start
  · rw [if_pos hempty]
    exact ⟨_, rfl, hlocation _ _⟩
  · rw [if_neg hempty, if_neg (Nat.not_lt.2 h.2), hlast]
    exact ⟨_, rfl, hlocation _ last⟩

/-- The position in the report of a located diagnostic is counted in the lines of the report. -/
theorem headedAt_iff {source : Source} {d : Diagnostic} (h : d.Located source) {place : Location} :
    HeadedAt source d place ↔ place = Location.shownFrom ⟨1, 1⟩ source d.span.start := by
  obtain ⟨m, hm, hplace⟩ := exists_mark h.within
  have hheaded : HeadedAt source d m.location := by
    unfold HeadedAt rows
    rw [hm]
    exact ⟨_, _, congrArg (headline d :: · :: _) (placeRow_eq _ m)⟩
  constructor
  · rintro ⟨width, below, hrows⟩
    obtain ⟨width', below', hrows'⟩ := hheaded
    have hrow := (List.cons.inj (List.cons.inj (hrows.symm.trans hrows')).2).1
    rw [positionRow_inj hrow, hplace]
  · rintro rfl
    exact hplace ▸ hheaded

/--
The report of a diagnostic tells the place where the count of its own lines ends, and no other. That
is the location of the diagnostic, unless a break other than a line feed opens a line before it, or
the text ends with a line feed before it.
-/
theorem headedAt_location_iff {source : Source} {d : Diagnostic} (h : Diagnosed source d) :
    (∀ place, HeadedAt source d place ↔ place = Location.shownFrom ⟨1, 1⟩ source d.span.start) ∧
      (HeadedAt source d d.location ↔
        ¬ Text.BreaksBefore source d.span.start ∧ ¬ Text.EndsBefore source d.span.start) := by
  have hplace : ∀ place,
      HeadedAt source d place ↔ place = Location.shownFrom ⟨1, 1⟩ source d.span.start :=
    fun place => headedAt_iff h.located
  refine ⟨hplace, ?_⟩
  rw [hplace, h.located.location_eq, eq_comm]
  exact Location.shownFrom_eq_of_iff source d.span.start

theorem exists_error_of_match {α : Type} {x : Except ParseError Program} {f : ParseError → α}
    {a : α}
    (h : (match x with
      | .error e => some (f e)
      | .ok _ => none) = some a) : ∃ e, x = .error e ∧ f e = a := by
  cases x with
  | ok p => exact nomatch h
  | error e => exact ⟨e, rfl, Option.some.inj h⟩

/-- A variable that is not assigned, on a line after another that ends with two characters. -/
def secondLine : Source := "// é\r\nz: a".toList

theorem headedAt_location_iff_secondLine : ∃ d, Diagnosed secondLine d ∧ d.location = ⟨2, 4⟩ ∧
    HeadedAt secondLine d d.location := by
  have herror : (match Program.parseWithin 8 secondLine with
      | .error e => some (e.diagnostic.location, e.span.start)
      | .ok _ => none) = some (⟨2, 4⟩, 10) := by
    decide +kernel
  have hcounts : Location.shownFrom ⟨1, 1⟩ secondLine 10 = .of secondLine 10 := by
    decide +kernel
  obtain ⟨e, hparse, hpair⟩ := exists_error_of_match herror
  obtain ⟨hlocation, hstart⟩ := Prod.mk.inj hpair
  have hstart : e.diagnostic.span.start = 10 := hstart
  refine ⟨e.diagnostic, .parse hparse, hlocation, ?_⟩
  rw [(headedAt_location_iff (.parse hparse)).2, hstart]
  exact (Location.shownFrom_eq_of_iff secondLine 10).1 hcounts

/-- A statement that lacks its end, in a text that does not. -/
def unfinished : Source := "z: 1 +\n".toList

/-- Where the text ends after a line feed, the report tells another place than the diagnostic. -/
theorem headedAt_unfinished : ∃ d, Diagnosed unfinished d ∧ d.location = ⟨2, 1⟩ ∧
    HeadedAt unfinished d ⟨1, 8⟩ ∧ ¬ HeadedAt unfinished d d.location := by
  have herror : (match Program.parseWithin 8 unfinished with
      | .error e => some (e.diagnostic.location, e.span.start)
      | .ok _ => none) = some (⟨2, 1⟩, 7) := by
    decide +kernel
  have hshown : Location.shownFrom ⟨1, 1⟩ unfinished 7 = ⟨1, 8⟩ := by
    decide +kernel
  obtain ⟨e, hparse, hpair⟩ := exists_error_of_match herror
  obtain ⟨hlocation, hstart⟩ := Prod.mk.inj hpair
  have hstart : e.diagnostic.span.start = 7 := hstart
  have hdiagnosed : Diagnosed unfinished e.diagnostic := .parse hparse
  refine ⟨e.diagnostic, hdiagnosed, hlocation, ?_, ?_⟩
  · rw [headedAt_iff hdiagnosed.located, hstart, hshown]
  · rw [headedAt_iff hdiagnosed.located, hstart, hshown, hlocation]
    decide

end Report

end RangeRules
