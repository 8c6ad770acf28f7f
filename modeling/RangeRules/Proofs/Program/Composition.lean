import RangeRules.Proofs.Evaluation.Locality
import RangeRules.Proofs.Phrase.Completeness
import RangeRules.Proofs.Phrase.Consumption
import RangeRules.Proofs.Program.Lawful
import RangeRules.Proofs.Text.Location
import RangeRules.Proofs.Token.Seam

/-!
# Programs compose

Two programs, one after the other on lines of their own, are a program if no sink is in both. Its
statements are theirs, since no expression goes on over the seam; its runs fill the sinks of the one
and then those of the other, since neither reads a variable of the other; and its diagnostics are
theirs, further down by the lines of the first.
-/
namespace RangeRules

open Text (Source byteCount)

/-! ### Texts -/

namespace Token

theorem place_shift (offset n : Nat) (ls : List Lexeme) :
    place (offset + n) ls = (place offset ls).map (Relocation.shift n).token := by
  induction ls generalizing offset with
  | nil => rfl
  | cons l ls ih =>
    have hstart : offset + n + byteCount l.gap = offset + byteCount l.gap + n := by omega
    have hstop : offset + byteCount l.gap + n + byteCount l.text =
        offset + byteCount l.gap + byteCount l.text + n := by omega
    rw [place, place, hstart, hstop, ih]
    rfl

/-- The tokens of two texts on lines of their own. -/
theorem tokens_line (p q : Source) : (Sequence.of (p ++ '\n' :: q)).tokens =
    (Sequence.of p).tokens ++
      (Sequence.of q).tokens.map (Relocation.shift (byteCount p + 1)).token := by
  rw [Sequence.of, Sequence.of, Sequence.of, ← place_shift]
  exact tokensFrom_line p q 0

end Token

/-- Two texts that are read are read on lines of their own, and only the ends of the first change. -/
theorem Program.read_line {p q : Source} {before after : List WrittenStatement}
    (hp : read p = .ok before) (hq : read q = .ok after) : ∃ first,
      first.map (·.relocate .starts) = before.map (·.relocate .starts) ∧
      read (p ++ '\n' :: q) =
        .ok (first ++ after.map (·.relocate (.shift (byteCount p + 1)))) := by
  obtain ⟨consumed, htokens, hfollowed⟩ := (Phrase.Read.program_sound hp).followed
  rw [List.append_nil] at htokens
  have hafter := (Phrase.Read.program_sound hq).relocate (· + (byteCount p + 1))
  obtain ⟨first, hfirst, hstarts, -⟩ := hfollowed (byteCount q + (byteCount p + 1)) _
  refine ⟨first, hstarts, Phrase.Read.program_eq_ok.2 ?_⟩
  have hfinish : (Token.Sequence.of (p ++ '\n' :: q)).finish = byteCount q + (byteCount p + 1) := by
    change byteCount (p ++ '\n' :: q) = _
    rw [Text.byteCount_append, byteCount]
    change byteCount p + (1 + byteCount q) = _
    omega
  rw [hfinish, Token.tokens_line, htokens]
  exact hfirst.append hafter

/-! ### Places in a program -/

theorem Phrase.DerivesStatements.stop_le {finish : Nat} {ts rest : List Token}
    {written : List WrittenStatement} (h : Phrase.DerivesStatements finish ts written rest)
    {offset : Nat} (hts : Token.Ordered finish offset ts) :
    ∀ s ∈ written, s.tree.body.Laid ∧ s.tree.body.span.stop ≤ finish := by
  induction h generalizing offset with
  | nil => exact nofun
  | cons head tail ih =>
    obtain ⟨-, hlaid, hrest⟩ := head.laid hts
    exact List.forall_mem_cons.2 ⟨⟨hlaid, hrest.within.1⟩, ih hrest⟩

/-- The nodes of a parsed program start in its text. -/
theorem Program.start_le_of_parseWithin {limit : Nat} {source : Source} {p : Program}
    (h : parseWithin limit source = .ok p) : ∀ s ∈ p.statements, ∀ n ∈ s.body.nodes,
      n.span.start ≤ byteCount source := by
  obtain ⟨written, hread, -, rfl⟩ := parseWithin_eq_ok.1 h
  have hderives := Phrase.Read.program_sound hread
  intro s hs n hn
  obtain ⟨w, hw, rfl⟩ := List.mem_map.1 hs
  obtain ⟨hlaid, hstop⟩ := hderives.stop_le (Token.Sequence.ordered source) w hw
  have hwithin := hlaid.within n hn
  change _ ≤ byteCount source at hstop
  omega

/-! ### Two programs -/

/-- The diagnostics agree in severity, code and column, some lines apart. -/
structure Diagnostic.Echoes (lines : Nat) (d d' : Diagnostic) : Prop where
  severity : d'.severity = d.severity
  code : d'.code = d.code
  location : d'.location = d.location.down lines

/-- A run of two texts on lines of their own puts their runs together. -/
structure Joins {V : Type} (p q : Source) (e e' joined : Evaluation V) : Prop where
  sinks : joined.sinks.entries = e.sinks.entries ++ e'.sinks.entries
  diagnostics : ∃ first second, joined.diagnostics (p ++ '\n' :: q) = first ++ second ∧
    List.Forall₂ (Diagnostic.Echoes 0) (e.diagnostics p) first ∧
    List.Forall₂ (Diagnostic.Echoes (p.count '\n' + 1)) (e'.diagnostics q) second

theorem Finding.echoes_of_starts {p q : Source} {findings news : List Finding}
    (hsame : news.map (·.relocate .starts) = findings.map (·.relocate .starts))
    (hwithin : ∀ f ∈ findings, f.span.start ≤ byteCount p) :
    List.Forall₂ (Diagnostic.Echoes 0) (findings.map (Finding.diagnostic p))
      (news.map (Finding.diagnostic (p ++ '\n' :: q))) := by
  induction findings generalizing news with
  | nil =>
    obtain rfl := List.map_eq_nil_iff.1 hsame
    exact .nil
  | cons f findings ih =>
    obtain ⟨f', news, rfl, hf, hnews⟩ := List.map_eq_cons_iff.1 hsame
    obtain ⟨hstart, hwithin⟩ := List.forall_mem_cons.1 hwithin
    obtain ⟨hproblem, -, hspan⟩ := Finding.mk.inj hf
    have hsame : f'.span.start = f.span.start := (Text.Span.mk.inj hspan).1
    refine .cons ⟨?_, ?_, ?_⟩ (ih hnews hwithin)
    · exact congrArg Problem.severity hproblem
    · exact congrArg Problem.code hproblem
    · change Text.Location.of _ f'.span.start = (Text.Location.of p f.span.start).down 0
      rw [hsame, Text.Location.of_before hstart]
      rfl

theorem Finding.echoes_shift (p q : Source) (findings : List Finding) :
    List.Forall₂ (Diagnostic.Echoes (p.count '\n' + 1)) (findings.map (Finding.diagnostic q))
      ((findings.map (·.relocate (.shift (byteCount p + 1)))).map
        (Finding.diagnostic (p ++ '\n' :: q))) := by
  rw [List.map_map, List.forall₂_map_left_iff, List.forall₂_map_right_iff, List.forall₂_same]
  exact fun f _ => ⟨rfl, rfl, Text.Location.of_line p q f.span.start⟩

theorem mem_sinkNamesOf {written : List WrittenStatement} {s : WrittenStatement} (hs : s ∈ written)
    (hsink : s.isSink = true) : s.name ∈ sinkNamesOf (written.map (·.tree)) := by
  refine List.mem_filterMap.2 ⟨s.tree, List.mem_map_of_mem hs, ?_⟩
  unfold WrittenStatement.tree
  rw [if_pos hsink]

/-- Two lists that pass the checks pass them one after the other, if their sinks differ. -/
theorem PassAll.append {limit : Nat} {first second : List WrittenStatement}
    (h : PassAll limit [] [] first) (h' : PassAll limit [] [] second)
    (hdisjoint : ∀ name ∈ sinkNamesOf (first.map (·.tree)),
      name ∉ sinkNamesOf (second.map (·.tree))) : PassAll limit [] [] (first ++ second) := by
  obtain ⟨hlevels, hlawful⟩ := passAll_iff_lawful.1 h
  obtain ⟨hlevels', hlawful'⟩ := passAll_iff_lawful.1 h'
  refine passAll_iff_lawful.2 ⟨List.forall_mem_append.2 ⟨hlevels, hlevels'⟩,
    hlawful.append hlawful' fun s hs t ht hsink hsink' heq => ?_⟩
  refine hdisjoint s.name (mem_sinkNamesOf hs hsink) ?_
  rw [heq]
  exact mem_sinkNamesOf ht hsink'

/-- What both programs run to is joined in a run of them together. -/
theorem joins_runFrom {V : Type} {eval : Evaluator V} (hlocal : eval.Local) {limit : Nat}
    {p q : Source} {first second : Program} (hp : Program.parseWithin limit p = .ok first)
    (hq : Program.parseWithin limit q = .ok second)
    (hdisjoint : ∀ name ∈ first.sinkNames, name ∉ second.sinkNames) {statements : List Statement}
    (hstarts : statements.map (·.relocate .starts) = first.statements.map (·.relocate .starts))
    {sources : Bindings V} {e e' : Evaluation V} (he : first.run eval sources = .ok e)
    (he' : second.run eval sources = .ok e') :
    ∃ joined, runFrom eval (.start sources) ⟨.empty, []⟩ (statements ++
      second.statements.map (·.relocate (.shift (byteCount p + 1)))) = .ok joined ∧
      Joins p q e e' joined := by
  have hscoped := Program.scoped_of_parseWithin hp
  obtain ⟨news, hnews, hrun⟩ := hscoped.runFrom_append (Program.scoped_of_parseWithin hq) hlocal
    (fun name hname hmem => hdisjoint name hmem hname) hstarts rfl he he'
  -- Offsets up to the end of the first text are those that a cap at its end leaves alone.
  have hwithin : ∀ f ∈ e.findings, f.span.start ≤ byteCount p := by
    intro f hf
    have hcap := hscoped.findings_fixed (g := ⟨(min · (byteCount p)), id⟩) hlocal
      (fun s hs n hn => congrArg (Text.Span.mk · _)
        (Nat.min_eq_left (Program.start_le_of_parseWithin hp s hs n hn))) he f hf
    exact min_eq_left_iff.1 (congrArg Text.Span.start hcap)
  refine ⟨_, hrun, rfl, _, _, List.map_append, ?_, Finding.echoes_shift p q e'.findings⟩
  exact Finding.echoes_of_starts hnews hwithin

/--
Two programs on lines of their own are a program, if no sink is in both. Its statements are those of
the first, which start where they did, and those of the second, further on. Where both run, so does
it: it fills the sinks of both with the same values, and tells the diagnostics of both.
-/
theorem Program.parseWithin_line {limit : Nat} {p q : Source} {first second : Program}
    (hp : parseWithin limit p = .ok first) (hq : parseWithin limit q = .ok second)
    (hdisjoint : ∀ name ∈ first.sinkNames, name ∉ second.sinkNames) :
    ∃ whole, parseWithin limit (p ++ '\n' :: q) = .ok whole ∧
      (∃ statements, whole.statements = statements ++
          second.statements.map (·.relocate (.shift (byteCount p + 1))) ∧
        statements.map (·.relocate .starts) = first.statements.map (·.relocate .starts)) ∧
      (∀ options described e e', first.analyze described options = .ok e →
        second.analyze described options = .ok e' →
        ∃ joined, whole.analyze described options = .ok joined ∧ Joins p q e e' joined) ∧
      ∀ sources e e', first.interpret sources = .ok e → second.interpret sources = .ok e' →
        ∃ joined, whole.interpret sources = .ok joined ∧ Joins p q e e' joined := by
  obtain ⟨before, hreadp, hall, hfirst⟩ := parseWithin_eq_ok.1 hp
  obtain ⟨after, hreadq, hall', hsecond⟩ := parseWithin_eq_ok.1 hq
  obtain ⟨front, hstarts, hread⟩ := read_line hreadp hreadq
  have hfront : PassAll limit [] [] front := by
    rw [← passAll_relocate .starts, hstarts, passAll_relocate]
    exact hall
  have htrees : (front.map (·.tree)).map (·.relocate .starts) =
      first.statements.map (·.relocate .starts) := by
    rw [← map_tree_relocate, hstarts, map_tree_relocate, hfirst]
  have hnames : sinkNamesOf (front.map (·.tree)) = first.sinkNames := by
    rw [← sinkNamesOf_relocate .starts, htrees, sinkNamesOf_relocate]
    rfl
  have hboth := hfront.append ((passAll_relocate (.shift (byteCount p + 1))).2 hall') (by
    rw [hnames, map_tree_relocate, sinkNamesOf_relocate]
    rw [hsecond] at hdisjoint
    exact hdisjoint)
  have hstatements : (front ++ after.map (·.relocate (.shift (byteCount p + 1)))).map (·.tree) =
      front.map (·.tree) ++ second.statements.map (·.relocate (.shift (byteCount p + 1))) := by
    rw [List.map_append, map_tree_relocate, hsecond]
  refine ⟨_, parseWithin_eq_ok.2 ⟨_, hread, hboth, rfl⟩, ⟨_, hstatements, htrees⟩,
    fun options described e e' he he' => ?_, fun sources e e' he he' => ?_⟩
  · unfold analyze run
    dsimp only
    rw [hstatements]
    exact joins_runFrom (Abstract.local_eval options) hp hq hdisjoint htrees he he'
  · unfold interpret run
    dsimp only
    rw [hstatements]
    exact joins_runFrom Concrete.local_eval hp hq hdisjoint htrees he he'

namespace Composition

/-- Ends within a comment, where what follows on the line would belong to it. -/
def noted : Source := "a = this.x\nz: 1 / a // may fail".toList

/-- Assigns the same variable for itself. -/
def rebinding : Source := "a = 0 w: 1 / a".toList

def zero : Bindings Value := ⟨[("x", .number (Number.ofLiteral ['0']))]⟩

end Composition

theorem Program.parseWithin_line_noted :
    ∃ whole joined, parseWithin 8 (Composition.noted ++ '\n' :: Composition.rebinding) = .ok whole ∧
      whole.interpret Composition.zero = .ok joined ∧ joined.sinks.names = ["z", "w"] := by
  have hfirst : ((parseWithin 8 Composition.noted).toOption.bind fun p =>
      (p.interpret Composition.zero).toOption.map fun e => (p.sinkNames, e.sinks.names)) =
      some (["z"], ["z"]) := by
    decide +kernel
  have hsecond : ((parseWithin 8 Composition.rebinding).toOption.bind fun p =>
      (p.interpret Composition.zero).toOption.map fun e => (p.sinkNames, e.sinks.names)) =
      some (["w"], ["w"]) := by
    decide +kernel
  obtain ⟨first, hp, hrun⟩ := Option.bind_eq_some_iff.1 hfirst
  obtain ⟨e, he, hnames⟩ := Option.map_eq_some_iff.1 hrun
  obtain ⟨second, hq, hrun'⟩ := Option.bind_eq_some_iff.1 hsecond
  obtain ⟨e', he', hnames'⟩ := Option.map_eq_some_iff.1 hrun'
  obtain ⟨hsinks, hfilled⟩ := Prod.mk.inj hnames
  obtain ⟨hsinks', hfilled'⟩ := Prod.mk.inj hnames'
  obtain ⟨whole, hwhole, -, -, hinterpret⟩ := Program.parseWithin_line (ok_of_toOption hp)
    (ok_of_toOption hq) (by rw [hsinks, hsinks']; decide)
  obtain ⟨joined, hjoined, hjoins⟩ :=
    hinterpret _ _ _ (ok_of_toOption he) (ok_of_toOption he')
  refine ⟨whole, joined, hwhole, hjoined, ?_⟩
  unfold Bindings.names at hfilled hfilled' ⊢
  rw [hjoins.sinks, List.map_append, hfilled, hfilled']
  rfl

end RangeRules
