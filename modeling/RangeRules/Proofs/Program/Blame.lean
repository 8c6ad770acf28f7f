import RangeRules.Proofs.Grammar.Acceptance
import RangeRules.Proofs.Phrase.Consumption
import RangeRules.Proofs.Program.Lawful
import RangeRules.Proofs.Token.Cut

/-!
# Errors blame the first bad statement

A text that breaks a rule on numbers and names is refused for the first statement that does so after
those before it, at the number or name concerned. Up to there the text is a program.
-/
namespace RangeRules

open Text (Source Span byteCount)

/-! ### Texts cut in front of a statement -/

section Cut

variable {source : Source} {before after : List WrittenStatement} {s : WrittenStatement}

/-- The tokens of a text split in front of each statement. -/
theorem Program.exists_tokens_of_read (hread : read source = .ok (before ++ s :: after)) :
    ∃ consumed mid rest, (Token.Sequence.of source).tokens = consumed ++ mid ∧
      Phrase.DerivesStatement (byteCount source) mid s rest ∧
      (∃ offset, Token.Ordered (byteCount source) offset mid) ∧
      ∀ finish, finish = Token.startOf (byteCount source) mid →
        Phrase.DerivesStatements finish consumed before [] := by
  obtain ⟨mid, hbefore, hrest⟩ := (Phrase.Read.program_sound hread).of_append
  obtain ⟨consumed, htokens, hfollowed⟩ := hbefore.followed
  have hordered := Token.Sequence.ordered source
  rw [htokens] at hordered
  obtain ⟨offset, -, hmid⟩ := hordered.of_append
  cases hrest with
  | cons head tail =>
    refine ⟨consumed, mid, _, htokens, head, ⟨offset, hmid⟩, fun finish hfinish => ?_⟩
    obtain ⟨written, hwritten, -, hsame⟩ := hfollowed finish []
    obtain rfl := hsame hfinish
    rwa [List.append_nil] at hwritten

/-- A text that is cut in front of a statement is read as those before it. -/
theorem Program.read_cut (hread : read source = .ok (before ++ s :: after)) :
    ∃ cut rest, source = cut ++ rest ∧ byteCount cut = s.span.start ∧ read cut = .ok before := by
  obtain ⟨consumed, mid, rest, htokens, hs, ⟨offset, hmid⟩, hbefore⟩ := exists_tokens_of_read hread
  obtain ⟨⟨stop, others, rfl⟩, -⟩ := hs.within hmid
  obtain ⟨cut, tail, hsource, hbytes, hcut⟩ := Token.exists_cut_before htokens
  rw [Nat.zero_add] at hbytes
  obtain rfl := hcut.front
  exact ⟨cut, tail, hsource, hbytes, Phrase.Read.program_eq_ok.2 (hbefore _ hbytes)⟩

end Cut

/-! ### What is blamed -/

def Text.Span.Inside (inner outer : Span) : Prop :=
  outer.start ≤ inner.start ∧ inner.stop ≤ outer.stop

/-- An error about a statement after others, at the part that breaks a rule. -/
inductive Blames (source : Source) (before : List WrittenStatement) (s : WrittenStatement) :
    ParseError → Prop where
  | number {digits : List Char} {span : Span} (mem : ⟨.number digits, span⟩ ∈ s.body.atoms)
    (infinite : (Number.ofLiteral digits).isFinite = false) (inside : span.Inside s.span)
    (text : Text.slice? source span = some digits) :
    Blames source before s ⟨.invalidNumber (String.ofList digits), source, span⟩
  | variable {name : String} {span : Span} (mem : ⟨.name name, span⟩ ∈ s.body.atoms)
    (unassigned : ∀ t ∈ before, t.isSink = false → t.name ≠ name) (inside : span.Inside s.span)
    (text : Text.slice? source span = some name.toList) :
    Blames source before s ⟨.unboundVariable name, source, span⟩
  | sink {t : WrittenStatement} {stop : Nat} (isSink : s.isSink = true) (mem : t ∈ before)
    (earlier : t.isSink = true) (same : t.name = s.name)
    (text : Text.slice? source ⟨s.span.start, stop⟩ = some s.name.toList) :
    Blames source before s ⟨.duplicateSink s.name, source, s.span⟩

theorem Blames.not_lawful {source : Source} {before : List WrittenStatement}
    {s : WrittenStatement} {e : ParseError} (h : Blames source before s e) :
    ¬ Lawful (before ++ [s]) := by
  intro hlawful
  cases h with
  | @number digits span mem infinite inside text =>
    have hfinite := hlawful.finite s (by simp) digits span mem
    exact Bool.eq_false_iff.1 infinite hfinite
  | @«variable» name span mem unassigned inside text =>
    obtain ⟨t, ht, hsink, hname⟩ := hlawful.assigned before s [] rfl name span mem
    exact unassigned t ht hsink hname
  | @sink t stop isSink mem earlier same text =>
    have hdistinct := (List.pairwise_append.1 hlawful.distinct).2.2 t mem s List.mem_cons_self
    exact hdistinct earlier isSink same

theorem WrittenStatement.Refused.blames {source : Source} {before after : List WrittenStatement}
    {s : WrittenStatement} {limit : Nat} {f : Fault}
    (h : s.Refused limit (declareAll [] before) (fillAll [] before) f)
    (hlevels : s.body.levels ≤ limit)
    (hread : Program.read source = .ok (before ++ s :: after)) :
    Blames source before s ⟨f.cause, source, f.span⟩ := by
  obtain ⟨consumed, mid, rest, htokens, hs, ⟨offset, hmid⟩, -⟩ :=
    Program.exists_tokens_of_read hread
  obtain ⟨⟨stop, others, hhead⟩, hatoms⟩ := hs.within hmid
  have hmem : ∀ t ∈ mid, t ∈ (Token.Sequence.of source).tokens := fun t ht => by
    rw [htokens]
    exact List.mem_append_right _ ht
  cases h with
  | sink isSink mem =>
    obtain ⟨t, ht, hearlier, hname⟩ := (mem_fillAll.1 mem).resolve_left List.not_mem_nil
    have htext := Token.slice?_name (hmem _ (hhead ▸ List.mem_cons_self))
    exact .sink isSink ht hearlier hname htext
  | body h =>
    cases h with
    | tooDeep span deep => exact absurd hlevels (Nat.not_le.2 deep)
    | number mem infinite =>
      obtain ⟨htoken, hinside⟩ := hatoms _ mem
      exact .number mem infinite hinside (Token.slice?_number (hmem _ htoken))
    | «variable» mem unassigned =>
      obtain ⟨htoken, hinside⟩ := hatoms _ mem
      refine .variable mem (fun t ht hsink hname => unassigned ?_) hinside
        (Token.slice?_name (hmem _ htoken))
      exact mem_declareAll.2 (.inr ⟨t, ht, hsink, hname⟩)

/--
A text that matches the grammar and is not too deep is accepted exactly if its statements keep the
rules. Otherwise the error blames the first statement that breaks one after those before it, and the
text in front of this statement is accepted with just these.
-/
theorem Program.parseWithin_of_matches {limit : Nat} {source : Source}
    (h : Peg.Matches source (.rule .program) source (some [])) :
    ∃ written, read source = .ok written ∧ ((∀ s ∈ written, s.body.levels ≤ limit) →
      ((∃ p, parseWithin limit source = .ok p) ↔ Lawful written) ∧
      ∀ e, parseWithin limit source = .error e →
        ∃ before s after, written = before ++ s :: after ∧ Lawful before ∧
          ¬ Lawful (before ++ [s]) ∧ Blames source before s e ∧
          ∃ cut rest, source = cut ++ rest ∧ byteCount cut = s.span.start ∧
            parseWithin limit cut = .ok ⟨cut, before.map (·.tree)⟩) := by
  obtain ⟨written, hread⟩ := (Phrase.read_ok_iff source).2 (Peg.isProgram_of_matches h)
  refine ⟨written, hread, fun hlevels => ⟨⟨fun ⟨p, hp⟩ => ?_, fun hlawful => ?_⟩, fun e he => ?_⟩⟩
  · obtain ⟨written', hread', hall, -⟩ := parseWithin_eq_ok.1 hp
    obtain rfl := Except.ok.inj (hread.symm.trans hread')
    exact (passAll_iff_lawful.1 hall).2
  · have hall := passAll_iff_lawful.2 ⟨hlevels, hlawful⟩
    exact ⟨_, parseWithin_eq_ok.2 ⟨written, hread, hall, rfl⟩⟩
  · obtain ⟨before, s, after, f, rfl, hall, hrefused, rfl⟩ := parseWithin_eq_error hread he
    have hblames := hrefused.blames (hlevels s (by simp)) hread
    obtain ⟨cut, rest, hsource, hbytes, hcut⟩ := read_cut hread
    refine ⟨before, s, after, rfl, (passAll_iff_lawful.1 hall).2, hblames.not_lawful, hblames,
      cut, rest, hsource, hbytes, ?_⟩
    exact parseWithin_eq_ok.2 ⟨before, hcut, hall, rfl⟩

namespace Blame

/-- The second sink reads a variable that only the statement after it assigns. -/
def early : Source := "a = 1 z: a w: b b = 2".toList

end Blame

theorem Program.parseWithin_of_matches_early :
    ∃ before, (∃ cut rest, Blame.early = cut ++ rest ∧
      parseWithin 8 cut = .ok ⟨cut, before.map (·.tree)⟩) ∧
      ∃ s e, Blames Blame.early before s e ∧ parseWithin 8 Blame.early = .error e ∧
        e.cause = .unboundVariable "b" := by
  have hlevels : (Program.read Blame.early).toOption.map (·.map (·.body.levels)) =
      some [2, 2, 2, 2] := by
    decide +kernel
  have herror : (match parseWithin 8 Blame.early with
      | .error e => some e.cause
      | .ok _ => none) = some (.unboundVariable "b") := by
    decide +kernel
  obtain ⟨written, hwritten, hlevels⟩ := Option.map_eq_some_iff.1 hlevels
  have hread := ok_of_toOption hwritten
  have hmatches := Peg.matches_of_isProgram ((Phrase.read_ok_iff Blame.early).1 ⟨written, hread⟩)
  obtain ⟨written', hread', hrules⟩ := @Program.parseWithin_of_matches 8 _ hmatches
  obtain rfl := Except.ok.inj (hread.symm.trans hread')
  have hshallow : ∀ s ∈ written, s.body.levels ≤ 8 := fun s hs => by
    have hmem : s.body.levels ∈ written.map (·.body.levels) := List.mem_map_of_mem hs
    rw [hlevels] at hmem
    simp only [List.mem_cons, List.not_mem_nil, or_false, or_self] at hmem
    omega
  cases hparse : parseWithin 8 Blame.early with
  | ok p =>
    rw [hparse] at herror
    exact nomatch herror
  | error e =>
    rw [hparse] at herror
    obtain ⟨before, s, after, -, -, -, hblames, cut, rest, hsource, -, hcut⟩ :=
      (hrules hshallow).2 e hparse
    exact ⟨before, ⟨cut, rest, hsource, hcut⟩, s, e, hblames, rfl, Option.some.inj herror⟩

end RangeRules
