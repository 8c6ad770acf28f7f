import RangeRules.Proofs.Phrase.Excerpt
import RangeRules.Proofs.Program.Blame

/-!
# Where places end

The place of a node ends with its last token, unless the node is a `when` expression outside
parentheses: this ends where the next token starts, and its text with the layout in between, if
that is how its last value is read. So does the place of a sink that is assigned twice. Nothing but
layout is taken in.
-/
namespace RangeRules

open Text (Source Span byteCount)
open Phrase

/-- The text at a place is that of tokens up to `last`, and layout after it only if it trails. -/
def Text.EndsWith (source : Source) (place : Span) (last : Token) (trails : Bool) : Prop :=
  ∃ text layout, slice? source place = some (text ++ layout) ∧
    place.start + byteCount text = last.span.stop ∧ Token.kinds layout = [] ∧
    (trails = false → layout = [])

section Text

variable {source : Source} {before inside after : List Token} {last : Token} {place : Span}
  {trails : Bool}

theorem Token.endsWith
    (htokens : (Sequence.of source).tokens = before ++ (inside ++ last :: after))
    (hstart : place.start = startOf last.span.start inside)
    (hstop : place.stop = if trails then startOf (byteCount source) after else last.span.stop) :
    Text.EndsWith source place last trails := by
  obtain ⟨p, text, layout, q, rfl, hp, htext, hend, -, hlayout, hnone⟩ :=
    exists_excerpt htokens trails
  rw [Nat.zero_add] at hp htext hend
  rw [Nat.zero_add, ← hstop] at hend
  obtain ⟨start, stop⟩ := place
  dsimp only at hstart hstop hend
  obtain rfl := hp.trans hstart.symm
  obtain rfl := hend
  exact ⟨text, layout, Text.slice?_append _ _ _, htext, hlayout, hnone⟩

end Text

namespace Program

variable {limit : Nat} {source : Source} {p : Program}

/-- Each node of an accepted program is written in tokens that stand together. -/
theorem written_of_parseWithin (h : parseWithin limit source = .ok p) {n : Expr}
    (hn : n ∈ p.nodes) :
    n.WrittenIn (byteCount source) limit (Token.Sequence.of source).tokens := by
  obtain ⟨written, hread, hall, rfl⟩ := parseWithin_eq_ok.1 h
  obtain ⟨t, ht, hn⟩ := List.mem_flatMap.1 hn
  obtain ⟨s, hs, rfl⟩ := List.mem_map.1 ht
  rw [s.body_tree] at hn
  exact ((Read.program_sound hread).written hs hn).after (hall.levels_le s hs) []

/-- The text at the place of a node spells a phrase with its tree, in no more levels than that. -/
theorem exists_text_of_parseWithin (h : parseWithin limit source = .ok p) {n : Expr}
    (hn : n ∈ p.nodes) : ∃ before text after x, source = before ++ (text ++ after) ∧
      n.span = ⟨byteCount before, byteCount before + byteCount text⟩ ∧
      Derives (byteCount source) (Token.tokensFrom (byteCount before) text) x [] ∧
      x.tree.relocate .nowhere = n.relocate .nowhere ∧ x.levels ≤ limit := by
  obtain ⟨front, inside, last, back, x, htokens, hexcerpt, hlevels⟩ := written_of_parseWithin h hn
  obtain ⟨before, text, layout, after, hsource, hstart, -, hstop, hinside, -, -⟩ :=
    Token.exists_excerpt htokens x.overruns
  rw [Nat.zero_add] at hstart hstop hinside
  rw [Nat.zero_add, ← hexcerpt.stop] at hstop
  refine ⟨before, text ++ layout, after, x, hsource, ?_, hinside ▸ hexcerpt.derives,
    hexcerpt.tree, hlevels⟩
  rw [hstart, ← hexcerpt.start] at hstop ⊢
  rw [hstop]

/-- A statement is written in tokens that stand together, and its place ends as its body does. -/
theorem exists_statement_of_read {written : List WrittenStatement}
    (hread : read source = .ok written) {s : WrittenStatement} (hs : s ∈ written) :
    ∃ before inside last after s',
      (Token.Sequence.of source).tokens = before ++ (inside ++ last :: after) ∧
      DerivesStatement (byteCount source) (inside ++ [last]) s' [] ∧
      s'.relocate .starts = s.relocate .starts ∧
      s.span.start = Token.startOf last.span.start inside ∧
      s.span.stop = if s'.body.trails then Token.startOf (byteCount source) after
        else last.span.stop := by
  obtain ⟨front, back, rfl⟩ := List.append_of_mem hs
  obtain ⟨consumed, mid, rest, htokens, hderives, -, -⟩ := exists_tokens_of_read hread
  obtain ⟨hstart, inside, last, rfl, hstop⟩ := hderives.exists_last_stop
  obtain ⟨taken, htaken, hfollowed⟩ := hderives.followed
  rw [List.append_cons] at htaken
  obtain rfl := List.append_cancel_right htaken
  obtain ⟨s', halone, hstarts, -⟩ := hfollowed (byteCount source) []
  rw [List.append_nil] at halone
  rw [startOf_append_cons] at hstart
  have htrails : s'.body.trails = s.body.trails := by
    rw [← s'.body.trails_relocate .starts, (WrittenStatement.mk.inj hstarts).2.2.2,
      Phrase.trails_relocate]
  refine ⟨consumed, inside, last, rest, s', htokens, halone, hstarts, hstart, ?_⟩
  rw [htrails]
  exact hstop

/-- A sink is refused as assigned twice at the place of its statement. -/
theorem exists_sink_of_duplicate {name : String} {span : Span}
    (h : parseWithin limit source = .error ⟨.duplicateSink name, source, span⟩) :
    ∃ written, read source = .ok written ∧ ∃ s ∈ written, s.isSink = true ∧ s.name = name ∧
      s.span = span := by
  cases hread : read source with
  | error a =>
    unfold parseWithin at h
    rw [hread] at h
    exact nomatch (ParseError.mk.inj (Except.error.inj h)).1
  | ok written =>
    obtain ⟨before, s, after, f, rfl, -, hrefused, herror⟩ := parseWithin_eq_error hread h
    obtain ⟨hcause, -, rfl⟩ := ParseError.mk.inj herror
    refine ⟨_, rfl, s, by simp, ?_⟩
    cases hrefused with
    | sink isSink mem => exact ⟨isSink, (ParseError.Cause.duplicateSink.inj hcause).symm, rfl⟩
    | body hrefuses => cases hrefuses <;> exact nomatch hcause

/--
Each node of an accepted program is written in tokens that by themselves spell a phrase with its
tree. Its place ends with the last of them, or where the next token starts if the phrase overruns,
that is a `when` expression outside parentheses whose last value is read up to the next token. So
does the place of a sink that is assigned twice, if its expression is read up to the next token. The
text is that of the tokens, with nothing but layout after it.
-/
theorem place_ends (limit : Nat) (source : Source) :
    (∀ p, parseWithin limit source = .ok p → ∀ n ∈ p.nodes, ∃ before inside last after x,
      (Token.Sequence.of source).tokens = before ++ (inside ++ last :: after) ∧
      n.Excerpt (byteCount source) inside last after x ∧
      Text.EndsWith source n.span last x.overruns) ∧
    ∀ name span, parseWithin limit source = .error ⟨.duplicateSink name, source, span⟩ →
      ∃ before inside last after s,
        (Token.Sequence.of source).tokens = before ++ (inside ++ last :: after) ∧
        DerivesStatement (byteCount source) (inside ++ [last]) s [] ∧
        s.isSink = true ∧ s.name = name ∧ span.start = Token.startOf last.span.start inside ∧
        span.stop = (if s.body.trails then Token.startOf (byteCount source) after
          else last.span.stop) ∧
        Text.EndsWith source span last s.body.trails := by
  refine ⟨fun p hp n hn => ?_, fun name span he => ?_⟩
  · obtain ⟨before, inside, last, after, x, htokens, hexcerpt, -⟩ := written_of_parseWithin hp hn
    exact ⟨before, inside, last, after, x, htokens, hexcerpt,
      Token.endsWith htokens hexcerpt.start hexcerpt.stop⟩
  · obtain ⟨written, hread, s, hs, hsink, rfl, rfl⟩ := exists_sink_of_duplicate he
    obtain ⟨before, inside, last, after, s', htokens, hderives, hstarts, hstart, hstop⟩ :=
      exists_statement_of_read hread hs
    obtain ⟨hsink', hname, -, -⟩ := WrittenStatement.mk.inj hstarts
    exact ⟨before, inside, last, after, s', htokens, hderives, hsink'.trans hsink, hname, hstart,
      hstop, Token.endsWith htokens hstart hstop⟩

end Program

namespace Extent

/-- A `when` expression with a note after it. -/
def noted : Source := "z: when this.b 1 otherwise 2 // default\nw: 3".toList

/-- A sink that is assigned again, with a note after it. -/
def repeated : Source := "z: 1\nz: 2 // again\n".toList

theorem parse_noted : ((Program.parseWithin 8 noted).toOption.bind fun p =>
    p.nodes.find? fun n => n.span = ⟨3, 40⟩).isSome = true := by
  decide +kernel

theorem parse_repeated : (match Program.parseWithin 8 repeated with
    | .error e => some (e.cause, e.source, e.span)
    | .ok _ => none) = some (.duplicateSink "z", repeated, ⟨5, 19⟩) := by
  decide +kernel

theorem exists_node : ∃ p n, Program.parseWithin 8 noted = .ok p ∧ n ∈ p.nodes ∧
    n.span = ⟨3, 40⟩ := by
  obtain ⟨n, hfind⟩ := Option.isSome_iff_exists.1 parse_noted
  obtain ⟨p, hp, hfind⟩ := Option.bind_eq_some_iff.1 hfind
  have hspan := List.find?_some hfind
  rw [decide_eq_true_iff] at hspan
  exact ⟨p, n, ok_of_toOption hp, List.mem_of_find?_eq_some hfind, hspan⟩

theorem refused_repeated : Program.parseWithin 8 repeated =
    .error ⟨.duplicateSink "z", repeated, ⟨5, 19⟩⟩ := by
  have hparse := parse_repeated
  cases h : Program.parseWithin 8 repeated with
  | ok p =>
    rw [h] at hparse
    exact nomatch hparse
  | error e =>
    rw [h] at hparse
    obtain ⟨hcause, hsource, hspan⟩ := by simpa using hparse
    obtain ⟨cause, source, span⟩ := e
    dsimp only at hcause hsource hspan
    rw [hcause, hsource, hspan]

end Extent

/-- The text of a `when` expression ends with the note after it, and no token ends there. -/
theorem Program.place_ends_noted :
    (∃ p n, parseWithin 8 Extent.noted = .ok p ∧ n ∈ p.nodes ∧
      Text.slice? Extent.noted n.span = some "when this.b 1 otherwise 2 // default\n".toList ∧
      ∀ t ∈ (Token.Sequence.of Extent.noted).tokens, t.span.stop ≠ n.span.stop) ∧
    ∃ span, parseWithin 8 Extent.repeated = .error ⟨.duplicateSink "z", Extent.repeated, span⟩ ∧
      ∀ t ∈ (Token.Sequence.of Extent.repeated).tokens, t.span.stop ≠ span.stop := by
  have htext : Text.slice? Extent.noted ⟨3, 40⟩ =
      some "when this.b 1 otherwise 2 // default\n".toList := by
    decide +kernel
  have hnone : ∀ t ∈ (Token.Sequence.of Extent.noted).tokens, t.span.stop ≠ 40 := by
    decide +kernel
  have hnone' : ∀ t ∈ (Token.Sequence.of Extent.repeated).tokens, t.span.stop ≠ 19 := by
    decide +kernel
  obtain ⟨p, n, hp, hn, hspan⟩ := Extent.exists_node
  refine ⟨⟨p, n, hp, hn, ?_, ?_⟩, ⟨5, 19⟩, Extent.refused_repeated, hnone'⟩
  · rw [hspan]
    exact htext
  · rw [hspan]
    exact hnone

theorem Program.place_ends_overrunning :
    (∃ p n before inside last after x, parseWithin 8 Extent.noted = .ok p ∧ n ∈ p.nodes ∧
      n.span = ⟨3, 40⟩ ∧
      (Token.Sequence.of Extent.noted).tokens = before ++ (inside ++ last :: after) ∧
      n.Excerpt (byteCount Extent.noted) inside last after x) ∧
    ∃ before inside last after,
      (Token.Sequence.of Extent.repeated).tokens = before ++ (inside ++ last :: after) ∧
      Token.startOf last.span.start inside = 5 ∧
      ∃ trails, Text.EndsWith Extent.repeated ⟨5, 19⟩ last trails := by
  obtain ⟨p, n, hp, hn, hspan⟩ := Extent.exists_node
  obtain ⟨before, inside, last, after, x, htokens, hexcerpt, -⟩ :=
    (Program.place_ends 8 Extent.noted).1 p hp n hn
  obtain ⟨before', inside', last', after', s, htokens', -, -, -, hstart, -, hends⟩ :=
    (Program.place_ends 8 Extent.repeated).2 "z" ⟨5, 19⟩ Extent.refused_repeated
  exact ⟨⟨p, n, before, inside, last, after, x, hp, hn, hspan, htokens, hexcerpt⟩, before', inside',
    last', after', htokens', hstart.symm, _, hends⟩

end RangeRules
