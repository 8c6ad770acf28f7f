import RangeRules.Proofs.Phrase.Parentheses
import RangeRules.Proofs.Phrase.Sentence
import RangeRules.Proofs.Program.Depth
import RangeRules.Proofs.Token.Insertion

/-!
# Parentheses around a node

Whatever node of a program is put in parentheses, the text stays a program with the same
statements, places aside, unless it is then too deep. The parentheses are tokens of their own, so
no token around them is read otherwise; and a phrase in parentheses is an operand, so that nothing
next to it belongs to it.
-/
namespace RangeRules

open Text (Source Span byteCount)
open Token (Ordered)
open Phrase

/-- The text with parentheses around the tokens at a place, if there are any. -/
def Program.parenthesize? (source : Source) (place : Span) : Option Source := do
  let inside := (Token.Sequence.of source).tokens.filter fun t =>
    place.start ≤ t.span.start ∧ t.span.stop ≤ place.stop
  let first ← inside.head?
  let last ← inside.getLast?
  let (before, rest) ← Text.splitBytes? first.span.start source
  let (middle, after) ← Text.splitBytes? (last.span.stop - first.span.start) rest
  return before ++ '(' :: (middle ++ ')' :: after)

/-! ### The text -/

theorem Token.Ordered.nonempty {stop offset : Nat} {ts : List Token} (h : Ordered stop offset ts) :
    ∀ t ∈ ts, t.span.start < t.span.stop := by
  induction ts generalizing offset with
  | nil => exact nofun
  | cons t ts ih => exact List.forall_mem_cons.2 ⟨h.2.1, ih h.2.2⟩

/-- The tokens at a place are those that lie within it. -/
theorem Phrase.Parted.filter_eq {finish offset : Nat} {place : Span}
    {before inside after : List Token} (h : Parted finish offset place before inside after) :
    ((before ++ (inside ++ after)).filter fun t =>
      place.start ≤ t.span.start ∧ t.span.stop ≤ place.stop) = inside := by
  have hbefore : (before.filter fun t =>
      place.start ≤ t.span.start ∧ t.span.stop ≤ place.stop) = [] := by
    refine List.filter_eq_nil_iff.2 fun t ht => ?_
    have hstop := (h.ordered_before.within.2 t ht).2
    have hlt := h.ordered_before.nonempty t ht
    rw [decide_eq_true_iff]
    omega
  have hafter : (after.filter fun t =>
      place.start ≤ t.span.start ∧ t.span.stop ≤ place.stop) = [] := by
    refine List.filter_eq_nil_iff.2 fun t ht => ?_
    have hstart := (h.ordered_after.within.2 t ht).1
    have hlt := h.ordered_after.nonempty t ht
    rw [decide_eq_true_iff]
    omega
  have hinside : (inside.filter fun t =>
      place.start ≤ t.span.start ∧ t.span.stop ≤ place.stop) = inside :=
    List.filter_eq_self.2 fun t ht => decide_eq_true (h.ordered_inside.within.2 t ht)
  rw [List.filter_append, List.filter_append, hbefore, hafter, hinside, List.append_nil,
    List.nil_append]

/-- Of tokens in order the first starts before the last ends. -/
theorem Token.Ordered.start_lt_stop {stop offset : Nat} {first last : Token} {ts : List Token}
    (h : Ordered stop offset (first :: ts)) (hlast : last ∈ first :: ts) :
    first.span.start < last.span.stop := by
  have hnonempty := h.nonempty last hlast
  obtain rfl | hlast := List.mem_cons.1 hlast
  · exact hnonempty
  · have hstart := (h.2.2.within.2 last hlast).1
    have hfirst := h.2.1
    omega

theorem Program.parenthesize?_eq {p middle q : Source} {place : Span} {inside : List Token}
    {first last : Token} (hinside : ((Token.Sequence.of (p ++ (middle ++ q))).tokens.filter fun t =>
      place.start ≤ t.span.start ∧ t.span.stop ≤ place.stop) = inside)
    (hfirst : inside.head? = some first) (hlast : inside.getLast? = some last)
    (hstart : byteCount p = first.span.start)
    (hstop : byteCount p + byteCount middle = last.span.stop) :
    parenthesize? (p ++ (middle ++ q)) place = some (p ++ '(' :: (middle ++ ')' :: q)) := by
  have hmiddle : last.span.stop - byteCount p = byteCount middle := by omega
  simp only [parenthesize?, hinside, hfirst, hlast, ← hstart, hmiddle, Text.splitBytes?_append,
    Option.bind_eq_bind, Option.bind_some, Option.pure_def]

/-- Parentheses around the tokens at a place are tokens around these, and no others change. -/
theorem Program.exists_parenthesize {source : Source} {finish offset : Nat} {place : Span}
    {before inside after : List Token}
    (htokens : (Token.Sequence.of source).tokens = before ++ (inside ++ after))
    (hparted : Parted finish offset place before inside after) :
    ∃ source', parenthesize? source place = some source' ∧ Token.kinds source' =
      kindsOf before ++ .lparen :: (kindsOf inside ++ .rparen :: kindsOf after) := by
  obtain ⟨first, tail, hcons⟩ := List.exists_cons_of_ne_nil hparted.nonempty
  have hfirst : inside.head? = some first := by rw [hcons, List.head?_cons]
  obtain ⟨last, hlast⟩ : ∃ last, inside.getLast? = some last :=
    ⟨_, List.getLast?_eq_some_getLast hparted.nonempty⟩
  have hordered := hparted.ordered_inside
  have hmem := List.mem_of_getLast? hlast
  rw [hcons] at hordered hmem
  have hlt := hordered.start_lt_stop hmem
  obtain ⟨p, middle, q, rfl, hstart, hstop, hkinds⟩ :=
    Token.exists_surround htokens hfirst hlast hlt
  rw [Nat.zero_add] at hstart hstop
  have hfilter := hparted.filter_eq
  rw [← htokens] at hfilter
  refine ⟨_, parenthesize?_eq hfilter hfirst hlast hstart hstop, ?_⟩
  exact (Token.map_kind_tokensFrom 0 _).symm.trans hkinds

/-! ### The program -/

theorem Relocation.map_token_nowhere (ts : List Token) :
    ts.map Relocation.nowhere.token = (kindsOf ts).map fun k => ⟨k, ⟨0, 0⟩⟩ := by
  rw [List.map_map]
  rfl

/-- A text is read as the statements that the kinds of its tokens spell, places aside. -/
theorem Phrase.DerivesStatements.exists_read {source : Source} {finish : Nat} {ts : List Token}
    {written : List WrittenStatement} (h : DerivesStatements finish ts written [])
    (hkinds : kindsOf ts = Token.kinds source) : ∃ written', Program.read source = .ok written' ∧
      written'.map (·.relocate .nowhere) = written.map (·.relocate .nowhere) := by
  obtain ⟨written', hread⟩ := (read_ok_iff source).2 (hkinds ▸ h.sentence)
  have hsame : ts.map Relocation.nowhere.token =
      (Token.Sequence.of source).tokens.map Relocation.nowhere.token := by
    rw [Relocation.map_token_nowhere, Relocation.map_token_nowhere, hkinds]
    exact congrArg _ (Token.Sequence.map_kind source).symm
  have hthis : DerivesStatements 0 _ _ [] := h.relocate fun _ => 0
  have hthat : DerivesStatements 0 _ _ [] := (Read.program_eq_ok.1 hread).relocate fun _ => 0
  have hthis := Read.program_eq_ok.2 hthis
  have hthat := Read.program_eq_ok.2 hthat
  change Read.program 0 (ts.map Relocation.nowhere.token) = _ at hthis
  rw [hsame] at hthis
  exact ⟨written', hread, Except.ok.inj (hthat.symm.trans hthis)⟩

/-- A text is accepted if the kinds of its tokens spell statements that pass the checks. -/
theorem Program.parseWithin_of_derives {limit : Nat} {source : Source} {finish : Nat}
    {ts : List Token} {written : List WrittenStatement} (h : DerivesStatements finish ts written [])
    (hpasses : PassAll limit [] [] written) (hkinds : kindsOf ts = Token.kinds source) :
    ∃ p, parseWithin limit source = .ok p ∧ p.statements.map (·.relocate .nowhere) =
      (written.map (·.tree)).map (·.relocate .nowhere) := by
  obtain ⟨written', hread, hsame⟩ := h.exists_read hkinds
  have hpasses' : PassAll limit [] [] written' := by
    rw [← passAll_relocate .nowhere, hsame, passAll_relocate]
    exact hpasses
  refine ⟨_, parseWithin_eq_ok.2 ⟨written', hread, hpasses', rfl⟩, ?_⟩
  change (written'.map (·.tree)).map (·.relocate .nowhere) = _
  rw [← map_tree_relocate, hsame, map_tree_relocate]

theorem WrittenStatement.Alike.tree_eq {s s' : WrittenStatement} (h : s.Alike s') :
    s'.tree.relocate .nowhere = s.tree.relocate .nowhere := by
  unfold WrittenStatement.tree
  rw [h.isSink, h.name]
  split
  · exact congrArg (Statement.sink s.name) h.body.tree
  · exact congrArg (Statement.variable s.name) h.body.tree

theorem map_tree_alike {written written' : List WrittenStatement}
    (h : List.Forall₂ WrittenStatement.Alike written written') :
    (written'.map (·.tree)).map (·.relocate .nowhere) =
      (written.map (·.tree)).map (·.relocate .nowhere) := by
  induction h with
  | nil => rfl
  | cons hfirst _ ih => exact congrArg₂ List.cons hfirst.tree_eq ih

theorem WrittenStatement.Alike.declare_eq {s s' : WrittenStatement} (h : s.Alike s')
    (declared : List String) : s'.declare declared = s.declare declared := by
  unfold WrittenStatement.declare
  rw [h.isSink, h.name]

theorem WrittenStatement.Alike.fill_eq {s s' : WrittenStatement} (h : s.Alike s')
    (sinks : List String) : s'.fill sinks = s.fill sinks := by
  unfold WrittenStatement.fill
  rw [h.isSink, h.name]

theorem WrittenStatement.Alike.passes {s s' : WrittenStatement} {limit : Nat}
    {declared sinks : List String} (h : s.Alike s') (hs : s.Passes limit declared sinks) :
    s'.Passes (limit + 2) declared sinks where
  levels_le := Nat.le_trans h.body.levels (Nat.add_le_add_right hs.levels_le 2)
  ready := by
    rw [← Expr.ready_relocate .nowhere, h.body.tree, Expr.ready_relocate]
    exact hs.ready
  fresh := by
    rw [h.isSink, h.name]
    exact hs.fresh

/-- With two levels more, statements pass the checks as those do that they are like. -/
theorem PassAll.of_alike {limit : Nat} {declared sinks : List String}
    {written written' : List WrittenStatement} (h : PassAll limit declared sinks written)
    (halike : List.Forall₂ WrittenStatement.Alike written written') :
    PassAll (limit + 2) declared sinks written' := by
  induction halike generalizing declared sinks with
  | nil => trivial
  | cons hfirst _ ih =>
    have hrest := ih h.2
    rw [← hfirst.declare_eq, ← hfirst.fill_eq] at hrest
    exact ⟨hfirst.passes h.1, hrest⟩

/--
Parentheses around a node, set right before its first token and right after its last one, leave an
accepted text accepted with the same statements, places aside, unless it is then too deep; and it is
not if two levels more are allowed.
-/
theorem Program.parseWithin_parenthesize {limit : Nat} {source : Source} {p : Program}
    (h : parseWithin limit source = .ok p) {n : Expr} (hn : n ∈ p.nodes) :
    ∃ source' p', parenthesize? source n.span = some source' ∧
      p'.statements.map (·.relocate .nowhere) = p.statements.map (·.relocate .nowhere) ∧
      parseWithin (limit + 2) source' = .ok p' ∧
      ∀ m, parseWithin m source' = .ok p' ∨
        ∃ span, parseWithin m source' = .error ⟨.maxDepthExceeded (m + 1) m, source', span⟩ := by
  obtain ⟨written, hread, hall, rfl⟩ := parseWithin_eq_ok.1 h
  obtain ⟨t, ht, hn⟩ := List.mem_flatMap.1 hn
  obtain ⟨s, hs, rfl⟩ := List.mem_map.1 ht
  rw [s.body_tree] at hn
  obtain ⟨before, inside, after, htokens, hparted, hsurrounded⟩ :=
    (Read.program_eq_ok.1 hread).surrounds (Token.Sequence.ordered source) hs hn
  obtain ⟨source', hsource', hkinds⟩ := exists_parenthesize htokens hparted
  obtain ⟨spelled, hspelled, halike⟩ := hsurrounded ⟨0, 0⟩ ⟨0, 0⟩
  have hspells : kindsOf (before ++ ⟨.lparen, ⟨0, 0⟩⟩ :: (inside ++ ⟨.rparen, ⟨0, 0⟩⟩ :: after)) =
      Token.kinds source' := by
    rw [hkinds]
    simp [kindsOf]
  obtain ⟨written', hread', hsame⟩ := hspelled.exists_read hspells
  have hpasses : PassAll (limit + 2) [] [] written' := by
    rw [← passAll_relocate .nowhere, hsame, passAll_relocate]
    exact hall.of_alike halike
  refine ⟨source', _, hsource', ?_, parseWithin_eq_ok.2 ⟨written', hread', hpasses, rfl⟩,
    fun m => ?_⟩
  · change (written'.map (·.tree)).map (·.relocate .nowhere) = _
    rw [← map_tree_relocate, hsame, map_tree_relocate, map_tree_alike halike]
  · cases hparse : parseWithin m source' with
    | ok p' =>
      obtain ⟨written'', hread'', -, rfl⟩ := parseWithin_eq_ok.1 hparse
      obtain rfl := Except.ok.inj (hread'.symm.trans hread'')
      exact .inl rfl
    | error e =>
      obtain ⟨front, s, back, f, rfl, -, hrefused, rfl⟩ := parseWithin_eq_error hread' hparse
      have hs := (passAll_append.1 hpasses).2.1
      exact .inr ⟨f.span, by rw [hs.tooDeep hrefused]⟩

namespace Parentheses

/-- A product stands in a difference, which is what a clause yields. -/
def clause : Source := "a = this.x z: when a > 2 a * 3 - 1 otherwise 4".toList

/-- Where the product is written. -/
def product : Span := ⟨25, 30⟩

end Parentheses

theorem Program.parseWithin_parenthesize_clause : ∃ (p p' : Program) (n : Expr),
    parseWithin 8 Parentheses.clause = .ok p ∧ n ∈ p.nodes ∧ n.span = Parentheses.product ∧
      parseWithin 10 "a = this.x z: when a > 2 (a * 3) - 1 otherwise 4".toList = .ok p' ∧
      p'.statements.map (·.relocate .nowhere) = p.statements.map (·.relocate .nowhere) := by
  have hparse : ((parseWithin 8 Parentheses.clause).toOption.bind fun p =>
      p.nodes.find? (·.span = Parentheses.product)).isSome = true := by
    decide +kernel
  have htext : parenthesize? Parentheses.clause Parentheses.product =
      some "a = this.x z: when a > 2 (a * 3) - 1 otherwise 4".toList := by
    decide +kernel
  obtain ⟨n, hfind⟩ := Option.isSome_iff_exists.1 hparse
  obtain ⟨p, hp, hfind⟩ := Option.bind_eq_some_iff.1 hfind
  have hspan := List.find?_some hfind
  rw [decide_eq_true_iff] at hspan
  have hn := List.mem_of_find?_eq_some hfind
  obtain ⟨source', p', hsource', hsame, hp', -⟩ :=
    Program.parseWithin_parenthesize (ok_of_toOption hp) hn
  rw [hspan, htext] at hsource'
  obtain rfl := Option.some.inj hsource'
  exact ⟨p, p', n, ok_of_toOption hp, hn, hspan, hp', hsame⟩

end RangeRules
