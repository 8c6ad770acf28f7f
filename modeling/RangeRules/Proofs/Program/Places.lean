import RangeRules.Proofs.Evaluation.Locality
import RangeRules.Proofs.Phrase.Attempts
import RangeRules.Proofs.Phrase.Completeness
import RangeRules.Proofs.Phrase.Consumption
import RangeRules.Proofs.Program.Layout

/-!
# Problems lie within the text

Whatever is found wrong with a text lies within it: the place where its reading ends, the part that
a check refuses, the source that has no value, and what a run reports. A check blames parts of the
phrases that were read, and these are left alone by a relocation that moves back to the end of the
text what is beyond it.
-/
namespace RangeRules

open Text (Source Span byteCount)

def Text.Span.Within (s : Span) (n : Nat) : Prop := s.start ≤ n ∧ s.stop ≤ n

/-- Moves what is beyond an offset back to it. -/
def Relocation.cap (n : Nat) : Relocation := along (min · n)

/-- It leaves the place alone. -/
def Relocation.Fixes (g : Relocation) (s : Span) : Prop := g.span s = s

theorem Relocation.fixes_cap {n : Nat} {s : Span} : (cap n).Fixes s ↔ s.Within n := by
  constructor
  · intro h
    have hstart : min s.start n = s.start := congrArg Span.start h
    have hstop : min s.stop n = s.stop := congrArg Span.stop h
    exact ⟨by omega, by omega⟩
  · rintro ⟨hstart, hstop⟩
    exact congr (congrArg Span.mk (Nat.min_eq_left hstart)) (Nat.min_eq_left hstop)

/-! ### Checks -/

namespace Check

variable {P : Span → Prop} {α β : Type} {scope : Scope} {span : Span}

/-- Where the check finds something wrong, the place has the property. -/
def BlamesAt (P : Span → Prop) (x : Check α) : Prop := ∀ g f, x g = .error f → P f.span

theorem BlamesAt.pure (a : α) : BlamesAt P (pure a : Check α) := nofun

theorem BlamesAt.throw {f : Fault} (h : P f.span) : BlamesAt P (throw f : Check α) := by
  intro g f' hf
  obtain rfl : f = f' := Except.error.inj hf
  exact h

theorem BlamesAt.bind {x : Check α} {next : α → Check β} (hx : BlamesAt P x)
    (hnext : ∀ a, BlamesAt P (next a)) : BlamesAt P (x >>= next) := by
  intro g f hf
  change (x g >>= fun r => next r.1 r.2) = .error f at hf
  rcases then_eq_error.1 hf with hfirst | ⟨r, -, hsecond⟩
  · exact hx g f hfirst
  · exact hnext r.1 r.2 f hsecond

theorem BlamesAt.enter (h : P span) (depth : Nat) : BlamesAt P (scope.enter depth span) := by
  intro g f hf
  by_cases hdepth : depth ≤ scope.limit
  · rw [Scope.enter_of_le span hdepth] at hf
    exact nomatch hf
  · rw [Scope.enter_of_lt span (Nat.lt_of_not_le hdepth)] at hf
    obtain rfl := Except.error.inj hf
    exact h

theorem BlamesAt.below {part : Check α} (h : P span) (hpart : BlamesAt P part) :
    BlamesAt P (scope.below span part) := by
  intro g f hf
  by_cases hdepth : g.level + 1 ≤ scope.limit
  · rw [Scope.below_of_le hdepth] at hf
    rcases then_eq_error.1 hf with hfirst | ⟨r, -, hsecond⟩
    · exact hpart _ f hfirst
    · exact nomatch hsecond
  · rw [Scope.below_of_lt (Nat.lt_of_not_le hdepth)] at hf
    obtain rfl := Except.error.inj hf
    exact h

theorem BlamesAt.operand {part : Check α} (h : P span) (hpart : BlamesAt P part) (base : Nat) :
    BlamesAt P (scope.operand base span part) := by
  intro g f hf
  let after (r : α × Gauge) : Except Fault ((α × Nat) × Gauge) :=
    .ok ((r.1, r.2.deepest - base), ⟨r.2.level, max r.2.deepest g.deepest⟩)
  change scope.below span part ⟨g.level, base⟩ >>= after = .error f at hf
  rcases then_eq_error.1 hf with hfirst | ⟨r, -, hsecond⟩
  · exact BlamesAt.below h hpart _ f hfirst
  · exact nomatch hsecond

end Check

open Check (BlamesAt)

section Fixed

variable {g : Relocation} {scope : Scope}

mutual

/-- A check of a term that a relocation leaves alone blames a place that it leaves alone. -/
theorem Term.blamesAt_check (base : Nat) : ∀ t : Term, t.relocate g = t →
    BlamesAt g.Fixes (t.check scope base)
  | .number span digits, h => by
    have hspan : g.Fixes span := (Term.number.inj h).1
    rw [Term.check]
    refine .operand hspan ?_ base
    dsimp only
    split
    · exact .pure _
    · exact .throw hspan
  | .boolean span value, h => by
    have hspan : g.Fixes span := (Term.boolean.inj h).1
    exact .operand hspan (.pure _) base
  | .source span name, h => by
    have hspan : g.Fixes span := (Term.source.inj h).1
    exact .operand hspan (.pure _) base
  | .variable span name, h => by
    have hspan : g.Fixes span := (Term.variable.inj h).1
    rw [Term.check]
    refine .operand hspan ?_ base
    split
    · exact .pure _
    · exact .throw hspan
  | .group span inner, h => by
    have ⟨(hspan : g.Fixes span), hinner⟩ := Term.group.inj h
    rw [Term.check]
    exact .operand hspan ((inner.blamesAt_check hinner).bind fun _ => .pure _) base
  | .operate op left right, h => by
    obtain ⟨-, hleft, hright⟩ := Term.operate.inj h
    have hspan : g.Fixes (.cover left.span right.span) := by
      rw [Relocation.Fixes, g.span_cover, ← Term.span_relocate, ← Term.span_relocate, hleft, hright]
    rw [Term.check]
    refine (left.blamesAt_check base hleft).bind fun l => ?_
    refine (right.blamesAt_check base hright).bind fun r => ?_
    dsimp only
    exact (BlamesAt.enter hspan _).bind fun _ => .pure _

theorem Phrase.blamesAt_check : ∀ p : Phrase, p.relocate g = p →
    BlamesAt g.Fixes (p.check scope)
  | .chain span top, h => by
    have ⟨(hspan : g.Fixes span), htop⟩ := Phrase.chain.inj h
    rw [Phrase.check]
    refine .below hspan ?_
    exact BlamesAt.bind nofun fun _ => (top.blamesAt_check _ htop).bind fun _ => .pure _
  | .choose span branches, h => by
    have ⟨(hspan : g.Fixes span), hbranches⟩ := Phrase.choose.inj h
    rw [Phrase.check]
    exact .below hspan ((branches.blamesAt_check hbranches).bind fun _ => .pure _)

theorem PhraseBranches.blamesAt_check : ∀ b : PhraseBranches, b.relocate g = b →
    BlamesAt g.Fixes (b.check scope)
  | .otherwise value, h => by
    rw [PhraseBranches.check]
    exact (value.blamesAt_check (PhraseBranches.otherwise.inj h)).bind fun _ => .pure _
  | .clause p c rest, h => by
    obtain ⟨hp, hc, hrest⟩ := PhraseBranches.clause.inj h
    rw [PhraseBranches.check]
    refine (p.blamesAt_check hp).bind fun _ => (c.blamesAt_check hc).bind fun _ => ?_
    exact (rest.blamesAt_check hrest).bind fun _ => .pure _

end

/-- Of statements that a relocation leaves alone the check blames a place that it leaves alone. -/
theorem blamesAt_checkStatements {limit : Nat} {declared sinks : List String}
    {written : List WrittenStatement} (h : ∀ s ∈ written, s.relocate g = s) :
    BlamesAt g.Fixes (checkStatements limit declared sinks written) := by
  induction written generalizing declared sinks with
  | nil => exact .pure _
  | cons s rest ih =>
    obtain ⟨hs, hrest⟩ := List.forall_mem_cons.1 h
    have ⟨_, _, (hspan : g.Fixes s.span), hbody⟩ := WrittenStatement.mk.inj hs
    rw [checkStatements]
    refine (s.body.blamesAt_check hbody).bind fun body => ?_
    split
    · split
      · exact BlamesAt.bind (.throw hspan) fun _ => (ih hrest).bind fun _ => .pure _
      · exact (ih hrest).bind fun _ => .pure _
    · exact (ih hrest).bind fun _ => .pure _

end Fixed

/-! ### Texts -/

theorem Token.Ordered.spans_within {finish offset : Nat} {ts : List Token}
    (h : Ordered finish offset ts) : ∀ t ∈ ts, t.span.Within finish := by
  induction ts generalizing offset with
  | nil => exact nofun
  | cons t ts ih =>
    obtain ⟨-, hnonempty, hrest⟩ := h
    have hstop : t.span.stop ≤ finish := hrest.within.1
    refine List.forall_mem_cons.2 ⟨⟨?_, hstop⟩, ih hrest⟩
    exact Nat.le_of_lt (Nat.lt_of_lt_of_le hnonempty hstop)

mutual

theorem Expr.source_mem_nodes {span : Span} {name : String} : ∀ e : Expr,
    (span, name) ∈ e.sourceRefs → .source span name ∈ e.nodes
  | .source s n, h => by
    obtain ⟨rfl, rfl⟩ := Prod.mk.inj (List.mem_singleton.1 h)
    exact Expr.self_mem_nodes _
  | .number .., h | .boolean .., h | .variable .., h => nomatch h
  | .operate s op l r, h => by
    obtain h | h := List.mem_append.1 h
    · exact Expr.nodes_left_subset s op l r (l.source_mem_nodes h)
    · exact Expr.nodes_right_subset s op l r (r.source_mem_nodes h)
  | .choose s branches, h => Expr.parts_choose_subset s branches (branches.source_mem_parts h)

theorem Branches.source_mem_parts {span : Span} {name : String} : ∀ b : Branches,
    (span, name) ∈ b.sourceRefs → .source span name ∈ b.parts
  | .otherwise e, h => e.source_mem_nodes h
  | .clause p c rest, h => by
    obtain h | h := List.mem_append.1 h
    · obtain h | h := List.mem_append.1 h
      · exact Branches.nodes_predicate_subset p c rest (p.source_mem_nodes h)
      · exact Branches.nodes_consequent_subset p c rest (c.source_mem_nodes h)
    · exact Branches.parts_rest_subset p c rest (rest.source_mem_parts h)

end

/-- The nodes of statements lie between the ends of the tokens that they are read from. -/
theorem Phrase.DerivesStatements.nodes_within {finish offset : Nat} {ts rest : List Token}
    {written : List WrittenStatement} (h : DerivesStatements finish ts written rest)
    (hts : Token.Ordered finish offset ts) :
    ∀ s ∈ written, ∀ n ∈ s.tree.body.nodes, n.span.Within finish := by
  induction h generalizing offset with
  | nil => exact nofun
  | cons head tail ih =>
    obtain ⟨-, hlaid, hmid⟩ := head.laid hts
    refine List.forall_mem_cons.2 ⟨fun n hn => ?_, ih hmid⟩
    obtain ⟨-, hnonempty, hstop⟩ := hlaid.within n hn
    have hfinish := hmid.within.1
    exact ⟨by omega, by omega⟩

namespace Program

variable {limit : Nat} {source : Source} {p : Program}

/-- What is read from a text stays as it is if what is beyond its end is moved back. -/
theorem relocate_cap_of_read {written : List WrittenStatement} (h : read source = .ok written) :
    ∀ s ∈ written, s.relocate (.cap (byteCount source)) = s := by
  have htokens : (Token.Sequence.of source).tokens.map (Relocation.cap (byteCount source)).token =
      (Token.Sequence.of source).tokens := by
    refine (List.map_congr_left fun t ht => ?_).trans (List.map_id _)
    have hwithin := (Token.Sequence.ordered source).spans_within t ht
    exact congrArg (Token.mk t.kind) (Relocation.fixes_cap.2 hwithin)
  have hcapped := (Phrase.Read.program_sound h).relocate (min · (byteCount source))
  change Phrase.DerivesStatements (min (byteCount source) (byteCount source))
    ((Token.Sequence.of source).tokens.map (Relocation.cap (byteCount source)).token)
    (written.map (·.relocate (.cap (byteCount source)))) [] at hcapped
  rw [Nat.min_self, htokens] at hcapped
  have hread : read source = .ok (written.map (·.relocate (.cap (byteCount source)))) :=
    Phrase.Read.program_eq_ok.2 hcapped
  have hsame := Except.ok.inj (hread.symm.trans h)
  exact List.map_inj_left.1 (hsame.trans (List.map_id _).symm)

/-- An error in a text is at a place in it. -/
theorem within_of_parseWithin_error {e : ParseError} (h : parseWithin limit source = .error e) :
    e.source = source ∧ e.span.Within (byteCount source) := by
  unfold parseWithin at h
  split at h
  · next a hread =>
    obtain rfl := Except.error.inj h
    let inside (offset : Nat) : Prop := offset ≤ byteCount source
    have hfinish : inside (byteCount source) := Nat.le_refl _
    have hstart : inside 0 := Nat.zero_le _
    have htokens : Phrase.Read.HoldsAt inside (Token.Sequence.of source).tokens :=
      fun t ht => ((Token.Sequence.ordered source).spans_within t ht).1
    have hfurthest : inside a.furthest :=
      Phrase.Read.program_furthest hfinish hstart htokens hread
    exact ⟨rfl, hfurthest, hfurthest⟩
  · next written hread =>
    split at h
    · next fault hfault =>
      obtain rfl := Except.error.inj h
      have hfixed := blamesAt_checkStatements (relocate_cap_of_read hread) _ fault hfault
      exact ⟨rfl, Relocation.fixes_cap.1 hfixed⟩
    · exact nomatch h

theorem nodes_within_of_parseWithin (h : parseWithin limit source = .ok p) :
    ∀ n ∈ p.nodes, n.span.Within (byteCount source) := by
  obtain ⟨written, hread, -, rfl⟩ := parseWithin_eq_ok.1 h
  have hwithin := (Phrase.Read.program_sound hread).nodes_within (Token.Sequence.ordered source)
  intro n hn
  obtain ⟨s, hs, hn⟩ := List.mem_flatMap.1 hn
  obtain ⟨t, ht, rfl⟩ := List.mem_map.1 hs
  exact hwithin t ht n hn

/-- What a run of a parsed program reports is at a place in its text. -/
theorem findings_within {V : Type} {eval : Evaluator V} (hlocal : eval.Local)
    (h : parseWithin limit source = .ok p) {sources : Bindings V} {e : Evaluation V}
    (hrun : p.run eval sources = .ok e) : ∀ f ∈ e.findings, f.span.Within (byteCount source) := by
  have hnodes := nodes_within_of_parseWithin h
  have hfixed : ∀ s ∈ p.statements, ∀ n ∈ s.body.nodes,
      (Relocation.cap (byteCount source)).span n.span = n.span := by
    intro s hs n hn
    exact Relocation.fixes_cap.2 (hnodes n (List.mem_flatMap.2 ⟨s, hs, hn⟩))
  intro f hf
  exact Relocation.fixes_cap.1 ((scoped_of_parseWithin h).findings_fixed hlocal hfixed hrun f hf)

/-- A source without a value is at a place in the text. -/
theorem violation_within {V : Type} {sources : Bindings V}
    {run : Except ContractViolation (Evaluation V)} (h : parseWithin limit source = .ok p)
    (hkeeps : p.KeepsContract sources run) {c : ContractViolation} (hrun : run = .error c) :
    c.span.Within (byteCount source) := by
  obtain ⟨span, name, hmem, -, rfl⟩ := hkeeps.unbound c hrun
  obtain ⟨s, hs, hmem⟩ := List.mem_flatMap.1 hmem
  have hnode := s.body.source_mem_nodes hmem
  exact nodes_within_of_parseWithin h _ (List.mem_flatMap.2 ⟨s, hs, hnode⟩)

end Program

end RangeRules
