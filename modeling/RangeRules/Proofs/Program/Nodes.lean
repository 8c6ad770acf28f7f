import Mathlib.Data.List.Nodup
import RangeRules.Expr

/-!
# The nodes of an expression and their places

An expression is laid out as a text lays it out if the parts of each node are written one after the
other within it, and a `when` expression begins before its first part. No two nodes then have the
same place, so that a place tells a node.
-/
namespace RangeRules

deriving instance DecidableEq for Expr, Branches

deriving instance DecidableEq for Statement

mutual

/-- The nodes below an expression. -/
def Expr.parts : Expr → List Expr
  | .number .. | .boolean .. | .variable .. | .source .. => []
  | .operate _ _ l r => l :: l.parts ++ r :: r.parts
  | .choose _ branches => branches.parts

def Branches.parts : Branches → List Expr
  | .otherwise e => e :: e.parts
  | .clause p c rest => p :: p.parts ++ (c :: c.parts ++ rest.parts)

end

/-- Induction on an expression, in which a `when` expression has all its clauses at once. -/
@[elab_as_elim]
theorem Expr.clauseInduction {motive : Expr → Prop}
    (number : ∀ span x, motive (.number span x)) (boolean : ∀ span b, motive (.boolean span b))
    («variable» : ∀ span name, motive (.variable span name))
    (source : ∀ span name, motive (.source span name))
    (operate : ∀ span op l r, motive l → motive r → motive (.operate span op l r))
    (choose : ∀ span branches, (∀ p c, (p, c) ∈ branches.clauses → motive p ∧ motive c) →
      motive branches.fallback → motive (.choose span branches)) : ∀ e, motive e := by
  have hclause : ∀ p c rest, motive p → motive c →
      ((∀ p c, (p, c) ∈ rest.clauses → motive p ∧ motive c) ∧ motive rest.fallback) →
      (∀ p' c', (p', c') ∈ (Branches.clause p c rest).clauses → motive p' ∧ motive c') ∧
        motive (Branches.clause p c rest).fallback := by
    intro p c rest hp hc hrest
    refine ⟨fun p' c' hmem => ?_, hrest.2⟩
    obtain hmem | hmem := List.mem_cons.1 hmem
    · obtain ⟨rfl, rfl⟩ := Prod.mk.inj hmem
      exact ⟨hp, hc⟩
    · exact hrest.1 p' c' hmem
  exact @Expr.rec motive
    (fun b => (∀ p c, (p, c) ∈ b.clauses → motive p ∧ motive c) ∧ motive b.fallback)
    number boolean «variable» source operate (fun span b hb => choose span b hb.1 hb.2)
    (fun e he => ⟨nofun, he⟩) hclause

/-- Induction on the clauses of a `when` expression, whose parts are not entered. -/
@[elab_as_elim]
theorem Branches.clauseInduction {motive : Branches → Prop}
    (otherwise : ∀ e, motive (.otherwise e))
    (clause : ∀ p c rest, motive rest → motive (.clause p c rest)) : ∀ b, motive b
  | .otherwise e => otherwise e
  | .clause p c rest => clause p c rest (clauseInduction otherwise clause rest)

/-- All nodes of an expression, itself included. -/
def Expr.nodes (e : Expr) : List Expr := e :: e.parts

/-- All nodes of a program, statement by statement. -/
def Program.nodes (p : Program) : List Expr := p.statements.flatMap (·.body.nodes)

@[simp]
theorem Expr.parts_operate (span : Text.Span) (op : Operator) (l r : Expr) :
    (Expr.operate span op l r).parts = l.nodes ++ r.nodes := rfl

@[simp]
theorem Branches.parts_clause (p c : Expr) (rest : Branches) :
    (Branches.clause p c rest).parts = p.nodes ++ (c.nodes ++ rest.parts) := rfl

@[simp]
theorem Expr.parts_withSpan (span : Text.Span) (e : Expr) : (e.withSpan span).parts = e.parts := by
  cases e <;> rfl

theorem Expr.mem_nodes {e n : Expr} : n ∈ e.nodes ↔ n = e ∨ n ∈ e.parts := List.mem_cons

theorem Expr.self_mem_nodes (e : Expr) : e ∈ e.nodes := List.mem_cons_self

theorem Expr.mem_nodes_of_mem_parts {e n : Expr} (h : n ∈ e.parts) : n ∈ e.nodes :=
  List.mem_cons_of_mem _ h

theorem Expr.nodes_left_subset (span : Text.Span) (op : Operator) (l r : Expr) :
    l.nodes ⊆ (Expr.operate span op l r).nodes :=
  fun _ h => Expr.mem_nodes_of_mem_parts (List.mem_append_left _ h)

theorem Expr.nodes_right_subset (span : Text.Span) (op : Operator) (l r : Expr) :
    r.nodes ⊆ (Expr.operate span op l r).nodes :=
  fun _ h => Expr.mem_nodes_of_mem_parts (List.mem_append_right _ h)

theorem Expr.parts_choose_subset (span : Text.Span) (branches : Branches) :
    branches.parts ⊆ (Expr.choose span branches).nodes :=
  fun _ h => Expr.mem_nodes_of_mem_parts h

theorem Branches.nodes_predicate_subset (p c : Expr) (rest : Branches) :
    p.nodes ⊆ (Branches.clause p c rest).parts :=
  fun _ h => List.mem_append_left _ h

theorem Branches.nodes_consequent_subset (p c : Expr) (rest : Branches) :
    c.nodes ⊆ (Branches.clause p c rest).parts :=
  fun _ h => List.mem_append_right _ (List.mem_append_left _ h)

theorem Branches.parts_rest_subset (p c : Expr) (rest : Branches) :
    rest.parts ⊆ (Branches.clause p c rest).parts :=
  fun _ h => List.mem_append_right _ (List.mem_append_right _ h)

mutual

/-- What is below a node of an expression is below the expression, in the same order. -/
theorem Expr.parts_sublist : ∀ (e : Expr) {n : Expr}, n ∈ e.nodes → n.parts.Sublist e.parts
  | .number .., n, h | .boolean .., n, h | .variable .., n, h | .source .., n, h => by
    obtain rfl := List.mem_singleton.1 h
    exact List.Sublist.refl _
  | .operate span op l r, n, h => by
    obtain rfl | h := Expr.mem_nodes.1 h
    · exact List.Sublist.refl _
    · obtain h | h := List.mem_append.1 h
      · exact ((l.parts_sublist h).cons l).trans (List.sublist_append_left ..)
      · exact ((r.parts_sublist h).cons r).trans (List.sublist_append_right ..)
  | .choose span branches, n, h => by
    obtain rfl | h := Expr.mem_nodes.1 h
    · exact List.Sublist.refl _
    · exact branches.parts_sublist h

theorem Branches.parts_sublist : ∀ (b : Branches) {n : Expr}, n ∈ b.parts →
    n.parts.Sublist b.parts
  | .otherwise e, n, h => (e.parts_sublist h).cons e
  | .clause p c rest, n, h => by
    obtain h | h := List.mem_append.1 h
    · exact ((p.parts_sublist h).cons p).trans (List.sublist_append_left ..)
    · have htail : n.parts.Sublist (c.nodes ++ rest.parts) := by
        obtain h | h := List.mem_append.1 h
        · exact ((c.parts_sublist h).cons c).trans (List.sublist_append_left ..)
        · exact (rest.parts_sublist h).trans (List.sublist_append_right ..)
      exact htail.trans (List.sublist_append_right ..)

end

/-- The nodes of a node are nodes. -/
theorem Expr.nodes_subset {e n : Expr} (h : n ∈ e.nodes) : n.nodes ⊆ e.nodes :=
  List.cons_subset.2 ⟨h, fun _ hm => mem_nodes_of_mem_parts ((e.parts_sublist h).subset hm)⟩

theorem Expr.nodes_part_subset {span : Text.Span} {b : Branches} {n : Expr} (h : n ∈ b.parts) :
    n.nodes ⊆ (Expr.choose span b).nodes :=
  Expr.nodes_subset (Expr.parts_choose_subset span b h)

theorem Expr.mem_nodes_of_choose {e n : Expr} {span : Text.Span} {b : Branches}
    (h : .choose span b ∈ e.nodes) (hn : n ∈ b.parts) : n ∈ e.nodes :=
  Expr.mem_nodes_of_mem_parts ((e.parts_sublist h).subset hn)

theorem Branches.mem_parts_of_choose {b' b : Branches} {n : Expr} {span : Text.Span}
    (h : .choose span b ∈ b'.parts) (hn : n ∈ b.parts) : n ∈ b'.parts :=
  (b'.parts_sublist h).subset hn

theorem Branches.clause_mem_parts {p c : Expr} :
    ∀ {b : Branches}, (p, c) ∈ b.clauses → p ∈ b.parts ∧ c ∈ b.parts
  | .otherwise e, h => nomatch h
  | .clause p' c' rest, h => by
    obtain h | h := List.mem_cons.1 h
    · obtain ⟨rfl, rfl⟩ := Prod.mk.inj h
      exact ⟨nodes_predicate_subset p c rest p.self_mem_nodes,
        nodes_consequent_subset p c rest c.self_mem_nodes⟩
    · exact (clause_mem_parts h).imp (parts_rest_subset p' c' rest ·) (parts_rest_subset p' c' rest ·)

theorem Branches.fallback_mem_parts : ∀ b : Branches, b.fallback ∈ b.parts
  | .otherwise e => e.self_mem_nodes
  | .clause p c rest => Branches.parts_rest_subset p c rest rest.fallback_mem_parts

mutual

/-- The parts of each node are written one after the other within it. -/
def Expr.Laid : Expr → Prop
  | .number s _ | .boolean s _ | .variable s _ | .source s _ => s.start < s.stop
  | .operate s _ l r => l.Laid ∧ r.Laid ∧
      s.start ≤ l.span.start ∧ l.span.stop ≤ r.span.start ∧ r.span.stop ≤ s.stop
  | .choose s branches => branches.Laid s.start ∧ branches.fallback.span.stop ≤ s.stop

/-- After the given offset come the clauses and `otherwise`, each after a reserved word. -/
def Branches.Laid (offset : Nat) : Branches → Prop
  | .otherwise e => offset < e.span.start ∧ e.Laid
  | .clause p c rest => offset < p.span.start ∧ p.Laid ∧ p.span.stop ≤ c.span.start ∧ c.Laid ∧
      rest.Laid c.span.stop

end

mutual

/-- A node is not empty, and lies within the expression. -/
theorem Expr.Laid.within : ∀ {e : Expr}, e.Laid → ∀ n ∈ e.nodes,
    e.span.start ≤ n.span.start ∧ n.span.start < n.span.stop ∧ n.span.stop ≤ e.span.stop
  | .number .., h, n, hn | .boolean .., h, n, hn | .variable .., h, n, hn
  | .source .., h, n, hn => by
    obtain rfl := List.mem_singleton.1 hn
    exact ⟨Nat.le_refl _, h, Nat.le_refl _⟩
  | .operate s op l r, h, n, hn => by
    obtain ⟨hl, hr, hstart, hmid, hstop⟩ := h
    have hleft := hl.within l l.self_mem_nodes
    have hright := hr.within r r.self_mem_nodes
    change s.start ≤ _ ∧ _ ∧ _ ≤ s.stop
    obtain rfl | hn := Expr.mem_nodes.1 hn
    · change s.start ≤ s.start ∧ s.start < s.stop ∧ s.stop ≤ s.stop
      omega
    · obtain hn | hn := List.mem_append.1 hn
      · have hn := hl.within n hn
        omega
      · have hn := hr.within n hn
        omega
  | .choose s branches, h, n, hn => by
    obtain ⟨hbranches, hstop⟩ := h
    change s.start ≤ _ ∧ _ ∧ _ ≤ s.stop
    obtain rfl | hn := Expr.mem_nodes.1 hn
    · have hfallback := hbranches.within _ branches.fallback_mem_parts
      change s.start ≤ s.start ∧ s.start < s.stop ∧ s.stop ≤ s.stop
      omega
    · have hn := hbranches.within n hn
      omega

theorem Branches.Laid.within : ∀ {b : Branches} {offset : Nat}, b.Laid offset → ∀ n ∈ b.parts,
    offset < n.span.start ∧ n.span.start < n.span.stop ∧ n.span.stop ≤ b.fallback.span.stop
  | .otherwise e, offset, h, n, hn => by
    have hn := h.2.within n hn
    have hstart := h.1
    dsimp only [Branches.fallback]
    omega
  | .clause p c rest, offset, h, n, hn => by
    obtain ⟨hstart, hp, hmid, hc, hrest⟩ := h
    have hfirst := hp.within p p.self_mem_nodes
    have hsecond := hc.within c c.self_mem_nodes
    have hlast := hrest.within _ rest.fallback_mem_parts
    dsimp only [Branches.fallback]
    rw [Branches.parts_clause, List.mem_append, List.mem_append] at hn
    obtain hn | hn | hn := hn
    · have hn := hp.within n hn
      omega
    · have hn := hc.within n hn
      omega
    · have hn := hrest.within n hn
      omega

end

/-- Nodes of which one list comes before the other have no place in common. -/
theorem disjoint_spans {before after : List Expr} {offset : Nat}
    (hbefore : ∀ n ∈ before, n.span.start < n.span.stop ∧ n.span.stop ≤ offset)
    (hafter : ∀ n ∈ after, offset ≤ n.span.start) :
    List.Disjoint (before.map Expr.span) (after.map Expr.span) := by
  intro span hspan hspan'
  obtain ⟨n, hn, rfl⟩ := List.mem_map.1 hspan
  obtain ⟨m, hm, heq⟩ := List.mem_map.1 hspan'
  have hn := hbefore n hn
  have hm := hafter m hm
  rw [heq] at hm
  omega

mutual

/-- No two nodes have the same place. -/
theorem Expr.Laid.nodup : ∀ {e : Expr}, e.Laid → (e.nodes.map Expr.span).Nodup
  | .number .., _ | .boolean .., _ | .variable .., _ | .source .., _ => List.nodup_singleton _
  | .operate s op l r, h => by
    obtain ⟨hl, hr, hstart, hmid, hstop⟩ := h
    have hleft := hl.within l l.self_mem_nodes
    have hright := hr.within r r.self_mem_nodes
    refine List.nodup_cons.2 ⟨?_, ?_⟩
    · intro hmem
      obtain ⟨n, hn, heq⟩ := List.mem_map.1 hmem
      have heq : n.span = s := heq
      obtain hn | hn := List.mem_append.1 hn
      · have hn := hl.within n hn
        rw [heq] at hn
        omega
      · have hn := hr.within n hn
        rw [heq] at hn
        omega
    · rw [Expr.parts_operate, List.map_append]
      refine hl.nodup.append hr.nodup (disjoint_spans (fun n hn => (hl.within n hn).2) ?_)
      intro n hn
      exact Nat.le_trans hmid (hr.within n hn).1
  | .choose s branches, h => by
    refine List.nodup_cons.2 ⟨?_, h.1.nodup⟩
    intro hmem
    obtain ⟨n, hn, heq⟩ := List.mem_map.1 hmem
    have hn := (h.1.within n hn).1
    rw [heq] at hn
    exact Nat.lt_irrefl _ hn

theorem Branches.Laid.nodup : ∀ {b : Branches} {offset : Nat}, b.Laid offset →
    (b.parts.map Expr.span).Nodup
  | .otherwise e, offset, h => h.2.nodup
  | .clause p c rest, offset, h => by
    obtain ⟨hstart, hp, hmid, hc, hrest⟩ := h
    have hsecond := hc.within c c.self_mem_nodes
    rw [Branches.parts_clause, List.map_append, List.map_append]
    have htail : List.Disjoint (c.nodes.map Expr.span) (rest.parts.map Expr.span) :=
      disjoint_spans (fun n hn => (hc.within n hn).2) fun n hn => Nat.le_of_lt (hrest.within n hn).1
    refine hp.nodup.append (hc.nodup.append hrest.nodup htail) ?_
    rw [← List.map_append]
    refine disjoint_spans (fun n hn => (hp.within n hn).2) ?_
    intro n hn
    obtain hn | hn := List.mem_append.1 hn
    · exact Nat.le_trans hmid (hc.within n hn).1
    · have hn := (hrest.within n hn).1
      omega

end

/-! ### Statements and places -/

/-- Two statements of one list are the same, or one comes after the other. -/
theorem same_or_later {before after before' after' : List Statement} {s s' : Statement}
    (h : before ++ s :: after = before' ++ s' :: after') :
    (before = before' ∧ s = s') ∨ s' ∈ after ∨ s ∈ after' := by
  induction before generalizing before' with
  | nil =>
    cases before' with
    | nil => exact .inl ⟨rfl, (List.cons.inj h).1⟩
    | cons t before' =>
      obtain ⟨-, rfl⟩ := List.cons.inj h
      exact .inr (.inl (List.mem_append_right _ List.mem_cons_self))
  | cons t before ih =>
    cases before' with
    | nil =>
      obtain ⟨-, rfl⟩ := List.cons.inj h
      exact .inr (.inr (List.mem_append_right _ List.mem_cons_self))
    | cons t' before' =>
      obtain ⟨rfl, htail⟩ := List.cons.inj h
      exact (ih htail).imp_left fun ⟨hbefore, hs⟩ => ⟨hbefore ▸ rfl, hs⟩

namespace Program

variable {p : Program}

theorem nodes_eq {before after : List Statement} {s : Statement}
    (h : p.statements = before ++ s :: after) : p.nodes =
      before.flatMap (·.body.nodes) ++ (s.body.nodes ++ after.flatMap (·.body.nodes)) := by
  unfold Program.nodes
  rw [h, List.flatMap_append, List.flatMap_cons]

theorem mem_nodes_of_statement {before after : List Statement} {s : Statement} {n : Expr}
    (h : p.statements = before ++ s :: after) (hn : n ∈ s.body.nodes) : n ∈ p.nodes := by
  rw [nodes_eq h]
  exact List.mem_append_right _ (List.mem_append_left _ hn)

theorem nodup_of_statement (hnodup : p.nodes.Nodup) {before after : List Statement} {s : Statement}
    (h : p.statements = before ++ s :: after) : s.body.nodes.Nodup := by
  rw [nodes_eq h] at hnodup
  exact hnodup.of_append_right.of_append_left

/-- Nodes of a later statement are at other places. -/
theorem span_ne_of_later (hnodup : (p.nodes.map Expr.span).Nodup) {before after : List Statement}
    {s t : Statement} (h : p.statements = before ++ s :: after) (ht : t ∈ after) {n m : Expr}
    (hn : n ∈ s.body.nodes) (hm : m ∈ t.body.nodes) : n.span ≠ m.span := by
  intro hspan
  rw [nodes_eq h, List.map_append, List.map_append] at hnodup
  have hdisjoint := List.disjoint_of_nodup_append hnodup.of_append_right
  refine hdisjoint (List.mem_map_of_mem hn) ?_
  rw [hspan]
  exact List.mem_map_of_mem (List.mem_flatMap.2 ⟨t, ht, hm⟩)

/-- A place tells a node and its statement. -/
theorem eq_of_span_eq (hnodup : (p.nodes.map Expr.span).Nodup)
    {before after before' after' : List Statement} {s s' : Statement}
    (h : p.statements = before ++ s :: after) (h' : p.statements = before' ++ s' :: after')
    {n n' : Expr} (hn : n ∈ s.body.nodes) (hn' : n' ∈ s'.body.nodes) (hspan : n.span = n'.span) :
    before = before' ∧ s = s' ∧ n = n' := by
  obtain ⟨rfl, rfl⟩ | hlater | hlater := same_or_later (h.symm.trans h')
  · exact ⟨rfl, rfl, List.inj_on_of_nodup_map hnodup (mem_nodes_of_statement h hn)
      (mem_nodes_of_statement h' hn') hspan⟩
  · exact absurd hspan (span_ne_of_later hnodup h hlater hn hn')
  · exact absurd hspan.symm (span_ne_of_later hnodup h' hlater hn' hn)

end Program

end RangeRules
