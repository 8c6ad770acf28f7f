import RangeRules.Proofs.Evaluation.Reach
import RangeRules.Proofs.Program.Nodes

/-!
# Visited nodes

What a run visits of an expression are nodes of it. If no node occurs twice, a part of a `when`
expression can only be visited by way of that expression, and its `otherwise` only after all its
predicates were false.
-/
namespace RangeRules

namespace Concrete

variable {env : Environment Value}

mutual

theorem Visits.mem_nodes {e n : Expr} : Visits env e n → n ∈ e.nodes
  | .self e => e.self_mem_nodes
  | .left h => Expr.nodes_left_subset _ _ _ _ h.mem_nodes
  | .right h => Expr.nodes_right_subset _ _ _ _ h.mem_nodes
  | .choose h => Expr.parts_choose_subset _ _ h.mem_parts

theorem VisitsBranches.mem_parts {b : Branches} {n : Expr} : VisitsBranches env b n → n ∈ b.parts
  | .otherwise h => h.mem_nodes
  | .predicate h => Branches.nodes_predicate_subset _ _ _ h.mem_nodes
  | .consequent _ _ h => Branches.nodes_consequent_subset _ _ _ h.mem_nodes
  | .rest _ _ h => Branches.parts_rest_subset _ _ _ h.mem_parts

end

mutual

/-- A part of a `when` expression is visited by way of the expression and through its branches. -/
theorem Visits.through {e n : Expr} {span : Text.Span} {b : Branches} :
    Visits env e n → e.nodes.Nodup → .choose span b ∈ e.nodes → n ∈ b.parts →
      Visits env e (.choose span b) ∧ VisitsBranches env b n
  | .self e, hnodup, hchoose, hn =>
    absurd ((e.parts_sublist hchoose).subset hn) (List.nodup_cons.1 hnodup).1
  | @Visits.left _ s op l r _ h, hnodup, hchoose, hn => by
    have hparts : (l.nodes ++ r.nodes).Nodup := (List.nodup_cons.1 hnodup).2
    obtain hchoose | hchoose := Expr.mem_nodes.1 hchoose
    · exact nomatch hchoose
    obtain hchoose | hchoose := List.mem_append.1 hchoose
    · exact (h.through hparts.of_append_left hchoose hn).imp_left .left
    · have hn' := Expr.mem_nodes_of_choose hchoose hn
      exact (List.disjoint_of_nodup_append hparts h.mem_nodes hn').elim
  | @Visits.right _ s op l r _ h, hnodup, hchoose, hn => by
    have hparts : (l.nodes ++ r.nodes).Nodup := (List.nodup_cons.1 hnodup).2
    obtain hchoose | hchoose := Expr.mem_nodes.1 hchoose
    · exact nomatch hchoose
    obtain hchoose | hchoose := List.mem_append.1 hchoose
    · have hn' := Expr.mem_nodes_of_choose hchoose hn
      exact (List.disjoint_of_nodup_append hparts hn' h.mem_nodes).elim
    · exact (h.through hparts.of_append_right hchoose hn).imp_left .right
  | .choose h, hnodup, hchoose, hn => by
    obtain hchoose | hchoose := Expr.mem_nodes.1 hchoose
    · obtain ⟨rfl, rfl⟩ := Expr.choose.inj hchoose
      exact ⟨.self _, h⟩
    · exact (h.through (List.nodup_cons.1 hnodup).2 hchoose hn).imp_left .choose

theorem VisitsBranches.through {b' : Branches} {n : Expr} {span : Text.Span} {b : Branches} :
    VisitsBranches env b' n → b'.parts.Nodup → .choose span b ∈ b'.parts → n ∈ b.parts →
      VisitsBranches env b' (.choose span b) ∧ VisitsBranches env b n
  | .otherwise h, hnodup, hchoose, hn => (h.through hnodup hchoose hn).imp_left .otherwise
  | @VisitsBranches.predicate _ p c rest _ h, hnodup, hchoose, hn => by
    have hparts : (p.nodes ++ (c.nodes ++ rest.parts)).Nodup := hnodup
    obtain hchoose | hchoose := List.mem_append.1 hchoose
    · exact (h.through hparts.of_append_left hchoose hn).imp_left .predicate
    · have hn' : n ∈ c.nodes ++ rest.parts := by
        rw [List.mem_append] at hchoose ⊢
        exact hchoose.imp (Expr.mem_nodes_of_choose · hn) (Branches.mem_parts_of_choose · hn)
      exact (List.disjoint_of_nodup_append hparts h.mem_nodes hn').elim
  | @VisitsBranches.consequent _ p c rest _ _ ok holds h, hnodup, hchoose, hn => by
    have hparts : (p.nodes ++ (c.nodes ++ rest.parts)).Nodup := hnodup
    obtain hchoose | hchoose := List.mem_append.1 hchoose
    · have hn' := Expr.mem_nodes_of_choose hchoose hn
      exact (List.disjoint_of_nodup_append hparts hn' (List.mem_append_left _ h.mem_nodes)).elim
    obtain hchoose | hchoose := List.mem_append.1 hchoose
    · exact (h.through hparts.of_append_right.of_append_left hchoose hn).imp_left
        (.consequent ok holds)
    · have hn' := Branches.mem_parts_of_choose hchoose hn
      exact (List.disjoint_of_nodup_append hparts.of_append_right h.mem_nodes hn').elim
  | @VisitsBranches.rest _ p c rest _ _ ok fails h, hnodup, hchoose, hn => by
    have hparts : (p.nodes ++ (c.nodes ++ rest.parts)).Nodup := hnodup
    obtain hchoose | hchoose := List.mem_append.1 hchoose
    · have hn' := Expr.mem_nodes_of_choose hchoose hn
      exact (List.disjoint_of_nodup_append hparts hn' (List.mem_append_right _ h.mem_parts)).elim
    obtain hchoose | hchoose := List.mem_append.1 hchoose
    · have hn' := Expr.mem_nodes_of_choose hchoose hn
      exact (List.disjoint_of_nodup_append hparts.of_append_right hn' h.mem_parts).elim
    · exact (h.through hparts.of_append_right.of_append_right hchoose hn).imp_left (.rest ok fails)

end

/-- Where `otherwise` is visited, each predicate before it is visited, and false. -/
theorem VisitsBranches.fails : ∀ {b : Branches}, VisitsBranches env b b.fallback →
    b.parts.Nodup → ∀ {p c : Expr}, (p, c) ∈ b.clauses →
      VisitsBranches env b p ∧ ∃ o, eval env p = .ok o ∧ o.value = .boolean false
  | .otherwise e, _, _, p, c, hclause => nomatch hclause
  | .clause p' c' tail, h, hnodup, p, c, hclause => by
    have hparts : (p'.nodes ++ (c'.nodes ++ tail.parts)).Nodup := hnodup
    have hfallback := tail.fallback_mem_parts
    cases h with
    | predicate h =>
      have hn := List.mem_append_right c'.nodes hfallback
      exact (List.disjoint_of_nodup_append hparts h.mem_nodes hn).elim
    | consequent ok holds h =>
      exact (List.disjoint_of_nodup_append hparts.of_append_right h.mem_nodes hfallback).elim
    | rest ok fails h =>
      obtain hclause | hclause := List.mem_cons.1 hclause
      · obtain ⟨rfl, rfl⟩ := Prod.mk.inj hclause
        exact ⟨.predicate (.self p), _, ok, fails⟩
      · exact (h.fails hparts.of_append_right.of_append_right hclause).imp_left (.rest ok fails)

/-- A run chooses the clause with the given predicate and consequent. -/
inductive Takes (env : Environment Value) : Branches → Expr → Expr → Prop where
  | here {p c : Expr} {rest : Branches} {o : Outcome Value} (ok : eval env p = .ok o)
    (holds : o.value = .boolean true) : Takes env (.clause p c rest) p c
  | later {p c p' c' : Expr} {rest : Branches} {o : Outcome Value} (ok : eval env p = .ok o)
    (fails : o.value = .boolean false) (h : Takes env rest p' c') :
    Takes env (.clause p c rest) p' c'

/-- The predicate of a clause that is chosen is visited, and true. -/
theorem Takes.holds {b : Branches} {p c : Expr} (h : Takes env b p c) :
    VisitsBranches env b p ∧ ∃ o, eval env p = .ok o ∧ o.value = .boolean true := by
  induction h with
  | here ok holds => exact ⟨.predicate (.self _), _, ok, holds⟩
  | later ok fails h ih => exact ⟨.rest ok fails ih.1, ih.2⟩

end Concrete

end RangeRules
