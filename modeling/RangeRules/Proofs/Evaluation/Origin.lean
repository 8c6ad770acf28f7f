import RangeRules.Proofs.Evaluation.Visited

/-!
# Where findings come from

The findings of an expression are collected from the nodes that are evaluated. A node adds findings
of its own to those of its parts: an operator by what its operands are, a `when` expression by what
its predicates and consequents are. So whatever is found can be traced to one node, of which it is
known what its parts were evaluated to.
-/
namespace RangeRules

/-- The finding is at the place, and its message quotes what stands there. -/
structure Finding.IsAt (f : Finding) (span : Text.Span) : Prop where
  quoted_eq : f.quoted = span
  span_eq : f.span = span

namespace Concrete

variable {env : Environment Value} {f : Finding}

mutual

/-- What is visited is evaluated, and what is found there is found in the whole. -/
theorem Visits.exists_eval {e n : Expr} : Visits env e n → ∀ {o : Outcome Value},
    eval env e = .ok o → ∃ o', eval env n = .ok o' ∧ o'.findings ⊆ o.findings
  | .self _, o, h => ⟨o, h, List.Subset.refl _⟩
  | .left hn, _, h => by
    obtain ⟨l, r, hl, -, rfl⟩ := eval_operate_eq_ok.1 h
    obtain ⟨o', ho', hsubset⟩ := hn.exists_eval hl
    exact ⟨o', ho', List.subset_append_of_subset_left _ (List.subset_append_of_subset_left _ hsubset)⟩
  | .right hn, _, h => by
    obtain ⟨l, r, -, hr, rfl⟩ := eval_operate_eq_ok.1 h
    obtain ⟨o', ho', hsubset⟩ := hn.exists_eval hr
    exact ⟨o', ho', List.subset_append_of_subset_left _ (List.subset_append_of_subset_right _ hsubset)⟩
  | .choose hn, _, h => hn.exists_eval h

theorem VisitsBranches.exists_eval {b : Branches} {n : Expr} : VisitsBranches env b n →
    ∀ {o : Outcome Value}, choose env b = .ok o →
      ∃ o', eval env n = .ok o' ∧ o'.findings ⊆ o.findings
  | .otherwise hn, _, h => hn.exists_eval h
  | .predicate hn, _, h => by
    obtain ⟨v, hv, hchooses⟩ := choose_clause_eq_ok.1 h
    obtain ⟨o', ho', hsubset⟩ := hn.exists_eval hv
    refine ⟨o', ho', ?_⟩
    cases hchooses with
    | undefined => exact hsubset
    | _ => exact List.subset_append_of_subset_left _ hsubset
  | .consequent ok holds hn, _, h => by
    obtain ⟨v, hv, hchooses⟩ := choose_clause_eq_ok.1 h
    obtain rfl := Except.ok.inj (hv.symm.trans ok)
    cases hchooses with
    | consequent _ hw =>
      obtain ⟨o', ho', hsubset⟩ := hn.exists_eval hw
      exact ⟨o', ho', List.subset_append_of_subset_right _ hsubset⟩
    | rest fails => cases holds.symm.trans fails
    | undefined unknown => cases holds.symm.trans unknown
    | mismatch number => cases holds.symm.trans number
  | .rest ok fails hn, _, h => by
    obtain ⟨v, hv, hchooses⟩ := choose_clause_eq_ok.1 h
    obtain rfl := Except.ok.inj (hv.symm.trans ok)
    cases hchooses with
    | rest _ hr =>
      obtain ⟨o', ho', hsubset⟩ := hn.exists_eval hr
      exact ⟨o', ho', List.subset_append_of_subset_right _ hsubset⟩
    | consequent holds => cases holds.symm.trans fails
    | undefined unknown => cases fails.symm.trans unknown
    | mismatch number => cases fails.symm.trans number

end

/-- Below a `when` expression, what is visited is visited by way of one of its parts. -/
theorem VisitsBranches.of_part {n : Expr} : ∀ {b : Branches}, VisitsBranches env b n →
    (∃ p c, (p, c) ∈ b.clauses ∧ (Visits env p n ∨ Visits env c n)) ∨ Visits env b.fallback n
  | .otherwise _, .otherwise hn => .inr hn
  | .clause p c _, .predicate hn => .inl ⟨p, c, List.mem_cons_self, .inl hn⟩
  | .clause p c _, .consequent _ _ hn => .inl ⟨p, c, List.mem_cons_self, .inr hn⟩
  | .clause _ _ _, .rest _ _ hn =>
    hn.of_part.imp_left fun ⟨p, c, hclause, h⟩ => ⟨p, c, List.mem_cons_of_mem _ hclause, h⟩

/-- The node itself adds the finding to those of its parts. -/
inductive Arises (env : Environment Value) (f : Finding) : Expr → Prop where
  | operate {span : Text.Span} {op : Operator} {left right : Expr} {l r : Outcome Value}
    (left_ok : eval env left = .ok l) (right_ok : eval env right = .ok r)
    (mem : f ∈ (operate span op left.span right.span l.value r.value).findings) :
    Arises env f (.operate span op left right)
  | predicate {span : Text.Span} {branches : Branches} {p c : Expr} {v : Outcome Value}
    {x : Number} (clause : (p, c) ∈ branches.clauses) (ok : eval env p = .ok v)
    (number : v.value = .number x) (eq : f = ⟨.predicateNotBoolean .number, p.span, p.span⟩) :
    Arises env f (.choose span branches)

mutual

/-- A finding is added by a node that is visited. -/
theorem arises_of_eval : ∀ (e : Expr) {o : Outcome Value}, eval env e = .ok o →
    f ∈ o.findings → ∃ n, Visits env e n ∧ Arises env f n
  | .number .., _, h, hf | .boolean .., _, h, hf => by
    obtain rfl := Except.ok.inj h
    exact nomatch hf
  | .source .., _, h, hf | .variable .., _, h, hf => by
    obtain ⟨_, -, rfl⟩ := require_eq_ok.1 h
    exact nomatch hf
  | .operate span op left right, _, h, hf => by
    obtain ⟨l, r, hl, hr, rfl⟩ := eval_operate_eq_ok.1 h
    simp only [List.mem_append] at hf
    obtain (hf | hf) | hf := hf
    · obtain ⟨n, hvisits, hn⟩ := arises_of_eval left hl hf
      exact ⟨n, .left hvisits, hn⟩
    · obtain ⟨n, hvisits, hn⟩ := arises_of_eval right hr hf
      exact ⟨n, .right hvisits, hn⟩
    · exact ⟨_, .self _, .operate hl hr hf⟩
  | .choose span branches, _, h, hf => by
    obtain ⟨n, hvisits, hn⟩ | ⟨p, c, v, x, hclause, hv, hx, hf⟩ := arises_of_choose branches h hf
    · exact ⟨n, .choose hvisits, hn⟩
    · exact ⟨_, .self _, .predicate hclause hv hx hf⟩

/-- Among branches, a finding may also be that a predicate is a number. -/
theorem arises_of_choose : ∀ (b : Branches) {o : Outcome Value}, choose env b = .ok o →
    f ∈ o.findings → (∃ n, VisitsBranches env b n ∧ Arises env f n) ∨
      ∃ p c v x, (p, c) ∈ b.clauses ∧ eval env p = .ok v ∧ v.value = .number x ∧
        f = ⟨.predicateNotBoolean .number, p.span, p.span⟩
  | .otherwise e, _, h, hf => by
    obtain ⟨n, hvisits, hn⟩ := arises_of_eval e h hf
    exact .inl ⟨n, .otherwise hvisits, hn⟩
  | .clause p c rest, _, h, hf => by
    obtain ⟨v, hv, hchooses⟩ := choose_clause_eq_ok.1 h
    have hpredicate : f ∈ v.findings →
        ∃ n, VisitsBranches env (.clause p c rest) n ∧ Arises env f n := fun hf => by
      obtain ⟨n, hvisits, hn⟩ := arises_of_eval p hv hf
      exact ⟨n, .predicate hvisits, hn⟩
    cases hchooses with
    | undefined => exact .inl (hpredicate hf)
    | mismatch hx =>
      obtain hf | hf := List.mem_append.1 hf
      · exact .inl (hpredicate hf)
      · exact .inr ⟨p, c, v, _, List.mem_cons_self, hv, hx, List.mem_singleton.1 hf⟩
    | consequent holds hw =>
      obtain hf | hf := List.mem_append.1 hf
      · exact .inl (hpredicate hf)
      · obtain ⟨n, hvisits, hn⟩ := arises_of_eval c hw hf
        exact .inl ⟨n, .consequent hv holds hvisits, hn⟩
    | rest fails hr =>
      obtain hf | hf := List.mem_append.1 hf
      · exact .inl (hpredicate hf)
      · obtain ⟨n, hvisits, hn⟩ | ⟨p', c', v', x, hclause, h⟩ := arises_of_choose rest hr hf
        · exact .inl ⟨n, .rest hv fails hvisits, hn⟩
        · exact .inr ⟨p', c', v', x, List.mem_cons_of_mem _ hclause, h⟩

end

end Concrete

namespace Abstract

variable {options : AnalysisOptions} {env : Environment AbstractValue}

/-- All predicates are evaluated to sets of booleans, so that the analysis goes on. -/
def Decides (options : AnalysisOptions) (env : Environment AbstractValue) (b : Branches) : Prop :=
  ∃ ps sets, predicates options env b = .ok ps ∧ predicateSets? ps.value = some sets

/--
Analyzing the first expression among the given variables analyzes the second. Of a `when` expression
all predicates are analyzed, and if these are booleans also all the rest.
-/
inductive Visits (options : AnalysisOptions) (env : Environment AbstractValue) :
    Expr → Expr → Prop where
  | self (e : Expr) : Visits options env e e
  | left {span : Text.Span} {op : Operator} {l r e : Expr} (h : Visits options env l e) :
    Visits options env (.operate span op l r) e
  | right {span : Text.Span} {op : Operator} {l r e : Expr} (h : Visits options env r e) :
    Visits options env (.operate span op l r) e
  | predicate {span : Text.Span} {b : Branches} {p c e : Expr} (clause : (p, c) ∈ b.clauses)
    (h : Visits options env p e) : Visits options env (.choose span b) e
  | consequent {span : Text.Span} {b : Branches} {p c e : Expr} (decides : Decides options env b)
    (clause : (p, c) ∈ b.clauses) (h : Visits options env c e) :
    Visits options env (.choose span b) e
  | otherwise {span : Text.Span} {b : Branches} {e : Expr} (decides : Decides options env b)
    (h : Visits options env b.fallback e) : Visits options env (.choose span b) e

theorem Visits.mem_nodes {e n : Expr} (h : Visits options env e n) : n ∈ e.nodes := by
  induction h with
  | self e => exact e.self_mem_nodes
  | left _ ih => exact Expr.nodes_left_subset _ _ _ _ ih
  | right _ ih => exact Expr.nodes_right_subset _ _ _ _ ih
  | predicate clause _ ih => exact Expr.nodes_part_subset (Branches.clause_mem_parts clause).1 ih
  | consequent _ clause _ ih => exact Expr.nodes_part_subset (Branches.clause_mem_parts clause).2 ih
  | otherwise _ _ ih => exact Expr.nodes_part_subset (Branches.fallback_mem_parts _) ih

/-- The node itself adds the finding to those of its parts. -/
inductive Arises (options : AnalysisOptions) (env : Environment AbstractValue) (f : Finding) :
    Expr → Prop where
  | operate {span : Text.Span} {op : Operator} {left right : Expr} {l r : Outcome AbstractValue}
    (left_ok : eval options env left = .ok l) (right_ok : eval options env right = .ok r)
    (mem : f ∈ (operate options op left.span right.span l.value r.value).findings) :
    Arises options env f (.operate span op left right)
  | predicate {span : Text.Span} {branches : Branches} {p c : Expr} {v : Outcome AbstractValue}
    (clause : (p, c) ∈ branches.clauses) (ok : eval options env p = .ok v)
    (mem : f ∈ predicateFindings p.span v.value) : Arises options env f (.choose span branches)
  | warning {span : Text.Span} {branches : Branches} {parts : Parts}
    (parts_ok : PartsOf options env branches parts)
    (mem : f ∈ unreachableFindings branches parts.sets ++
      otherwiseFindings options branches parts.sets) : Arises options env f (.choose span branches)
  | chosen {span : Text.Span} {branches : Branches} {parts : Parts}
    (parts_ok : PartsOf options env branches parts)
    (mem : f ∈ (parts.chosen branches).findings) : Arises options env f (.choose span branches)

/-- The findings of the parts of a `when` expression are findings of the whole. -/
theorem Parts.findings_subset (parts : Parts) (options : AnalysisOptions) (b : Branches) :
    parts.predicates.findings ⊆ (parts.outcome options b).findings ∧
      parts.consequents.findings ⊆ (parts.outcome options b).findings ∧
      parts.fallback.findings ⊆ (parts.outcome options b).findings := by
  refine ⟨fun f hf => ?_, fun f hf => ?_, fun f hf => ?_⟩ <;>
    simp only [Parts.outcome, List.mem_append, hf, true_or, or_true]

theorem exists_of_mem_predicates : ∀ {b : Branches} {ps : Outcome (List AbstractValue)},
    predicates options env b = .ok ps → ∀ {p c : Expr}, (p, c) ∈ b.clauses →
      ∃ v, eval options env p = .ok v ∧ v.findings ⊆ ps.findings
  | .clause p' c' rest, _, h, p, c, hclause => by
    obtain ⟨v, vs, hv, hvs, rfl⟩ := predicates_clause_eq_ok.1 h
    obtain hclause | hclause := List.mem_cons.1 hclause
    · obtain ⟨rfl, rfl⟩ := Prod.mk.inj hclause
      exact ⟨v, hv, fun f hf => List.mem_append_left _ (List.mem_append_left _ hf)⟩
    · obtain ⟨w, hw, hsubset⟩ := exists_of_mem_predicates hvs hclause
      exact ⟨w, hw, List.subset_append_of_subset_right _ hsubset⟩

theorem exists_of_mem_consequents : ∀ {b : Branches} {cs : Outcome (List AbstractValue)},
    consequents options env b = .ok cs → ∀ {p c : Expr}, (p, c) ∈ b.clauses →
      ∃ v, eval options env c = .ok v ∧ v.findings ⊆ cs.findings
  | .clause p' c' rest, _, h, p, c, hclause => by
    obtain ⟨v, vs, hv, hvs, rfl⟩ := consequents_clause_eq_ok.1 h
    obtain hclause | hclause := List.mem_cons.1 hclause
    · obtain ⟨rfl, rfl⟩ := Prod.mk.inj hclause
      exact ⟨v, hv, List.subset_append_left _ _⟩
    · obtain ⟨w, hw, hsubset⟩ := exists_of_mem_consequents hvs hclause
      exact ⟨w, hw, List.subset_append_of_subset_right _ hsubset⟩

/-- A finding of the predicates is one of some predicate, or that it is no boolean. -/
theorem mem_findings_of_predicates {f : Finding} : ∀ (b : Branches)
    {ps : Outcome (List AbstractValue)}, predicates options env b = .ok ps → f ∈ ps.findings →
      ∃ p c v, (p, c) ∈ b.clauses ∧ eval options env p = .ok v ∧
        (f ∈ v.findings ∨ f ∈ predicateFindings p.span v.value)
  | .otherwise _, _, h, hf => by
    rw [predicates] at h
    obtain rfl := Except.ok.inj h
    exact nomatch hf
  | .clause p c rest, _, h, hf => by
    obtain ⟨v, vs, hv, hvs, rfl⟩ := predicates_clause_eq_ok.1 h
    obtain hf | hf := List.mem_append.1 hf
    · exact ⟨p, c, v, List.mem_cons_self, hv, List.mem_append.1 hf⟩
    · obtain ⟨p', c', v', hclause, h⟩ := mem_findings_of_predicates rest hvs hf
      exact ⟨p', c', v', List.mem_cons_of_mem _ hclause, h⟩

theorem mem_findings_of_consequents {f : Finding} : ∀ (b : Branches)
    {cs : Outcome (List AbstractValue)}, consequents options env b = .ok cs → f ∈ cs.findings →
      ∃ p c v, (p, c) ∈ b.clauses ∧ eval options env c = .ok v ∧ f ∈ v.findings
  | .otherwise _, _, h, hf => by
    rw [consequents] at h
    obtain rfl := Except.ok.inj h
    exact nomatch hf
  | .clause p c rest, _, h, hf => by
    obtain ⟨v, vs, hv, hvs, rfl⟩ := consequents_clause_eq_ok.1 h
    obtain hf | hf := List.mem_append.1 hf
    · exact ⟨p, c, v, List.mem_cons_self, hv, hf⟩
    · obtain ⟨p', c', v', hclause, h⟩ := mem_findings_of_consequents rest hvs hf
      exact ⟨p', c', v', List.mem_cons_of_mem _ hclause, h⟩

theorem fallback_eq (b : Branches) : fallback options env b = eval options env b.fallback := by
  fun_induction Branches.fallback b with
  | case1 e => rfl
  | case2 p c rest ih => exact ih

/-- A `when` expression whose predicates are booleans has all its parts. -/
theorem Decides.exists_parts {b : Branches} (hdecides : Decides options env b) {span : Text.Span}
    {o : Outcome AbstractValue} (h : eval options env (.choose span b) = .ok o) :
    ∃ parts, PartsOf options env b parts ∧ o = parts.outcome options b := by
  obtain ⟨ps, sets, hps, hsets⟩ := hdecides
  obtain ⟨ps', hps', hnone, -⟩ | hparts := eval_choose_eq_ok.1 h
  · obtain rfl := Except.ok.inj (hps.symm.trans hps')
    cases hsets.symm.trans hnone
  · exact hparts

/-- What is analyzed in the course of an analysis has a result, and its findings are of the whole. -/
theorem Visits.exists_eval {e n : Expr} (hn : Visits options env e n)
    {o : Outcome AbstractValue} (h : eval options env e = .ok o) :
    ∃ o', eval options env n = .ok o' ∧ o'.findings ⊆ o.findings := by
  induction hn generalizing o with
  | self e => exact ⟨o, h, List.Subset.refl _⟩
  | left _ ih =>
    obtain ⟨l, r, hl, -, rfl⟩ := eval_operate_eq_ok.1 h
    obtain ⟨o', ho', hsubset⟩ := ih hl
    exact ⟨o', ho', fun f hf => List.mem_append_left _ (List.mem_append_left _ (hsubset hf))⟩
  | right _ ih =>
    obtain ⟨l, r, -, hr, rfl⟩ := eval_operate_eq_ok.1 h
    obtain ⟨o', ho', hsubset⟩ := ih hr
    exact ⟨o', ho', fun f hf => List.mem_append_left _ (List.mem_append_right _ (hsubset hf))⟩
  | predicate hclause _ ih =>
    obtain ⟨ps, hps, -, rfl⟩ | ⟨parts, hparts, rfl⟩ := eval_choose_eq_ok.1 h
    · obtain ⟨v, hv, hpart⟩ := exists_of_mem_predicates hps hclause
      obtain ⟨o', ho', hsubset⟩ := ih hv
      exact ⟨o', ho', fun f hf => hpart (hsubset hf)⟩
    · obtain ⟨v, hv, hpart⟩ := exists_of_mem_predicates hparts.predicates_ok hclause
      obtain ⟨o', ho', hsubset⟩ := ih hv
      exact ⟨o', ho', fun f hf => (parts.findings_subset options _).1 (hpart (hsubset hf))⟩
  | consequent hdecides hclause _ ih =>
    obtain ⟨parts, hparts, rfl⟩ := hdecides.exists_parts h
    obtain ⟨v, hv, hpart⟩ := exists_of_mem_consequents hparts.consequents_ok hclause
    obtain ⟨o', ho', hsubset⟩ := ih hv
    exact ⟨o', ho', fun f hf => (parts.findings_subset options _).2.1 (hpart (hsubset hf))⟩
  | otherwise hdecides _ ih =>
    obtain ⟨parts, hparts, rfl⟩ := hdecides.exists_parts h
    obtain ⟨o', ho', hsubset⟩ := ih (fallback_eq _ ▸ hparts.fallback_ok)
    exact ⟨o', ho', fun f hf => (parts.findings_subset options _).2.2 (hsubset hf)⟩

/-- A finding is added by a node that is analyzed. -/
theorem arises_of_eval {f : Finding} (e : Expr) {o : Outcome AbstractValue}
    (h : eval options env e = .ok o) (hf : f ∈ o.findings) :
    ∃ n, Visits options env e n ∧ Arises options env f n := by
  induction e using Expr.clauseInduction generalizing o with
  | number span x =>
    obtain ⟨i, -, rfl⟩ := eval_number_eq_ok.1 h
    exact nomatch hf
  | boolean span b =>
    obtain rfl := Except.ok.inj h
    exact nomatch hf
  | source span name | «variable» span name =>
    obtain ⟨a, -, rfl⟩ := require_eq_ok.1 h
    exact nomatch hf
  | operate span op left right ihl ihr =>
    obtain ⟨l, r, hl, hr, rfl⟩ := eval_operate_eq_ok.1 h
    simp only [List.mem_append] at hf
    obtain (hf | hf) | hf := hf
    · obtain ⟨n, hvisits, hn⟩ := ihl hl hf
      exact ⟨n, .left hvisits, hn⟩
    · obtain ⟨n, hvisits, hn⟩ := ihr hr hf
      exact ⟨n, .right hvisits, hn⟩
    · exact ⟨_, .self _, .operate hl hr hf⟩
  | choose span branches ihc ihd =>
    have hpredicates : ∀ {ps : Outcome (List AbstractValue)},
        predicates options env branches = .ok ps → f ∈ ps.findings →
        ∃ n, Visits options env (.choose span branches) n ∧ Arises options env f n := by
      intro ps hps hf
      obtain ⟨p, c, v, hclause, hv, hf | hf⟩ := mem_findings_of_predicates branches hps hf
      · obtain ⟨n, hvisits, hn⟩ := (ihc p c hclause).1 hv hf
        exact ⟨n, .predicate hclause hvisits, hn⟩
      · exact ⟨_, .self _, .predicate hclause hv hf⟩
    obtain ⟨ps, hps, -, rfl⟩ | ⟨parts, hparts, rfl⟩ := eval_choose_eq_ok.1 h
    · exact hpredicates hps hf
    · have hdecides : Decides options env branches :=
        ⟨_, _, hparts.predicates_ok, hparts.sets_eq⟩
      have hd := hparts.fallback_ok
      rw [fallback_eq] at hd
      simp only [Parts.outcome, List.mem_append] at hf
      obtain (((hf | hf) | hf) | hf) | hf := hf
      · exact hpredicates hparts.predicates_ok hf
      · exact ⟨_, .self _, .warning hparts (List.mem_append.2 hf)⟩
      · obtain ⟨p, c, v, hclause, hv, hf⟩ :=
          mem_findings_of_consequents branches hparts.consequents_ok hf
        obtain ⟨n, hvisits, hn⟩ := (ihc p c hclause).2 hv hf
        exact ⟨n, .consequent hdecides hclause hvisits, hn⟩
      · obtain ⟨n, hvisits, hn⟩ := ihd hd hf
        exact ⟨n, .otherwise hdecides hvisits, hn⟩
      · exact ⟨_, .self _, .chosen hparts hf⟩

end Abstract

end RangeRules
