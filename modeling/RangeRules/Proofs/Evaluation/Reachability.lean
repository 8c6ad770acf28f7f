import RangeRules.Proofs.Evaluation.Origin
import RangeRules.Proofs.Evaluation.Soundness
import RangeRules.Proofs.Program.Layout

/-!
# Warnings about what is never reached

The analysis warns of a clause whose predicate is never true, and of an `otherwise` that is shut out
by a predicate that is always true. Of a parsed program both hold in every run whose sources lie
within their descriptions. A warning names a place, and a place tells a node; what the predicate at
the place makes in the run is related to what the analysis made of it.
-/
namespace RangeRules

/-! ### Warnings come from `when` expressions -/

/-- The problem is that something is never reached. -/
def Problem.isReachability : Problem → Bool
  | .unreachableClause | .unreachableOtherwise => true
  | _ => false

namespace Abstract

variable {options : AnalysisOptions} {env : Environment AbstractValue}

/-- A `when` expression among the nodes gives rise to the finding. -/
def Warns (options : AnalysisOptions) (env : Environment AbstractValue) (nodes : List Expr)
    (f : Finding) : Prop :=
  ∃ span branches parts, .choose span branches ∈ nodes ∧ PartsOf options env branches parts ∧
    f ∈ unreachableFindings branches parts.sets ++ otherwiseFindings options branches parts.sets

/-- Applying an operator finds nothing of this kind. -/
theorem not_isReachability_operate {op : Operator} {leftSpan rightSpan : Text.Span}
    {a b : AbstractValue} : ∀ f ∈ (operate options op leftSpan rightSpan a b).findings,
      f.problem.isReachability = false := by
  intro f hf
  cases a <;> cases b <;> cases op <;> simp [operate, compute] at hf <;> simp [hf, Problem.isReachability]

theorem not_isReachability_predicate {span : Text.Span} {a : AbstractValue} :
    ∀ f ∈ predicateFindings span a, f.problem.isReachability = false := by
  intro f hf
  cases a with
  | interval i =>
    obtain rfl := List.mem_singleton.1 hf
    rfl
  | boolean s => exact nomatch hf
  | undefined => exact nomatch hf

theorem not_isReachability_selects {sets : List BooleanSet} {consequents : List AbstractValue}
    {otherwise : AbstractValue} {chosen : Outcome AbstractValue}
    (h : Selects sets consequents otherwise chosen) :
    ∀ f ∈ chosen.findings, f.problem.isReachability = false := by
  intro f hf
  cases h with
  | undefined => exact nomatch hf
  | mismatch expected found span =>
    obtain rfl := List.mem_singleton.1 hf
    rfl
  | united => exact nomatch hf

/-- A warning about what is never reached comes from some `when` expression. -/
theorem warns_of_eval {f : Finding} (hf : f.problem.isReachability = true) (e : Expr)
    {o : Outcome AbstractValue} (h : eval options env e = .ok o) (hmem : f ∈ o.findings) :
    Warns options env e.nodes f := by
  obtain ⟨n, hvisits, hn⟩ := arises_of_eval e h hmem
  cases hn with
  | operate _ _ hmem => exact nomatch hf.symm.trans (not_isReachability_operate f hmem)
  | predicate _ _ hmem => exact nomatch hf.symm.trans (not_isReachability_predicate f hmem)
  | warning hparts hmem => exact ⟨_, _, _, hvisits.mem_nodes, hparts, hmem⟩
  | chosen hparts hmem =>
    exact nomatch hf.symm.trans (not_isReachability_selects hparts.selects f hmem)

/-- Each set is what the predicate of its clause was evaluated to. -/
theorem PartsOf.eval_of_mem_zip : ∀ {branches : Branches} {parts : Parts},
    PartsOf options env branches parts → ∀ {p c : Expr} {set : BooleanSet},
      ((p, c), set) ∈ branches.clauses.zip parts.sets →
        ∃ v, eval options env p = .ok v ∧ v.value = .boolean set
  | .otherwise e, _, h, p, c, set, hmem => nomatch hmem
  | .clause p' c' rest, _, h, p, c, set, hmem => by
    obtain ⟨v, set', w, tail, htail, rfl, hv, hset, -⟩ := h.of_clause
    obtain hmem | hmem := List.mem_cons.1 hmem
    · obtain ⟨hclause, rfl⟩ := Prod.mk.inj hmem
      obtain ⟨rfl, rfl⟩ := Prod.mk.inj hclause
      exact ⟨v, hv, hset⟩
    · exact htail.eval_of_mem_zip hmem

theorem PartsOf.exists_of_mem_sets : ∀ {branches : Branches} {parts : Parts},
    PartsOf options env branches parts → ∀ {set : BooleanSet}, set ∈ parts.sets →
      ∃ p c v, (p, c) ∈ branches.clauses ∧ eval options env p = .ok v ∧ v.value = .boolean set
  | .otherwise e, _, h, set, hmem => by
    obtain ⟨d, -, rfl⟩ := h.of_otherwise
    exact nomatch hmem
  | .clause p c rest, _, h, set, hmem => by
    obtain ⟨v, set', w, tail, htail, rfl, hv, hset, -⟩ := h.of_clause
    obtain rfl | hmem := List.mem_cons.1 hmem
    · exact ⟨p, c, v, List.mem_cons_self, hv, hset⟩
    · obtain ⟨p', c', v', hclause, hv', hset'⟩ := htail.exists_of_mem_sets hmem
      exact ⟨p', c', v', List.mem_cons_of_mem _ hclause, hv', hset'⟩

/-- A warning about a clause is at a predicate whose value cannot be true. -/
theorem Warns.clause {nodes : List Expr} {f : Finding} (h : Warns options env nodes f)
    (hproblem : f.problem = .unreachableClause) :
    ∃ span branches predicate consequent v set, .choose span branches ∈ nodes ∧
      (predicate, consequent) ∈ branches.clauses ∧ f.IsAt predicate.span ∧
      eval options env predicate = .ok v ∧ v.value = .boolean set ∧ ¬ set.contains true = true := by
  obtain ⟨span, branches, parts, hchoose, hparts, hf⟩ := h
  obtain hf | hf := List.mem_append.1 hf
  · obtain ⟨⟨⟨predicate, consequent⟩, set⟩, hzip, hfinding⟩ := List.mem_filterMap.1 hf
    obtain ⟨hset, hfinding⟩ := Option.ite_none_left_eq_some.1 hfinding
    obtain rfl := Option.some.inj hfinding
    obtain ⟨v, hv, hvalue⟩ := hparts.eval_of_mem_zip hzip
    exact ⟨span, branches, predicate, consequent, v, set, hchoose, (List.of_mem_zip hzip).1,
      ⟨rfl, rfl⟩, hv, hvalue, hset⟩
  · unfold otherwiseFindings at hf
    split at hf
    · obtain rfl := List.mem_singleton.1 hf
      exact nomatch hproblem
    · exact nomatch hf

/-- A warning about an `otherwise` is due to a predicate whose value can only be true. -/
theorem Warns.otherwise {nodes : List Expr} {f : Finding} (h : Warns options env nodes f)
    (hproblem : f.problem = .unreachableOtherwise) :
    ∃ span branches predicate consequent v, .choose span branches ∈ nodes ∧
      f.IsAt branches.fallback.span ∧ (predicate, consequent) ∈ branches.clauses ∧
      eval options env predicate = .ok v ∧ v.value = .boolean .onlyTrue := by
  obtain ⟨span, branches, parts, hchoose, hparts, hf⟩ := h
  obtain hf | hf := List.mem_append.1 hf
  · obtain ⟨⟨⟨predicate, consequent⟩, set⟩, -, hfinding⟩ := List.mem_filterMap.1 hf
    obtain ⟨-, hfinding⟩ := Option.ite_none_left_eq_some.1 hfinding
    obtain rfl := Option.some.inj hfinding
    exact nomatch hproblem
  · unfold otherwiseFindings at hf
    split at hf
    · next hcontains =>
      obtain rfl := List.mem_singleton.1 hf
      have hset := List.contains_iff_mem.1 (Bool.and_eq_true_iff.1 hcontains).2
      obtain ⟨predicate, consequent, v, hclause, hv, hvalue⟩ := hparts.exists_of_mem_sets hset
      exact ⟨span, branches, predicate, consequent, v, hchoose, ⟨rfl, rfl⟩, hclause, hv, hvalue⟩
    · exact nomatch hf

end Abstract

/-! ### Warnings and runs -/

namespace Program

variable {p : Program}

/-- Among the branches of some `when` expression is a clause. -/
def HasClause (p : Program) (predicate consequent : Expr) : Prop :=
  ∃ span branches, .choose span branches ∈ p.nodes ∧ (predicate, consequent) ∈ branches.clauses

/-- Some `when` expression has the expression for its `otherwise`. -/
def HasOtherwise (p : Program) (otherwise : Expr) : Prop :=
  ∃ span branches, .choose span branches ∈ p.nodes ∧ branches.fallback = otherwise

/-- Running the program on some sources chooses the clause, among the given variables there. -/
def Takes (p : Program) (sources : Bindings Value) (there : Environment Value)
    (predicate consequent : Expr) : Prop :=
  ∃ span branches, p.Reaches sources there (.choose span branches) ∧
    Concrete.Takes there branches predicate consequent

/-- A clause that is chosen has a predicate that is reached, and true. -/
theorem Takes.holds {sources : Bindings Value} {there : Environment Value}
    {predicate consequent : Expr} (h : p.Takes sources there predicate consequent) :
    p.Reaches sources there predicate ∧
      ∃ o, Concrete.eval there predicate = .ok o ∧ o.value = .boolean true := by
  obtain ⟨span, branches, ⟨before, s, after, hstatements, hbefore, hvisits⟩, htakes⟩ := h
  obtain ⟨hpredicate, hholds⟩ := htakes.holds
  exact ⟨⟨before, s, after, hstatements, hbefore, hvisits.trans (.choose hpredicate)⟩, hholds⟩

/-- What both runs make of an expression that the run on values reaches is related. -/
theorem related_of_visits {options : AnalysisOptions} {described : Bindings AbstractValue}
    {sources : Bindings Value} (hsources : described.Describes sources) (hnan : p.NaNFree sources)
    {before after : List Statement} {s : Statement} (hstatements : p.statements = before ++ s :: after)
    {there : Environment AbstractValue} {there' : Environment Value}
    (hthere : environmentAfter (Abstract.eval options) (.start described) before = .ok there)
    (hthere' : environmentAfter Concrete.eval (.start sources) before = .ok there')
    {n : Expr} (hvisits : Concrete.Visits there' s.body n) {o : Outcome AbstractValue}
    {o' : Outcome Value} (ho : Abstract.eval options there n = .ok o)
    (ho' : Concrete.eval there' n = .ok o') :
    Related (fun i x => i.contains x = true) o.value o'.value := by
  have hmeets : ∀ m, Concrete.Visits there' s.body m →
      Meets options (.start described) (.start sources) p.statements there there' m :=
    fun m hm => ⟨before, s, after, hstatements, hthere, hthere', hm⟩
  have hkeeps := @keeps_related _ _ Soundness.membership_contains options p.statements
    (.start described) (.start sources) fun _ _ _ hmeets =>
      Soundness.operates_contains hnan hmeets
  rw [hstatements] at hkeeps
  have henv := agrees_environmentAfter (Environment.agrees_start hsources.related) hkeeps hthere
    hthere'
  exact Abstract.related_eval Soundness.membership_contains henv n ho ho' fun m hm =>
    Soundness.operates_contains hnan (hmeets m (hvisits.trans hm))

/-- A warning of a run comes from a `when` expression of some statement. -/
theorem warns_of_mem_findings {options : AnalysisOptions} {described : Bindings AbstractValue}
    {e : Evaluation AbstractValue} (h : p.analyze described options = .ok e) {f : Finding}
    (hproblem : f.problem.isReachability = true) (hf : f ∈ e.findings) :
    ∃ before s after there, p.statements = before ++ s :: after ∧
      environmentAfter (Abstract.eval options) (.start described) before = .ok there ∧
      Abstract.Warns options there s.body.nodes f := by
  obtain hdone | ⟨before, s, after, there, r, hstatements, hthere, hr, hmem⟩ :=
    mem_findings_of_runFrom h hf
  · exact nomatch hdone
  · exact ⟨before, s, after, there, hstatements, hthere,
      Abstract.warns_of_eval hproblem s.body hr hmem⟩

section Places

variable {options : AnalysisOptions} {described : Bindings AbstractValue}
  {sources : Bindings Value} {before after : List Statement} {s : Statement}
  {there : Environment AbstractValue} {there' : Environment Value}

/-- At the place of a predicate that the analysis finds never true, nothing is true in a run. -/
theorem not_true_of_reaches (hnodup : (p.nodes.map Expr.span).Nodup)
    (hsources : described.Describes sources) (hnan : p.NaNFree sources)
    (hs : p.statements = before ++ s :: after)
    (hthere : environmentAfter (Abstract.eval options) (.start described) before = .ok there)
    {predicate : Expr} (hnode : predicate ∈ s.body.nodes) {v : Outcome AbstractValue}
    (hv : Abstract.eval options there predicate = .ok v) {set : BooleanSet}
    (hvalue : v.value = .boolean set) (hset : ¬ set.contains true = true) {n : Expr}
    (hn : p.Reaches sources there' n) (hspan : n.span = predicate.span) {o : Outcome Value}
    (ho : Concrete.eval there' n = .ok o) : o.value ≠ .boolean true := by
  obtain ⟨before', s', after', hs', hthere', hvisits⟩ := hn
  obtain ⟨rfl, rfl, rfl⟩ := eq_of_span_eq hnodup hs' hs hvisits.mem_nodes hnode hspan
  have hrelated := related_of_visits hsources hnan hs hthere hthere' hvisits hv ho
  intro htrue
  rw [hvalue, htrue] at hrelated
  cases hrelated with
  | boolean hcontains => exact hset hcontains

/-- The place of an `otherwise` is not reached if the analysis finds some predicate always true. -/
theorem not_reaches_fallback (hnodup : (p.nodes.map Expr.span).Nodup)
    (hsources : described.Describes sources) (hnan : p.NaNFree sources)
    (hs : p.statements = before ++ s :: after)
    (hthere : environmentAfter (Abstract.eval options) (.start described) before = .ok there)
    {span : Text.Span} {branches : Branches} (hchoose : .choose span branches ∈ s.body.nodes)
    {predicate consequent : Expr} (hclause : (predicate, consequent) ∈ branches.clauses)
    {v : Outcome AbstractValue} (hv : Abstract.eval options there predicate = .ok v)
    (hvalue : v.value = .boolean .onlyTrue) {n : Expr} (hspan : n.span = branches.fallback.span) :
    ¬ p.Reaches sources there' n := by
  rintro ⟨before', s', after', hs', hthere', hvisits⟩
  have hnode := Expr.mem_nodes_of_choose hchoose branches.fallback_mem_parts
  obtain ⟨rfl, rfl, rfl⟩ := eq_of_span_eq hnodup hs' hs hvisits.mem_nodes hnode hspan
  have hnodes := nodup_of_statement (List.Nodup.of_map _ hnodup) hs
  have hparts := (List.nodup_cons.1 hnodes).2.sublist (s'.body.parts_sublist hchoose)
  obtain ⟨hwhen, hbranches⟩ := hvisits.through hnodes hchoose branches.fallback_mem_parts
  -- The predicate was visited on the way and was false there, against what the analysis found.
  obtain ⟨hpredicate, o, ho, hfails⟩ := hbranches.fails hparts hclause
  have hrelated := related_of_visits hsources hnan hs hthere hthere'
    (hwhen.trans (.choose hpredicate)) hv ho
  rw [hvalue, hfails] at hrelated
  cases hrelated with
  | boolean hcontains => exact nomatch hcontains

end Places

/--
The warnings of an analysis hold in every run of a parsed program on sources that lie within their
descriptions. The predicate of a clause that is warned of is never true, so that the clause is never
chosen; and an `otherwise` that is warned of is never reached. Each warning quotes the predicate or
the `otherwise` that it is at.
-/
theorem warnings_hold {limit : Nat} {source : Text.Source} {options : AnalysisOptions}
    {described : Bindings AbstractValue} {sources : Bindings Value}
    {e : Evaluation AbstractValue} {f : Finding}
    (hparse : parseWithin limit source = .ok p) (hsources : described.Describes sources)
    (hnan : p.NaNFree sources) (h : p.analyze described options = .ok e) (hf : f ∈ e.findings) :
    (f.problem = .unreachableClause →
      (∃ predicate consequent, p.HasClause predicate consequent ∧ f.IsAt predicate.span) ∧
      ∀ predicate consequent, p.HasClause predicate consequent → predicate.span = f.span →
        ∀ there, (p.Reaches sources there predicate → ∀ o,
          Concrete.eval there predicate = .ok o → o.value ≠ .boolean true) ∧
          ¬ p.Takes sources there predicate consequent) ∧
    (f.problem = .unreachableOtherwise →
      (∃ otherwise, p.HasOtherwise otherwise ∧ f.IsAt otherwise.span) ∧
      ∀ otherwise, p.HasOtherwise otherwise → otherwise.span = f.span →
        ∀ there, ¬ p.Reaches sources there otherwise) := by
  have hnodup := nodup_spans_of_parseWithin hparse
  constructor
  · intro hproblem
    obtain ⟨before, s, after, there, hs, hthere, hwarns⟩ :=
      warns_of_mem_findings h (congrArg Problem.isReachability hproblem) hf
    obtain ⟨span, branches, predicate, consequent, v, set, hchoose, hclause, hat, hv, hvalue,
      hset⟩ := hwarns.clause hproblem
    have hnode := Expr.mem_nodes_of_choose hchoose (Branches.clause_mem_parts hclause).1
    refine ⟨⟨predicate, consequent, ⟨span, branches, mem_nodes_of_statement hs hchoose, hclause⟩,
      hat⟩, fun predicate' consequent' _ hspan there' => ?_⟩
    rw [hat.span_eq] at hspan
    have hnever : p.Reaches sources there' predicate' → ∀ o,
        Concrete.eval there' predicate' = .ok o → o.value ≠ .boolean true := fun hreaches o =>
      not_true_of_reaches hnodup hsources hnan hs hthere hnode hv hvalue hset hreaches hspan
    refine ⟨hnever, fun htakes => ?_⟩
    obtain ⟨hreaches, o, ho, htrue⟩ := Takes.holds htakes
    exact hnever hreaches o ho htrue
  · intro hproblem
    obtain ⟨before, s, after, there, hs, hthere, hwarns⟩ :=
      warns_of_mem_findings h (congrArg Problem.isReachability hproblem) hf
    obtain ⟨span, branches, predicate, consequent, v, hchoose, hat, hclause, hv, hvalue⟩ :=
      hwarns.otherwise hproblem
    refine ⟨⟨_, ⟨span, branches, mem_nodes_of_statement hs hchoose, rfl⟩, hat⟩,
      fun otherwise _ hspan there' => ?_⟩
    exact not_reaches_fallback hnodup hsources hnan hs hthere hchoose hclause hv hvalue
      (hspan.trans hat.span_eq)

end Program

namespace Warnings

/-- Of two clauses the first never applies, and the second always does. -/
def guarded : Text.Source := "a = this.x + 1  z: when a < 0 a when a > 0 2 otherwise 3".toList

/-- `a = this.x + 1` -/
def assignment : Statement :=
  .variable "a" (.operate ⟨4, 14⟩ (.arithmetic .add) (.source ⟨4, 10⟩ "x") (.number ⟨13, 14⟩ 1.0))

/-- `z: when a < 0 a when a > 0 2 otherwise 3` -/
def sink : Statement :=
  .sink "z" (.choose ⟨19, 56⟩
    (.clause (.operate ⟨24, 29⟩ (.comparison .lt) (.variable ⟨24, 25⟩ "a") (.number ⟨28, 29⟩ 0.0))
      (.variable ⟨30, 31⟩ "a")
      (.clause (.operate ⟨37, 42⟩ (.comparison .gt) (.variable ⟨37, 38⟩ "a") (.number ⟨41, 42⟩ 0.0))
        (.number ⟨43, 44⟩ 2.0) (.otherwise (.number ⟨55, 56⟩ 3.0)))))

def program : Program := ⟨guarded, [assignment, sink]⟩

/-- A source that is not negative. -/
def described : Bindings AbstractValue := ⟨[("x", .interval ⟨0.0, 10.0⟩)]⟩

def sources : Bindings Value := ⟨[("x", .number 3.0)]⟩

theorem parse_guarded : Program.parseWithin 8 guarded = .ok program := by
  have hparse : (Program.parseWithin 8 guarded).toOption.map (fun p => (p.source, p.statements)) =
      some (guarded, [assignment, sink]) := by
    decide +kernel
  obtain ⟨p, hp, hpair⟩ := Option.map_eq_some_iff.1 hparse
  obtain ⟨hsource, hstatements⟩ := Prod.mk.inj hpair
  obtain ⟨source, statements⟩ := p
  obtain rfl : source = guarded := hsource
  obtain rfl : statements = [assignment, sink] := hstatements
  exact ok_of_toOption hp

theorem describes_sources : described.Describes sources :=
  Bindings.Aligned.get? (.cons ⟨rfl, by decide⟩ .nil)

theorem naNFree_program : program.NaNFree sources := by
  decide +kernel

end Warnings

theorem Program.warnings_hold_guarded : ∃ e,
    Program.parseWithin 8 Warnings.guarded = .ok Warnings.program ∧
    Warnings.described.Describes Warnings.sources ∧ Warnings.program.NaNFree Warnings.sources ∧
    Warnings.program.analyze Warnings.described ⟨false, true⟩ = .ok e ∧
    (⟨.unreachableClause, ⟨24, 29⟩, ⟨24, 29⟩⟩ ∈ e.findings ∧
      ∀ there predicate consequent, Warnings.program.HasClause predicate consequent →
        predicate.span = ⟨24, 29⟩ →
          ¬ Warnings.program.Takes Warnings.sources there predicate consequent) ∧
    (⟨.unreachableOtherwise, ⟨55, 56⟩, ⟨55, 56⟩⟩ ∈ e.findings ∧
      ∀ there otherwise, Warnings.program.HasOtherwise otherwise → otherwise.span = ⟨55, 56⟩ →
        ¬ Warnings.program.Reaches Warnings.sources there otherwise) := by
  have hclause := (@Program.warnings_hold _ _ _ ⟨false, true⟩ Warnings.described Warnings.sources _
    ⟨.unreachableClause, ⟨24, 29⟩, ⟨24, 29⟩⟩ Warnings.parse_guarded Warnings.describes_sources
    Warnings.naNFree_program rfl (by decide)).1 rfl
  have hotherwise := (@Program.warnings_hold _ _ _ ⟨false, true⟩ Warnings.described
    Warnings.sources _ ⟨.unreachableOtherwise, ⟨55, 56⟩, ⟨55, 56⟩⟩ Warnings.parse_guarded
    Warnings.describes_sources Warnings.naNFree_program rfl (by decide)).2 rfl
  refine ⟨_, Warnings.parse_guarded, Warnings.describes_sources, Warnings.naNFree_program, rfl,
    ⟨by decide, ?_⟩, by decide, ?_⟩
  · exact fun there predicate consequent hp hspan =>
      (hclause.2 predicate consequent hp hspan there).2
  · exact fun there otherwise ho hspan => hotherwise.2 otherwise ho hspan there

end RangeRules
