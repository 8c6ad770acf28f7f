import RangeRules.Proofs.Evaluation.Origin
import RangeRules.Proofs.Evaluation.Parallel

/-!
# Analysis without errors

What the analysis makes of an expression is defined exactly if it finds no error in it and reads
nothing that is undefined; warnings and the loss of precision are not errors. Then all parts of the
expression are defined too: no node was skipped, and no finding held back. So every node that a run
on values reaches was analyzed.
-/
namespace RangeRules

/-- No finding is an error. -/
def Clean (findings : List Finding) : Prop := ∀ f ∈ findings, f.problem.severity ≠ .error

theorem Clean.subset {fs gs : List Finding} (h : Clean gs) (hsubset : fs ⊆ gs) : Clean fs :=
  fun f hf => h f (hsubset hf)

theorem clean_append {fs gs : List Finding} : Clean (fs ++ gs) ↔ Clean fs ∧ Clean gs := by
  unfold Clean
  simp only [List.mem_append, or_imp, forall_and]

theorem not_clean_singleton {f : Finding} (h : f.problem.severity = .error) : ¬ Clean [f] :=
  fun hclean => hclean _ List.mem_cons_self h

/-- A run has no error among its diagnostics if none of its findings is one. -/
theorem hasErrors_diagnostics {V : Type} (source : Text.Source) (e : Evaluation V) :
    Log.hasErrors (e.diagnostics source) = false ↔ Clean e.findings := by
  unfold Log.hasErrors Evaluation.diagnostics Clean
  rw [List.any_eq_false]
  simp [Diagnostic.isError, Finding.diagnostic, Problem.diagnostic]

/-- Reading the node gives what is undefined. -/
def Expr.ReadsUndefined {V : Type} (type : V → ValueType) (env : Environment V) : Expr → Prop
  | .source _ name => ∃ v, env.source? name = some v ∧ type v = .undefined
  | .variable _ name => ∃ v, env.local? name = some v ∧ type v = .undefined
  | _ => False

namespace Abstract

variable {options : AnalysisOptions} {env : Environment AbstractValue}

/-- A description that is not undefined. -/
abbrev Defined (a : AbstractValue) : Prop := a.type ≠ .undefined

/-- Two defined operands without an error are intervals. -/
theorem operands_of_clean {op : Operator} {leftSpan rightSpan : Text.Span} {a b : AbstractValue}
    (ha : Defined a) (hb : Defined b)
    (h : Clean (operate options op leftSpan rightSpan a b).findings) :
    ∃ i j, a = .interval i ∧ b = .interval j := by
  cases a with
  | undefined => exact absurd rfl ha
  | boolean s => cases b <;> first | exact absurd rfl hb | exact absurd h (not_clean_singleton rfl)
  | interval i =>
    cases b with
    | undefined => exact absurd rfl hb
    | boolean t => exact absurd h (not_clean_singleton rfl)
    | interval j => exact ⟨i, j, rfl, rfl⟩

theorem defined_compute (op : Operator) (span : Text.Span) (i j : Interval) :
    Defined (compute options op span i j).value := by
  cases op <;> exact fun h => nomatch h

/-- What is chosen is defined only if the consequents are of one type, and united. -/
theorem united_of_defined {branches : Branches} {parts : Parts}
    (h : PartsOf options env branches parts) (hdefined : Defined (parts.chosen branches).value) :
    (∀ a ∈ parts.consequents.value, parts.fallback.value.type = a.type) ∧
      (parts.chosen branches).value.type = parts.fallback.value.type := by
  have hselects := h.selects
  generalize parts.chosen branches = chosen at hselects hdefined
  cases hselects with
  | undefined => exact absurd rfl hdefined
  | mismatch => exact absurd rfl hdefined
  | united _ htype => exact ⟨htype, type_unite parts.sets htype⟩

/-- The findings of a `when` expression with the given parts are free of errors. -/
structure CleanParts (branches : Branches) (parts : Parts) : Prop where
  predicates : Clean parts.predicates.findings
  consequents : Clean parts.consequents.findings
  fallback : Clean parts.fallback.findings
  chosen : Clean (parts.chosen branches).findings

/-- An operator gives what is defined if both operands are, and it finds no error in them. -/
theorem defined_operate {op : Operator} {leftSpan rightSpan : Text.Span} {a b : AbstractValue} :
    Defined (operate options op leftSpan rightSpan a b).value ↔ Defined a ∧ Defined b ∧
      Clean (operate options op leftSpan rightSpan a b).findings := by
  constructor
  · intro h
    cases a <;> cases b <;> first | exact absurd rfl h | skip
    refine ⟨nofun, nofun, ?_⟩
    unfold operate compute
    cases op with
    | comparison op => exact nofun
    | arithmetic op =>
      dsimp only
      split
      · exact fun f hf => List.mem_singleton.1 hf ▸ nofun
      · exact nofun
  · rintro ⟨ha, hb, hclean⟩
    obtain ⟨i, j, rfl, rfl⟩ := operands_of_clean ha hb hclean
    exact defined_compute op rightSpan i j

theorem clean_warnings (branches : Branches) (sets : List BooleanSet) :
    Clean (unreachableFindings branches sets ++ otherwiseFindings options branches sets) := by
  intro f hf herror
  have hview := List.filter_eq_nil_iff.1 (warnings_not_errors branches options sets) f hf
  exact hview (decide_eq_true herror)

/-- The warnings of a `when` expression are not errors. -/
theorem clean_outcome {branches : Branches} {parts : Parts} :
    Clean (parts.outcome options branches).findings ↔ CleanParts branches parts := by
  have hwarnings := @clean_warnings options branches parts.sets
  unfold Parts.outcome
  simp only [clean_append] at hwarnings ⊢
  constructor
  · rintro ⟨⟨⟨⟨hps, -⟩, hcs⟩, hd⟩, hchosen⟩
    exact ⟨hps, hcs, hd, hchosen⟩
  · rintro ⟨hps, hcs, hd, hchosen⟩
    exact ⟨⟨⟨⟨hps, hwarnings⟩, hcs⟩, hd⟩, hchosen⟩

/-- What is chosen is defined if all consequents are, and there is no error in them. -/
theorem defined_chosen {branches : Branches} {parts : Parts}
    (h : PartsOf options env branches parts) : Defined (parts.chosen branches).value ↔
      (∀ a ∈ parts.consequents.value, Defined a) ∧ Defined parts.fallback.value ∧
        Clean (parts.chosen branches).findings := by
  have hselects := h.selects
  have hall : (∀ a ∈ parts.consequents.value ++ [parts.fallback.value], Defined a) ↔
      (∀ a ∈ parts.consequents.value, Defined a) ∧ Defined parts.fallback.value := by
    simp [or_imp, forall_and]
  rw [← and_assoc, ← hall]
  generalize parts.chosen branches = chosen at hselects
  cases hselects with
  | undefined hmem hundefined =>
    exact ⟨fun h => absurd rfl h, fun h => absurd (of_decide_eq_true hundefined) (h.1 _ hmem)⟩
  | mismatch => exact ⟨fun h => absurd rfl h, fun h => absurd h.2 (not_clean_singleton rfl)⟩
  | united hdefined htype =>
    have hdefined' := fun a ha => of_decide_eq_false (hdefined a ha)
    refine ⟨fun _ => ⟨hdefined', nofun⟩, fun _ => ?_⟩
    unfold Defined
    rw [type_unite parts.sets htype]
    exact hdefined' _ (List.mem_append_right _ List.mem_cons_self)

/-- Where the analysis of the expression goes, it reads nothing that is undefined. -/
def ReadsDefined (options : AnalysisOptions) (env : Environment AbstractValue) (e : Expr) : Prop :=
  ∀ n, Visits options env e n → ¬ n.ReadsUndefined AbstractValue.type env

/-- The result is defined exactly if there is no error, and nothing undefined is read. -/
def Diagnoses (options : AnalysisOptions) (env : Environment AbstractValue) (e : Expr) : Prop :=
  ∀ o, eval options env e = .ok o →
    (Defined o.value ↔ Clean o.findings ∧ ReadsDefined options env e)

theorem forall_clauses {P : Expr → Expr → Prop} {p c : Expr} {rest : Branches} :
    (∀ p' c', (p', c') ∈ (Branches.clause p c rest).clauses → P p' c') ↔
      P p c ∧ ∀ p' c', (p', c') ∈ rest.clauses → P p' c' := by
  simp [Branches.clauses, or_imp, forall_and]

theorem readsDefined_operate {span : Text.Span} {op : Operator} {l r : Expr} :
    ReadsDefined options env (.operate span op l r) ↔
      ReadsDefined options env l ∧ ReadsDefined options env r := by
  refine ⟨fun h => ⟨fun n hn => h n (.left hn), fun n hn => h n (.right hn)⟩, ?_⟩
  rintro ⟨hl, hr⟩ n (_ | hn | hn)
  · exact id
  · exact hl n hn
  · exact hr n hn

/-- Of a `when` expression the predicates are analyzed, and the rest if these are booleans. -/
theorem readsDefined_choose {span : Text.Span} {b : Branches} :
    ReadsDefined options env (.choose span b) ↔
      (∀ p c, (p, c) ∈ b.clauses → ReadsDefined options env p) ∧
        (Decides options env b → (∀ p c, (p, c) ∈ b.clauses → ReadsDefined options env c) ∧
          ReadsDefined options env b.fallback) := by
  refine ⟨fun h => ⟨fun p c hclause n hn => h n (.predicate hclause hn), fun hdecides =>
    ⟨fun p c hclause n hn => h n (.consequent hdecides hclause hn),
      fun n hn => h n (.otherwise hdecides hn)⟩⟩, ?_⟩
  rintro ⟨hpredicates, hrest⟩ n hn
  cases hn with
  | self => exact id
  | predicate clause hn => exact hpredicates _ _ clause n hn
  | consequent decides clause hn => exact (hrest decides).1 _ _ clause n hn
  | otherwise decides hn => exact (hrest decides).2 n hn

theorem predicateSets?_cons (span : Text.Span) (a : AbstractValue) (values : List AbstractValue) :
    (∃ sets, predicateSets? (a :: values) = some sets) ↔
      (Defined a ∧ Clean (predicateFindings span a)) ∧
        ∃ sets, predicateSets? values = some sets := by
  cases a with
  | interval i => exact ⟨nofun, fun h => absurd h.1.2 (not_clean_singleton rfl)⟩
  | undefined => exact ⟨nofun, fun h => absurd rfl h.1.1⟩
  | boolean set =>
    constructor
    · rintro ⟨sets, hsets⟩
      obtain ⟨tail, htail, -⟩ := Option.map_eq_some_iff.1 hsets
      exact ⟨⟨nofun, nofun⟩, tail, htail⟩
    · rintro ⟨-, tail, htail⟩
      exact ⟨set :: tail, Option.map_eq_some_iff.2 ⟨tail, htail, rfl⟩⟩

/-- The predicates are booleans exactly if there is no error, and nothing undefined is read. -/
theorem exists_predicateSets?_iff : ∀ (b : Branches) {ps : Outcome (List AbstractValue)},
    predicates options env b = .ok ps → (∀ p c, (p, c) ∈ b.clauses → Diagnoses options env p) →
    ((∃ sets, predicateSets? ps.value = some sets) ↔
      Clean ps.findings ∧ ∀ p c, (p, c) ∈ b.clauses → ReadsDefined options env p)
  | .otherwise _, _, h, _ => by
    rw [predicates] at h
    obtain rfl := Except.ok.inj h
    exact ⟨fun _ => ⟨nofun, nofun⟩, fun _ => ⟨[], rfl⟩⟩
  | .clause p c rest, _, h, hdiagnoses => by
    obtain ⟨v, vs, hv, hvs, rfl⟩ := predicates_clause_eq_ok.1 h
    have hp := hdiagnoses p c List.mem_cons_self v hv
    have hrest := exists_predicateSets?_iff rest hvs fun p' c' hclause =>
      hdiagnoses p' c' (List.mem_cons_of_mem _ hclause)
    dsimp only
    rw [predicateSets?_cons p.span, hp, hrest, clean_append, clean_append, forall_clauses]
    tauto

/-- The consequents are defined exactly if there is no error, and nothing undefined is read. -/
theorem defined_consequents_iff : ∀ (b : Branches) {cs : Outcome (List AbstractValue)},
    consequents options env b = .ok cs → (∀ p c, (p, c) ∈ b.clauses → Diagnoses options env c) →
    ((∀ a ∈ cs.value, Defined a) ↔
      Clean cs.findings ∧ ∀ p c, (p, c) ∈ b.clauses → ReadsDefined options env c)
  | .otherwise _, _, h, _ => by
    rw [consequents] at h
    obtain rfl := Except.ok.inj h
    exact ⟨fun _ => ⟨nofun, nofun⟩, fun _ => nofun⟩
  | .clause p c rest, _, h, hdiagnoses => by
    obtain ⟨v, vs, hv, hvs, rfl⟩ := consequents_clause_eq_ok.1 h
    have hc := hdiagnoses p c List.mem_cons_self v hv
    have hrest := defined_consequents_iff rest hvs fun p' c' hclause =>
      hdiagnoses p' c' (List.mem_cons_of_mem _ hclause)
    dsimp only
    rw [List.forall_mem_cons, hc, hrest, clean_append, forall_clauses]
    tauto

theorem defined_require {value : Option AbstractValue} {c : ContractViolation} {e : Expr}
    (hreads : ReadsDefined options env e ↔ ∀ a, value = some a → Defined a)
    (o : Outcome AbstractValue) (h : require value c = .ok o) :
    Defined o.value ↔ Clean o.findings ∧ ReadsDefined options env e := by
  obtain ⟨a, rfl, rfl⟩ := require_eq_ok.1 h
  rw [hreads]
  exact ⟨fun ha => ⟨nofun, fun b hb => Option.some.inj hb ▸ ha⟩, fun h => h.2 a rfl⟩

/-- The result of any expression is defined exactly if there is no error in it, and nothing
undefined is read. -/
theorem diagnoses (e : Expr) : Diagnoses options env e := by
  induction e using Expr.clauseInduction with
  | number span x =>
    intro o h
    obtain ⟨i, -, rfl⟩ := eval_number_eq_ok.1 h
    refine ⟨fun _ => ⟨nofun, fun n hn => ?_⟩, fun _ => nofun⟩
    cases hn
    exact id
  | boolean span b =>
    intro o h
    obtain rfl := Except.ok.inj h
    refine ⟨fun _ => ⟨nofun, fun n hn => ?_⟩, fun _ => nofun⟩
    cases hn
    exact id
  | source span name =>
    refine defined_require ⟨fun h a ha hundefined => h _ (.self _) ⟨a, ha, hundefined⟩, ?_⟩
    rintro h n ⟨⟩ ⟨a, ha, hundefined⟩
    exact h a ha hundefined
  | «variable» span name =>
    refine defined_require ⟨fun h a ha hundefined => h _ (.self _) ⟨a, ha, hundefined⟩, ?_⟩
    rintro h n ⟨⟩ ⟨a, ha, hundefined⟩
    exact h a ha hundefined
  | operate span op l r ihl ihr =>
    intro o h
    obtain ⟨a, b, ha, hb, rfl⟩ := eval_operate_eq_ok.1 h
    rw [defined_operate, ihl a ha, ihr b hb, readsDefined_operate, clean_append, clean_append]
    tauto
  | choose span b ihc ihd =>
    intro o h
    rw [readsDefined_choose]
    obtain ⟨ps, hps, hnone, rfl⟩ | ⟨parts, hparts, rfl⟩ := eval_choose_eq_ok.1 h
    · have hsets := exists_predicateSets?_iff b hps fun p c hclause => (ihc p c hclause).1
      rw [hnone] at hsets
      exact ⟨fun h => absurd rfl h, fun h => nomatch hsets.2 ⟨h.1, h.2.1⟩⟩
    · have hdecides : Decides options env b := ⟨_, _, hparts.predicates_ok, hparts.sets_eq⟩
      obtain ⟨hps, hreads⟩ := (exists_predicateSets?_iff b hparts.predicates_ok fun p c hclause =>
        (ihc p c hclause).1).1 ⟨_, hparts.sets_eq⟩
      have hcs := defined_consequents_iff b hparts.consequents_ok fun p c hclause =>
        (ihc p c hclause).2
      have hd := ihd parts.fallback (fallback_eq b ▸ hparts.fallback_ok)
      change Defined (parts.chosen b).value ↔ _
      rw [defined_chosen hparts, hcs, hd, clean_outcome]
      exact ⟨fun ⟨⟨hcc, hcr⟩, ⟨hdc, hdr⟩, hch⟩ => ⟨⟨hps, hcc, hdc, hch⟩, hreads, fun _ => ⟨hcr, hdr⟩⟩,
        fun ⟨hclean, _, hrest⟩ => ⟨⟨hclean.consequents, (hrest hdecides).1⟩,
          ⟨hclean.fallback, (hrest hdecides).2⟩, hclean.chosen⟩⟩

/-- Without an error and with everything that can be read defined, the result is defined. -/
theorem defined_eval (henv : env.Each Defined) (e : Expr) {o : Outcome AbstractValue}
    (h : eval options env e = .ok o) (hclean : Clean o.findings) : Defined o.value := by
  refine (diagnoses e o h).2 ⟨hclean, fun n _ hn => ?_⟩
  cases n with
  | source _ name =>
    obtain ⟨a, ha, hundefined⟩ := hn
    exact henv.sources name a ha hundefined
  | «variable» _ name =>
    obtain ⟨a, ha, hundefined⟩ := hn
    exact henv.locals name a ha hundefined
  | _ => exact hn

/-- A `when` expression whose result is defined has all its parts. -/
theorem parts_of_defined {span : Text.Span} {branches : Branches} {o : Outcome AbstractValue}
    (h : eval options env (.choose span branches) = .ok o) (hdefined : Defined o.value) :
    ∃ parts, PartsOf options env branches parts ∧ Defined (parts.chosen branches).value ∧
      o = parts.outcome options branches := by
  rcases eval_choose_eq_ok.1 h with ⟨ps, hps, hnone, rfl⟩ | ⟨parts, hparts, rfl⟩
  · exact absurd rfl hdefined
  · exact ⟨parts, hparts, hdefined, rfl⟩

/-- The findings made in the parts themselves. -/
def Parts.inner (parts : Parts) : List Finding :=
  parts.predicates.findings ++ parts.consequents.findings ++ parts.fallback.findings

theorem Parts.inner_subset (parts : Parts) (options : AnalysisOptions) (branches : Branches) :
    parts.inner ⊆ (parts.outcome options branches).findings :=
  have ⟨hpredicates, hconsequents, hfallback⟩ := parts.findings_subset options branches
  List.append_subset.2 ⟨List.append_subset.2 ⟨hpredicates, hconsequents⟩, hfallback⟩

theorem Parts.inner_cons (parts : Parts) (v : Outcome AbstractValue) (set : BooleanSet)
    (w : Outcome AbstractValue) :
    v.findings ⊆ (parts.cons v set w).inner ∧ w.findings ⊆ (parts.cons v set w).inner ∧
      parts.inner ⊆ (parts.cons v set w).inner := by
  refine ⟨fun f hf => ?_, fun f hf => ?_, fun f hf => ?_⟩ <;>
    simp only [Parts.inner, Parts.cons, List.mem_append] at hf ⊢ <;> tauto

/-- Without an error, every node that a run on values visits is analyzed. -/
theorem visits_of_clean (henv : env.Each Defined) {env' : Environment Value} (e : Expr)
    {o : Outcome AbstractValue} (h : eval options env e = .ok o) (hclean : Clean o.findings)
    {n : Expr} (hn : Concrete.Visits env' e n) : Visits options env e n := by
  induction e using Expr.clauseInduction generalizing o with
  | number | boolean | source | «variable» =>
    cases hn
    exact .self _
  | operate span op left right ihl ihr =>
    obtain ⟨l, r, hl, hr, rfl⟩ := eval_operate_eq_ok.1 h
    simp only [clean_append] at hclean
    obtain ⟨⟨hcl, hcr⟩, -⟩ := hclean
    cases hn with
    | self => exact .self _
    | left hn => exact .left (ihl hl hcl hn)
    | right hn => exact .right (ihr hr hcr hn)
  | choose span branches ihc ihd =>
    cases hn with
    | self => exact .self _
    | choose hn =>
      obtain ⟨parts, hparts, -, rfl⟩ := parts_of_defined h (defined_eval henv _ h hclean)
      have hdecides : Decides options env branches := ⟨_, _, hparts.predicates_ok, hparts.sets_eq⟩
      have hcleans := clean_outcome.1 hclean
      obtain ⟨p, c, hclause, hn | hn⟩ | hn := hn.of_part
      · obtain ⟨v, hv, hsubset⟩ := exists_of_mem_predicates hparts.predicates_ok hclause
        exact .predicate hclause ((ihc p c hclause).1 hv (hcleans.predicates.subset hsubset) hn)
      · obtain ⟨v, hv, hsubset⟩ := exists_of_mem_consequents hparts.consequents_ok hclause
        exact .consequent hdecides hclause
          ((ihc p c hclause).2 hv (hcleans.consequents.subset hsubset) hn)
      · exact .otherwise hdecides (ihd (fallback_eq _ ▸ hparts.fallback_ok) hcleans.fallback hn)

end Abstract

end RangeRules
