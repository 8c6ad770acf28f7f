import RangeRules.Proofs.Evaluation.Reach

/-!
# Two analyses side by side

Two analyses of one program, from different descriptions of its sources and with different options,
are compared node by node. How the descriptions are related is left open: a `Congruence` is a
relation that operators and `when` expressions keep, for those findings that are kept in view. Two
analyses that start from related descriptions then break the contract alike, or both succeed with
related sinks and with the same findings in view, in the same order.
-/
namespace RangeRules

/-- The same breach of contract on both sides, or related results. -/
inductive Corresponds {A B : Type} (R : A → B → Prop) :
    Except ContractViolation A → Except ContractViolation B → Prop where
  | broken (c : ContractViolation) : Corresponds R (.error c) (.error c)
  | done {a : A} {b : B} (h : R a b) : Corresponds R (.ok a) (.ok b)

theorem Corresponds.then {A B C D : Type} {R : A → B → Prop} {S : C → D → Prop}
    {x : Except ContractViolation A} {y : Except ContractViolation B}
    {f : A → Except ContractViolation C} {g : B → Except ContractViolation D}
    (h : Corresponds R x y) (hnext : ∀ a b, R a b → Corresponds S (f a) (g b)) :
    Corresponds S (x >>= f) (y >>= g) := by
  cases h with
  | broken c => exact .broken c
  | done hab => exact hnext _ _ hab

theorem Corresponds.exists_ok {A B : Type} {R : A → B → Prop} {x : Except ContractViolation A}
    {y : Except ContractViolation B} (h : Corresponds R x y) :
    ((∃ a, x = .ok a) ↔ ∃ b, y = .ok b) ∧ ∀ a b, x = .ok a → y = .ok b → R a b := by
  cases h with
  | broken c => exact ⟨⟨nofun, nofun⟩, nofun⟩
  | done hab =>
    refine ⟨⟨fun _ => ⟨_, rfl⟩, fun _ => ⟨_, rfl⟩⟩, fun a b ha hb => ?_⟩
    obtain rfl := Except.ok.inj ha
    obtain rfl := Except.ok.inj hb
    exact hab

/-- The findings of the problems in view. -/
def inView (view : Problem → Bool) (findings : List Finding) : List Finding :=
  findings.filter fun f => view f.problem

theorem inView_append (view : Problem → Bool) (fs gs : List Finding) :
    inView view (fs ++ gs) = inView view fs ++ inView view gs :=
  List.filter_append ..

/-- Related values, and the same findings in view. -/
structure Alike {V W : Type} (R : V → W → Prop) (view : Problem → Bool) (o : Outcome V)
    (o' : Outcome W) : Prop where
  value : R o.value o'.value
  findings : inView view o.findings = inView view o'.findings

/-- Two descriptions of one type are intervals, sets of booleans, or both undefined. -/
theorem AbstractValue.cases_of_type_eq {a b : AbstractValue} (h : a.type = b.type) :
    (∃ i j, a = .interval i ∧ b = .interval j) ∨ (∃ s t, a = .boolean s ∧ b = .boolean t) ∨
      (a = .undefined ∧ b = .undefined) := by
  cases a <;> cases b <;> simp [AbstractValue.type] at h ⊢

namespace Abstract

/-- A relation between descriptions that two analyses keep, with the findings in view. -/
structure Congruence (options options' : AnalysisOptions)
    (R : AbstractValue → AbstractValue → Prop) (view : Problem → Bool) : Prop where
  type_eq : ∀ {a a' : AbstractValue}, R a a' → a.type = a'.type
  undefined : R .undefined .undefined
  literal : ∀ {x : Number} {i : Interval}, Interval.make? x x = .ok i →
    R (.interval i) (.interval i)
  singleton : ∀ b : Bool, R (.boolean (.singleton b)) (.boolean (.singleton b))
  compute : ∀ (op : Operator) (span : Text.Span) {i i' j j' : Interval},
    R (.interval i) (.interval i') → R (.interval j) (.interval j') →
    Alike R view (compute options op span i j) (compute options' op span i' j')
  /-- What `otherwise` and some clauses come to, with one clause more. -/
  clause : ∀ {s s' : BooleanSet} {d d' a a' : AbstractValue}, R (.boolean s) (.boolean s') →
    R d d' → R a a' → d.type = a.type →
    R (if s.contains true then d.union a else d) (if s'.contains true then d'.union a' else d')
  warnings : ∀ (branches : Branches) {sets sets' : List BooleanSet},
    List.Forall₂ (fun s s' => R (.boolean s) (.boolean s')) sets sets' →
    inView view (unreachableFindings branches sets ++ otherwiseFindings options branches sets) =
      inView view
        (unreachableFindings branches sets' ++ otherwiseFindings options' branches sets')

variable {options options' : AnalysisOptions} {R : AbstractValue → AbstractValue → Prop}
  {view : Problem → Bool}

/-- A clause that never applies is no error. -/
theorem warnings_not_errors (branches : Branches) (options : AnalysisOptions)
    (sets : List BooleanSet) :
    inView (·.severity = .error)
      (unreachableFindings branches sets ++ otherwiseFindings options branches sets) = [] := by
  unfold inView
  rw [List.filter_eq_nil_iff]
  intro f hf
  rcases List.mem_append.1 hf with hf | hf
  · unfold unreachableFindings at hf
    obtain ⟨⟨clause, set⟩, -, hset⟩ := List.mem_filterMap.1 hf
    dsimp only at hset
    split at hset
    · exact nomatch hset
    · obtain rfl := Option.some.inj hset
      exact Bool.false_ne_true
  · unfold otherwiseFindings at hf
    split at hf
    · obtain rfl := List.mem_singleton.1 hf
      exact Bool.false_ne_true
    · exact nomatch hf

theorem alike_operate (h : Congruence options options' R view) (op : Operator)
    (leftSpan rightSpan : Text.Span) {a a' b b' : AbstractValue} (ha : R a a') (hb : R b b') :
    Alike R view (operate options op leftSpan rightSpan a b)
      (operate options' op leftSpan rightSpan a' b') := by
  obtain ⟨i, i', rfl, rfl⟩ | ⟨s, s', rfl, rfl⟩ | ⟨rfl, rfl⟩ :=
      AbstractValue.cases_of_type_eq (h.type_eq ha) <;>
    obtain ⟨j, j', rfl, rfl⟩ | ⟨t, t', rfl, rfl⟩ | ⟨rfl, rfl⟩ :=
      AbstractValue.cases_of_type_eq (h.type_eq hb)
  · exact h.compute op rightSpan ha hb
  all_goals exact ⟨h.undefined, rfl⟩

/-- Related predicates are sets of booleans alike, or neither all are. -/
theorem predicateSets?_related (h : Congruence options options' R view)
    {values values' : List AbstractValue} (hvalues : List.Forall₂ R values values') :
    Option.Rel (List.Forall₂ fun s s' => R (.boolean s) (.boolean s'))
      (predicateSets? values) (predicateSets? values') := by
  induction hvalues with
  | nil => exact .some .nil
  | @cons a a' values values' ha hrest ih =>
    obtain ⟨i, i', rfl, rfl⟩ | ⟨s, s', rfl, rfl⟩ | ⟨rfl, rfl⟩ :=
      AbstractValue.cases_of_type_eq (h.type_eq ha)
    · exact .none
    · unfold predicateSets?
      generalize predicateSets? values = sets, predicateSets? values' = sets' at ih ⊢
      cases ih with
      | none => exact .none
      | some hsets => exact .some (.cons ha hsets)
    · exact .none

theorem predicateFindings_related (h : Congruence options options' R view) (span : Text.Span)
    {a a' : AbstractValue} (ha : R a a') : predicateFindings span a = predicateFindings span a' := by
  obtain ⟨i, i', rfl, rfl⟩ | ⟨s, s', rfl, rfl⟩ | ⟨rfl, rfl⟩ :=
    AbstractValue.cases_of_type_eq (h.type_eq ha) <;> rfl

/-- Related consequents with the same places have the same first one of another type. -/
theorem firstMismatch?_related (h : Congruence options options' R view) (type : ValueType)
    {values values' : List AbstractValue} (hvalues : List.Forall₂ R values values')
    (spans : List Text.Span) :
    Option.Rel (fun found found' => found.1.type = found'.1.type ∧ found.2 = found'.2)
      (firstMismatch? type (values.zip spans)) (firstMismatch? type (values'.zip spans)) := by
  unfold firstMismatch?
  induction hvalues generalizing spans with
  | nil => exact .none
  | @cons a a' values values' ha hrest ih =>
    cases spans with
    | nil => exact .none
    | cons span spans =>
      rw [List.zip_cons_cons, List.zip_cons_cons, List.find?_cons, List.find?_cons]
      dsimp only
      rw [h.type_eq ha]
      split
      · exact .some ⟨h.type_eq ha, rfl⟩
      · exact ih spans

theorem unite_related (h : Congruence options options' R view) {sets sets' : List BooleanSet}
    (hsets : List.Forall₂ (fun s s' => R (.boolean s) (.boolean s')) sets sets')
    {values values' : List AbstractValue} (hvalues : List.Forall₂ R values values')
    {d d' : AbstractValue} (hd : R d d') (htype : ∀ a ∈ values, d.type = a.type) :
    R (unite sets values d) (unite sets' values' d') := by
  induction hsets generalizing values values' d d' with
  | nil => exact hd
  | @cons s s' sets sets' hs hrest ih =>
    cases hvalues with
    | nil => exact hd
    | @cons a a' values values' ha hvalues =>
      have hhead := htype a List.mem_cons_self
      rw [unite_cons, unite_cons]
      refine ih hvalues (h.clause hs hd ha hhead) fun b hb => ?_
      have hb' := htype b (List.mem_cons_of_mem _ hb)
      split
      · exact (AbstractValue.type_union hhead).trans hb'
      · exact hb'

theorem any_isUndefined_related (h : Congruence options options' R view)
    {values values' : List AbstractValue} (hvalues : List.Forall₂ R values values') :
    values.any AbstractValue.isUndefined = values'.any AbstractValue.isUndefined := by
  induction hvalues with
  | nil => rfl
  | cons ha _ ih =>
    rw [List.any_cons, List.any_cons, ih]
    unfold AbstractValue.isUndefined
    rw [h.type_eq ha]

theorem headD_related {values values' : List AbstractValue} {d d' : AbstractValue}
    (hvalues : List.Forall₂ R values values') (hd : R d d') :
    R (values.headD d) (values'.headD d') := by
  cases hvalues with
  | nil => exact hd
  | cons ha _ => exact ha

theorem alike_select (h : Congruence options options' R view) (branches : Branches)
    {sets sets' : List BooleanSet}
    (hsets : List.Forall₂ (fun s s' => R (.boolean s) (.boolean s')) sets sets')
    {values values' : List AbstractValue} (hvalues : List.Forall₂ R values values')
    {d d' : AbstractValue} (hd : R d d')
    (hlength : values.length = branches.clauses.length) :
    Alike R view (select branches sets values d) (select branches sets' values' d') := by
  have hall : List.Forall₂ R (values ++ [d]) (values' ++ [d']) :=
    List.rel_append hvalues (.cons hd .nil)
  have htype := h.type_eq (headD_related hall hd)
  have hmismatch := firstMismatch?_related h ((values' ++ [d']).headD d').type hall
    (consequentSpans branches)
  have hspans : (values ++ [d]).length ≤ (consequentSpans branches).length := by
    simp [consequentSpans, hlength]
  unfold select
  dsimp only
  rw [any_isUndefined_related h hall, htype]
  split
  · exact ⟨h.undefined, rfl⟩
  · generalize hfound : firstMismatch? _ ((values ++ [d]).zip _) = found at hmismatch
    generalize firstMismatch? _ ((values' ++ [d']).zip _) = found' at hmismatch
    cases hmismatch with
    | some hfound' =>
      obtain ⟨htype', hspan⟩ := hfound'
      dsimp only
      rw [htype', hspan]
      exact ⟨h.undefined, rfl⟩
    | none =>
      have htypes := firstMismatch?_eq_none hspans hfound
      refine ⟨unite_related h hsets hvalues hd fun a ha => ?_, rfl⟩
      rw [htypes d (by simp), htypes a (by simp [ha])]

theorem corresponds_require {v? v?' : Option AbstractValue} (hv : Option.Rel R v? v?')
    (c : ContractViolation) : Corresponds (Alike R view) (require v? c) (require v?' c) := by
  cases hv with
  | none => exact .broken c
  | some hvalue => exact .done ⟨hvalue, rfl⟩

/-- The parts of a `when` expression are put together alike. -/
theorem alike_parts {branches : Branches} {ps ps' cs cs' : Outcome (List AbstractValue)}
    {d d' : Outcome AbstractValue} {sets sets' : List BooleanSet}
    (h : Congruence options options' R view)
    (hps : Alike (List.Forall₂ R) view ps ps')
    (hsets : List.Forall₂ (fun s s' => R (.boolean s) (.boolean s')) sets sets')
    (hcs : Alike (List.Forall₂ R) view cs cs') (hd : Alike R view d d')
    (hlength : cs.value.length = branches.clauses.length) :
    Alike R view (Parts.outcome ⟨ps, sets, cs, d⟩ options branches)
      (Parts.outcome ⟨ps', sets', cs', d'⟩ options' branches) := by
  have hchosen := alike_select h branches hsets hcs.value hd.value hlength
  have hwarnings := h.warnings branches hsets
  refine ⟨hchosen.value, ?_⟩
  unfold Parts.outcome Parts.chosen
  simp only [inView_append] at hwarnings ⊢
  rw [hps.findings, hwarnings, hcs.findings, hd.findings, hchosen.findings]

mutual

/-- Two analyses of one expression in related environments correspond. -/
theorem corresponds_eval (h : Congruence options options' R view)
    {env env' : Environment AbstractValue} (henv : env.Agrees R env') :
    ∀ e : Expr, Corresponds (Alike R view) (eval options env e) (eval options' env' e)
  | .number span x => by
    rw [eval, eval]
    cases hi : Interval.make? x x with
    | error e => exact .broken _
    | ok i => exact .done ⟨h.literal hi, rfl⟩
  | .boolean _ b => .done ⟨h.singleton b, rfl⟩
  | .source _ name => corresponds_require (henv.sources name) _
  | .variable _ name => corresponds_require (henv.locals name) _
  | .operate _ op left right => by
    rw [eval, eval]
    refine (corresponds_eval h henv left).then fun l l' hl => ?_
    refine (corresponds_eval h henv right).then fun r r' hr => ?_
    have ho := alike_operate h op left.span right.span hl.value hr.value
    refine .done ⟨ho.value, ?_⟩
    simp only [inView_append]
    rw [hl.findings, hr.findings, ho.findings]
  | .choose _ branches => by
    rw [eval, eval]
    refine (corresponds_predicates h henv branches).then fun ps ps' hps => ?_
    have hsets := predicateSets?_related h hps.value
    generalize predicateSets? ps.value = sets?, predicateSets? ps'.value = sets?' at hsets
    cases hsets with
    | none => exact .done ⟨h.undefined, hps.findings⟩
    | some hsets =>
      refine (corresponds_consequents h henv branches).then fun cs cs' hcs => ?_
      refine (corresponds_fallback h henv branches).then fun d d' hd => ?_
      exact .done (alike_parts h hps hsets hcs.1 hd hcs.2)

theorem corresponds_predicates (h : Congruence options options' R view)
    {env env' : Environment AbstractValue} (henv : env.Agrees R env') :
    ∀ branches : Branches, Corresponds (Alike (List.Forall₂ R) view)
      (predicates options env branches) (predicates options' env' branches)
  | .otherwise _ => .done ⟨.nil, rfl⟩
  | .clause p _ rest => by
    rw [predicates, predicates]
    refine (corresponds_eval h henv p).then fun v v' hv => ?_
    refine (corresponds_predicates h henv rest).then fun vs vs' hvs => ?_
    refine .done ⟨.cons hv.value hvs.value, ?_⟩
    simp only [inView_append]
    rw [hv.findings, predicateFindings_related h p.span hv.value, hvs.findings]

/-- There is one consequent for each clause. -/
theorem corresponds_consequents (h : Congruence options options' R view)
    {env env' : Environment AbstractValue} (henv : env.Agrees R env') :
    ∀ branches : Branches,
      Corresponds (fun o o' => Alike (List.Forall₂ R) view o o' ∧
        o.value.length = branches.clauses.length)
        (consequents options env branches) (consequents options' env' branches)
  | .otherwise _ => .done ⟨⟨.nil, rfl⟩, rfl⟩
  | .clause _ c rest => by
    rw [consequents, consequents]
    refine (corresponds_eval h henv c).then fun v v' hv => ?_
    refine (corresponds_consequents h henv rest).then fun vs vs' hvs => ?_
    refine .done ⟨⟨.cons hv.value hvs.1.value, ?_⟩, ?_⟩
    · simp only [inView_append]
      rw [hv.findings, hvs.1.findings]
    · simp [Branches.clauses, hvs.2]

theorem corresponds_fallback (h : Congruence options options' R view)
    {env env' : Environment AbstractValue} (henv : env.Agrees R env') :
    ∀ branches : Branches, Corresponds (Alike R view)
      (fallback options env branches) (fallback options' env' branches)
  | .otherwise e => corresponds_eval h henv e
  | .clause _ _ rest => corresponds_fallback h henv rest

end

/-- Statements run on from related states correspond. -/
theorem corresponds_runFrom (h : Congruence options options' R view) (statements : List Statement)
    {env env' : Environment AbstractValue} {done done' : Evaluation AbstractValue}
    (henv : env.Agrees R env') (hsinks : Bindings.Aligned R done.sinks done'.sinks)
    (hfindings : inView view done.findings = inView view done'.findings) :
    Corresponds (fun e e' => Bindings.Aligned R e.sinks e'.sinks ∧
        inView view e.findings = inView view e'.findings)
      (runFrom (eval options) env done statements)
      (runFrom (eval options') env' done' statements) := by
  induction statements generalizing env env' done done' with
  | nil => exact .done ⟨hsinks, hfindings⟩
  | cons s rest ih =>
    rw [runFrom_cons, runFrom_cons]
    refine (corresponds_eval h henv s.body).then fun r r' hr => ?_
    refine ih (s.agrees_update henv hr.value) (s.aligned_record hsinks hr.value) ?_
    rw [inView_append, inView_append, hfindings, hr.findings]

end Abstract

/-- Two analyses of a program from related sources correspond. -/
theorem Program.corresponds_analyze {options options' : AnalysisOptions}
    {R : AbstractValue → AbstractValue → Prop} {view : Problem → Bool}
    (h : Abstract.Congruence options options' R view) (p : Program)
    {sources sources' : Bindings AbstractValue}
    (hsources : ∀ name, Option.Rel R (sources.get? name) (sources'.get? name)) :
    Corresponds (fun e e' => Bindings.Aligned R e.sinks e'.sinks ∧
        inView view e.findings = inView view e'.findings)
      (p.analyze sources options) (p.analyze sources' options') :=
  Abstract.corresponds_runFrom h p.statements (Environment.agrees_start hsources)
    (Bindings.aligned_empty R) rfl

end RangeRules
