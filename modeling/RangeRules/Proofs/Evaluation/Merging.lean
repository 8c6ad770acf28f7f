import RangeRules.Proofs.Evaluation.Clean
import RangeRules.Proofs.Evaluation.Monotonicity
import RangeRules.Proofs.Evaluation.Soundness

/-!
# What a `when` expression makes of its clauses

The clauses of a `when` expression are evaluated in order, and its value is united from `otherwise`
on. The order leaves no trace in the value: it is undefined for some clause, whichever it is, or it
is the least description that encloses `otherwise` and the consequent of every clause that may
apply. `Merges` says so with the set of the clauses only. The least description is unique but for
which zero a bound is, and every lemma about order or number of clauses comes down to that.
-/
namespace RangeRules

/-! ### Equal descriptions -/

namespace AbstractValue

variable {a b c : AbstractValue}

/-- Well-formed descriptions of the same values; which zero a bound is may differ. -/
def Equal (a b : AbstractValue) : Prop := a.Widens b ∧ b.Widens a

theorem Equal.refl (ha : a.Admits Interval.WellFormed) : a.Equal a :=
  ⟨⟨ha, encloses_self ha⟩, ha, encloses_self ha⟩

theorem Equal.admits (h : a.Equal b) :
    a.Admits Interval.WellFormed ∧ b.Admits Interval.WellFormed := ⟨h.2.1, h.1.1⟩

theorem Equal.same (h : a.Equal b) : a.same b = true :=
  (same_iff_encloses a b).2 ⟨h.1.2, h.2.2⟩

end AbstractValue

namespace Abstract

/-- The union encloses nothing but what `otherwise` and clauses that may apply need. -/
theorem encloses_unite_iff (w : AbstractValue) (sets : List BooleanSet)
    {values : List AbstractValue} {d : AbstractValue} (hd : d.Admits Interval.WellFormed)
    (hvalues : ∀ a ∈ values, a.Admits Interval.WellFormed) (htype : ∀ a ∈ values, d.type = a.type) :
    w.encloses (unite sets values d) = true ↔ w.encloses d = true ∧
      ∀ set a, (set, a) ∈ sets.zip values → set.contains true = true → w.encloses a = true := by
  induction sets generalizing values d with
  | nil => simp [unite]
  | cons set sets ih =>
    cases values with
    | nil => simp [unite]
    | cons a values =>
      have ha := hvalues a List.mem_cons_self
      have hhead := htype a List.mem_cons_self
      have hrest : ∀ b ∈ values, b.Admits Interval.WellFormed := fun b hb =>
        hvalues b (List.mem_cons_of_mem _ hb)
      have htail : ∀ b ∈ values, d.type = b.type := fun b hb => htype b (List.mem_cons_of_mem _ hb)
      rw [unite_cons, List.zip_cons_cons]
      simp only [List.mem_cons, Prod.mk.injEq, or_imp, forall_and]
      split
      · next hset =>
        have hunion := AbstractValue.type_union hhead
        have hboth := AbstractValue.admits_union hd ha
        rw [ih hboth hrest fun b hb => hunion.trans (htail b hb),
          AbstractValue.encloses_union_iff w hd ha hhead]
        simp [hset, and_assoc]
      · next hset =>
        rw [ih hd hrest htail]
        simp [hset]

/-- What becomes of the consequents, told by their values alone. -/
theorem value_select {branches : Branches} (sets : List BooleanSet) {values : List AbstractValue}
    {d : AbstractValue} (hlength : values.length = branches.clauses.length) :
    (select branches sets values d).value =
      if Defined d ∧ ∀ a ∈ values, a.type = d.type then unite sets values d else .undefined := by
  have hspans : (values ++ [d]).length ≤ (consequentSpans branches).length := by
    simp [consequentSpans, hlength]
  have hhead : (values ++ [d]).headD d ∈ values ++ [d] := by cases values <;> simp
  unfold select
  dsimp only
  split
  · next hany =>
    obtain ⟨a, ha, hundefined⟩ := List.any_eq_true.1 hany
    have hundefined : a.type = .undefined := of_decide_eq_true hundefined
    refine (if_neg ?_).symm
    rintro ⟨hd, hsame⟩
    obtain ha | ha := List.mem_append.1 ha
    · exact hd ((hsame a ha).symm.trans hundefined)
    · exact hd (List.mem_singleton.1 ha ▸ hundefined)
  · next hany =>
    rw [List.any_eq_true] at hany
    split
    · next found span hfound =>
      refine (if_neg ?_).symm
      rintro ⟨-, hsame⟩
      -- All values are of one type, so none differs from the first.
      have hall : ∀ a ∈ values ++ [d], a.type = d.type := by
        simpa [or_imp, forall_and] using hsame
      unfold firstMismatch? at hfound
      have hmem := (List.of_mem_zip (List.mem_of_find?_eq_some hfound)).1
      have hdiffers : found.type ≠ ((values ++ [d]).headD d).type := by
        simpa using List.find?_some hfound
      exact hdiffers ((hall found hmem).trans (hall _ hhead).symm)
    · next hnone =>
      have htypes := firstMismatch?_eq_none hspans hnone
      have hd : Defined d := fun hundefined =>
        hany ⟨d, by simp, decide_eq_true hundefined⟩
      refine (if_pos ⟨hd, fun a ha => ?_⟩).symm
      exact (htypes a (by simp [ha])).trans (htypes d (by simp)).symm

/-! ### Clauses without their order -/

variable {options : AnalysisOptions} {env : Environment AbstractValue}

/-- The analysis gives the expression the description. -/
def Evaluates (options : AnalysisOptions) (env : Environment AbstractValue) (e : Expr)
    (a : AbstractValue) : Prop :=
  ∃ o, eval options env e = .ok o ∧ o.value = a

theorem Evaluates.unique {e : Expr} {a b : AbstractValue} (ha : Evaluates options env e a)
    (hb : Evaluates options env e b) : a = b := by
  obtain ⟨o, ho, rfl⟩ := ha
  obtain ⟨o', ho', rfl⟩ := hb
  rw [Except.ok.inj (ho.symm.trans ho')]

theorem Evaluates.admits (henv : env.Each (·.Admits Interval.WellFormed)) {e : Expr}
    {a : AbstractValue} (h : Evaluates options env e a) : a.Admits Interval.WellFormed := by
  obtain ⟨o, ho, rfl⟩ := h
  exact admits_eval Soundness.closed_wellFormed henv e ho

/-- All clauses are evaluated, their predicates to sets of booleans. -/
def AllDecided (options : AnalysisOptions) (env : Environment AbstractValue)
    (clauses : List (Expr × Expr)) : Prop :=
  ∀ clause ∈ clauses, ∃ set a, Evaluates options env clause.1 (.boolean set) ∧
    Evaluates options env clause.2 a

/-- A clause that may apply has the value. -/
def Contributes (options : AnalysisOptions) (env : Environment AbstractValue)
    (clauses : List (Expr × Expr)) (a : AbstractValue) : Prop :=
  ∃ clause ∈ clauses, ∃ set, Evaluates options env clause.1 (.boolean set) ∧
    set.contains true = true ∧ Evaluates options env clause.2 a

/-- What the analysis may make of clauses and an `otherwise`, in whatever order they stand. -/
inductive Merges (options : AnalysisOptions) (env : Environment AbstractValue)
    (clauses : List (Expr × Expr)) (otherwise : Expr) : AbstractValue → Prop where
  | undecided (evaluated : ∀ clause ∈ clauses, ∃ a, Evaluates options env clause.1 a)
    {clause : Expr × Expr} (mem : clause ∈ clauses) {a : AbstractValue}
    (value : Evaluates options env clause.1 a) (open_ : ∀ set, a ≠ .boolean set) :
    Merges options env clauses otherwise .undefined
  | mixed (decided : AllDecided options env clauses) {d : AbstractValue}
    (fallback : Evaluates options env otherwise d)
    (differs : Defined d → ∃ clause ∈ clauses, ∃ a, Evaluates options env clause.2 a ∧
      a.type ≠ d.type) : Merges options env clauses otherwise .undefined
  | united (decided : AllDecided options env clauses) {d a : AbstractValue}
    (fallback : Evaluates options env otherwise d) (defined : Defined d)
    (type_eq : ∀ clause ∈ clauses, ∀ b, Evaluates options env clause.2 b → b.type = d.type)
    (least : ∀ w : AbstractValue, w.encloses a = true ↔ w.encloses d = true ∧
      ∀ b, Contributes options env clauses b → w.encloses b = true) :
    Merges options env clauses otherwise a

theorem not_decided {clauses : List (Expr × Expr)} {clause : Expr × Expr} (h : clause ∈ clauses)
    {a : AbstractValue} (ha : Evaluates options env clause.1 a) (hopen : ∀ set, a ≠ .boolean set) :
    ¬ AllDecided options env clauses := by
  intro hdecided
  obtain ⟨set, -, hset, -⟩ := hdecided clause h
  exact hopen set (ha.unique hset)

/-- The clauses and `otherwise` fix the value, but for which zero a bound is. -/
theorem Merges.equal {clauses : List (Expr × Expr)} {otherwise : Expr} {a b : AbstractValue}
    (h : Merges options env clauses otherwise a) (h' : Merges options env clauses otherwise b)
    (ha : a.Admits Interval.WellFormed) (hb : b.Admits Interval.WellFormed) : a.Equal b := by
  cases h with
  | undecided _ mem value hopen =>
    cases h' with
    | undecided => exact .refl trivial
    | mixed decided => exact absurd decided (not_decided mem value hopen)
    | united decided => exact absurd decided (not_decided mem value hopen)
  | @mixed decided d fallback differs =>
    cases h' with
    | undecided _ mem value hopen => exact absurd decided (not_decided mem value hopen)
    | mixed => exact .refl trivial
    | united _ fallback' defined type_eq =>
      obtain rfl := fallback.unique fallback'
      obtain ⟨clause, hmem, c, hc, hne⟩ := differs defined
      exact absurd (type_eq clause hmem c hc) hne
  | united decided fallback defined type_eq least =>
    cases h' with
    | undecided _ mem value hopen => exact absurd decided (not_decided mem value hopen)
    | mixed _ fallback' differs =>
      obtain rfl := fallback.unique fallback'
      obtain ⟨clause, hmem, c, hc, hne⟩ := differs defined
      exact absurd (type_eq clause hmem c hc) hne
    | united _ fallback' _ _ least' =>
      obtain rfl := fallback.unique fallback'
      have hab : a.encloses b = true := (least' a).2 ((least a).1 (AbstractValue.encloses_self ha))
      have hba : b.encloses a = true := (least b).2 ((least' b).1 (AbstractValue.encloses_self hb))
      exact ⟨⟨hb, hab⟩, ha, hba⟩

/-- Neither order nor repetition of the clauses matters. -/
theorem Merges.congr {clauses clauses' : List (Expr × Expr)} {otherwise : Expr} {a : AbstractValue}
    (h : Merges options env clauses otherwise a)
    (hmem : ∀ clause, clause ∈ clauses ↔ clause ∈ clauses') :
    Merges options env clauses' otherwise a := by
  have hdecided : AllDecided options env clauses → AllDecided options env clauses' :=
    fun h clause hclause => h clause ((hmem clause).2 hclause)
  cases h with
  | undecided evaluated mem value hopen =>
    exact .undecided (fun clause hclause => evaluated clause ((hmem clause).2 hclause))
      ((hmem _).1 mem) value hopen
  | mixed decided fallback differs =>
    refine .mixed (hdecided decided) fallback fun hdefined => ?_
    obtain ⟨clause, hclause, hdiffers⟩ := differs hdefined
    exact ⟨clause, (hmem clause).1 hclause, hdiffers⟩
  | united decided fallback defined type_eq least =>
    refine .united (hdecided decided) fallback defined
      (fun clause hclause => type_eq clause ((hmem clause).2 hclause)) fun w => ?_
    rw [least w]
    unfold Contributes
    simp only [hmem]

/-- A clause that never applies may be left out where the value is defined. -/
theorem Merges.drop {clauses clauses' : List (Expr × Expr)} {dead : Expr × Expr} {otherwise : Expr}
    {a : AbstractValue} (h : Merges options env clauses otherwise a) (ha : Defined a)
    (hmem : ∀ clause, clause ∈ clauses ↔ clause = dead ∨ clause ∈ clauses') {set : BooleanSet}
    (hset : Evaluates options env dead.1 (.boolean set)) (hdead : ¬ set.contains true = true) :
    Merges options env clauses' otherwise a := by
  cases h with
  | undecided => exact absurd rfl ha
  | mixed => exact absurd rfl ha
  | united decided fallback defined type_eq least =>
    have hsubset : ∀ clause ∈ clauses', clause ∈ clauses := fun clause h => (hmem clause).2 (.inr h)
    refine .united (fun clause hclause => decided clause (hsubset clause hclause)) fallback defined
      (fun clause hclause => type_eq clause (hsubset clause hclause)) fun w => ?_
    have hcontributes : ∀ b, Contributes options env clauses b ↔
        Contributes options env clauses' b := by
      intro b
      constructor
      · rintro ⟨clause, hclause, set', hset', htrue, hb⟩
        obtain rfl | hclause := (hmem clause).1 hclause
        · obtain rfl := AbstractValue.boolean.inj (hset.unique hset')
          exact absurd htrue hdead
        · exact ⟨clause, hclause, set', hset', htrue, hb⟩
      · rintro ⟨clause, hclause, h⟩
        exact ⟨clause, hsubset clause hclause, h⟩
    rw [least w]
    simp only [hcontributes]

/-! ### The parts of a `when` expression and its clauses -/

/-- The predicates are evaluated if each is. -/
theorem exists_predicates {b : Branches}
    (h : ∀ clause ∈ b.clauses, ∃ a, Evaluates options env clause.1 a) :
    ∃ ps, predicates options env b = .ok ps := by
  induction b using Branches.clauseInduction with
  | otherwise e => exact ⟨_, rfl⟩
  | clause p c rest ih =>
    obtain ⟨hhead, htail⟩ := List.forall_mem_cons.1 h
    obtain ⟨_, v, hv, -⟩ := hhead
    obtain ⟨ps, hps⟩ := ih htail
    exact ⟨_, predicates_clause_eq_ok.2 ⟨v, ps, hv, hps, rfl⟩⟩

theorem evaluates_of_predicates {b : Branches} {ps : Outcome (List AbstractValue)}
    (h : predicates options env b = .ok ps) :
    ∀ clause ∈ b.clauses, ∃ a, Evaluates options env clause.1 a := by
  intro clause hclause
  have hclause : (clause.1, clause.2) ∈ b.clauses := hclause
  obtain ⟨v, hv, -⟩ := exists_of_mem_predicates h hclause
  exact ⟨_, v, hv, rfl⟩

/-- The predicates are not all sets of booleans if one of them is none. -/
theorem predicateSets?_eq_none_iff {b : Branches} {ps : Outcome (List AbstractValue)}
    (h : predicates options env b = .ok ps) : predicateSets? ps.value = none ↔
      ∃ clause ∈ b.clauses, ∃ a, Evaluates options env clause.1 a ∧ ∀ set, a ≠ .boolean set := by
  induction b using Branches.clauseInduction generalizing ps with
  | otherwise e =>
    rw [predicates] at h
    obtain rfl := Except.ok.inj h
    simp [predicateSets?, Branches.clauses]
  | clause p c rest ih =>
    obtain ⟨v, vs, hv, hvs, rfl⟩ := predicates_clause_eq_ok.1 h
    have hp : Evaluates options env p v.value := ⟨v, hv, rfl⟩
    have hhead : (∃ a, Evaluates options env p a ∧ ∀ set, a ≠ .boolean set) ↔
        ∀ set, v.value ≠ .boolean set := by
      constructor
      · rintro ⟨a, ha, hopen⟩
        rwa [hp.unique ha]
      · exact fun hopen => ⟨v.value, hp, hopen⟩
    change predicateSets? (v.value :: vs.value) = none ↔ ∃ clause ∈ (p, c) :: rest.clauses, _
    rw [List.exists_mem_cons_iff, hhead, ← ih hvs]
    cases v.value with
    | boolean set => simp [predicateSets?]
    | interval i => simp [predicateSets?]
    | undefined => simp [predicateSets?]

/-- Decided clauses have all their parts. -/
theorem exists_parts {b : Branches} (hdecided : AllDecided options env b.clauses)
    (hfallback : ∃ d, Evaluates options env b.fallback d) :
    ∃ parts, PartsOf options env b parts := by
  induction b using Branches.clauseInduction with
  | otherwise e =>
    obtain ⟨_, d, hd, -⟩ := hfallback
    exact ⟨⟨⟨[], []⟩, [], ⟨[], []⟩, d⟩, rfl, rfl, rfl, hd⟩
  | clause p c rest ih =>
    obtain ⟨hhead, htail⟩ := List.forall_mem_cons.1 hdecided
    obtain ⟨set, _, ⟨v, hv, hset⟩, w, hw, -⟩ := hhead
    obtain ⟨parts, hps, hsets, hcs, hd⟩ := ih htail hfallback
    refine ⟨⟨_, set :: parts.sets, _, parts.fallback⟩,
      predicates_clause_eq_ok.2 ⟨v, parts.predicates, hv, hps, rfl⟩, ?_,
      consequents_clause_eq_ok.2 ⟨w, parts.consequents, hw, hcs, rfl⟩, hd⟩
    change predicateSets? (v.value :: parts.predicates.value) = _
    rw [hset, predicateSets?, hsets]
    rfl

/-- Each set and value that are paired are those of a clause, and each clause has such a pair. -/
theorem PartsOf.mem_zip_iff {b : Branches} {parts : Parts} (h : PartsOf options env b parts)
    {set : BooleanSet} {a : AbstractValue} : (set, a) ∈ parts.sets.zip parts.consequents.value ↔
      ∃ clause ∈ b.clauses, Evaluates options env clause.1 (.boolean set) ∧
        Evaluates options env clause.2 a := by
  induction b using Branches.clauseInduction generalizing parts with
  | otherwise e =>
    obtain ⟨d, -, rfl⟩ := h.of_otherwise
    simp [Branches.clauses]
  | clause p c rest ih =>
    obtain ⟨v, set', w, tail, htail, rfl, hv, hset, hw⟩ := h.of_clause
    have hp : Evaluates options env p (.boolean set') := ⟨v, hv, hset⟩
    have hc : Evaluates options env c w.value := ⟨w, hw, rfl⟩
    change (set, a) ∈ (set', w.value) :: tail.sets.zip tail.consequents.value ↔
      ∃ clause ∈ (p, c) :: rest.clauses, _
    rw [List.mem_cons, ih htail, List.exists_mem_cons_iff, Prod.mk.injEq]
    refine or_congr_left ⟨?_, ?_⟩
    · rintro ⟨rfl, rfl⟩
      exact ⟨hp, hc⟩
    · rintro ⟨hset, ha⟩
      exact ⟨AbstractValue.boolean.inj (hset.unique hp), ha.unique hc⟩

theorem PartsOf.length_sets {b : Branches} {parts : Parts} (h : PartsOf options env b parts) :
    parts.consequents.value.length = parts.sets.length := by
  induction b using Branches.clauseInduction generalizing parts with
  | otherwise e =>
    obtain ⟨d, -, rfl⟩ := h.of_otherwise
    rfl
  | clause p c rest ih =>
    obtain ⟨v, set', w, tail, htail, rfl, -, -, -⟩ := h.of_clause
    exact congrArg (· + 1) (ih htail)

theorem PartsOf.allDecided {b : Branches} {parts : Parts} (h : PartsOf options env b parts) :
    AllDecided options env b.clauses := by
  induction b using Branches.clauseInduction generalizing parts with
  | otherwise e => exact List.forall_mem_nil _
  | clause p c rest ih =>
    obtain ⟨v, set, w, tail, htail, rfl, hv, hset, hw⟩ := h.of_clause
    exact List.forall_mem_cons.2 ⟨⟨set, w.value, ⟨v, hv, hset⟩, w, hw, rfl⟩, ih htail⟩

/-- The values of the consequents are those that the clauses have. -/
theorem PartsOf.mem_consequents_iff {b : Branches} {parts : Parts}
    (h : PartsOf options env b parts) {a : AbstractValue} : a ∈ parts.consequents.value ↔
      ∃ clause ∈ b.clauses, Evaluates options env clause.2 a := by
  constructor
  · intro ha
    rw [← List.map_snd_zip h.length_sets.le] at ha
    obtain ⟨⟨set, a⟩, hmem, rfl⟩ := List.mem_map.1 ha
    obtain ⟨clause, hclause, -, ha⟩ := h.mem_zip_iff.1 hmem
    exact ⟨clause, hclause, ha⟩
  · rintro ⟨clause, hclause, ha⟩
    obtain ⟨set, b, hset, hb⟩ := h.allDecided clause hclause
    obtain rfl := ha.unique hb
    exact (List.of_mem_zip (h.mem_zip_iff.2 ⟨clause, hclause, hset, hb⟩)).2

/-! ### The value of a `when` expression -/

theorem merges_parts (henv : env.Each (·.Admits Interval.WellFormed)) {b : Branches}
    {parts : Parts} (h : PartsOf options env b parts) :
    Merges options env b.clauses b.fallback (parts.chosen b).value := by
  have hfallback : Evaluates options env b.fallback parts.fallback.value :=
    ⟨parts.fallback, fallback_eq b ▸ h.fallback_ok, rfl⟩
  have hvalue : (parts.chosen b).value = _ :=
    value_select parts.sets (length_consequents b h.consequents_ok)
  rw [hvalue]
  split
  · next hsame =>
    refine .united h.allDecided hfallback hsame.1
      (fun clause hclause c hc => hsame.2 c (h.mem_consequents_iff.2 ⟨clause, hclause, hc⟩))
      fun w => ?_
    obtain ⟨hcs, hd⟩ := admits_parts Soundness.closed_wellFormed henv b h
    rw [encloses_unite_iff w parts.sets hd hcs fun c hc => (hsame.2 c hc).symm]
    refine and_congr_right fun _ => ⟨?_, ?_⟩
    · rintro hall c ⟨clause, hclause, set, hset, htrue, hc⟩
      exact hall set c (h.mem_zip_iff.2 ⟨clause, hclause, hset, hc⟩) htrue
    · intro hall set c hmem htrue
      obtain ⟨clause, hclause, hset, hc⟩ := h.mem_zip_iff.1 hmem
      exact hall c ⟨clause, hclause, set, hset, htrue, hc⟩
  · next hsame =>
    refine .mixed h.allDecided hfallback fun hdefined => ?_
    by_contra hnone
    refine hsame ⟨hdefined, fun c hc => ?_⟩
    by_contra hne
    obtain ⟨clause, hclause, hc⟩ := h.mem_consequents_iff.1 hc
    exact hnone ⟨clause, hclause, c, hc, hne⟩

/-- A `when` expression has what its clauses and its `otherwise` merge to. -/
theorem merges_of_evaluates (henv : env.Each (·.Admits Interval.WellFormed)) {span : Text.Span}
    {b : Branches} {a : AbstractValue} (h : Evaluates options env (.choose span b) a) :
    Merges options env b.clauses b.fallback a := by
  obtain ⟨o, ho, rfl⟩ := h
  obtain ⟨ps, hps, hnone, rfl⟩ | ⟨parts, hparts, rfl⟩ := eval_choose_eq_ok.1 ho
  · obtain ⟨clause, hclause, a, ha, hopen⟩ := (predicateSets?_eq_none_iff hps).1 hnone
    exact .undecided (evaluates_of_predicates hps) hclause ha hopen
  · exact merges_parts henv hparts

/-- Clauses that merge to something are those of a `when` expression that is evaluated. -/
theorem Merges.exists_evaluates {b : Branches} {a : AbstractValue}
    (h : Merges options env b.clauses b.fallback a) (span : Text.Span) :
    ∃ a', Evaluates options env (.choose span b) a' := by
  have hdecided : AllDecided options env b.clauses → (∃ d, Evaluates options env b.fallback d) →
      ∃ a', Evaluates options env (.choose span b) a' := by
    intro hdecided hfallback
    obtain ⟨parts, hparts⟩ := exists_parts hdecided hfallback
    exact ⟨_, _, eval_choose_eq_ok.2 (.inr ⟨parts, hparts, rfl⟩), rfl⟩
  cases h with
  | undecided evaluated mem value hopen =>
    obtain ⟨ps, hps⟩ := exists_predicates evaluated
    have hnone := (predicateSets?_eq_none_iff hps).2 ⟨_, mem, _, value, hopen⟩
    exact ⟨_, _, eval_choose_eq_ok.2 (.inl ⟨ps, hps, hnone, rfl⟩), rfl⟩
  | mixed decided fallback => exact hdecided decided ⟨_, fallback⟩
  | united decided fallback => exact hdecided decided ⟨_, fallback⟩

end Abstract

end RangeRules
