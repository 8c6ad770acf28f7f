import RangeRules.Evaluation.Abstract
import RangeRules.Evaluation.Concrete

/-!
# What evaluators do at each node

One equivalence for every node at which an evaluator goes on to other nodes: which evaluations must
succeed, and what it makes of their results. Proofs about evaluation start from these and do not
unfold an evaluator again.
-/
namespace RangeRules

/-- A step that goes on succeeds if both halves do. -/
theorem then_eq_ok {E A B : Type} {first : Except E A} {next : A → Except E B} {result : B} :
    first >>= next = .ok result ↔ ∃ a, first = .ok a ∧ next a = .ok result := by
  cases first with
  | error c => exact ⟨nofun, fun h => nomatch h⟩
  | ok a => exact ⟨fun h => ⟨a, rfl, h⟩, fun ⟨b, hb, h⟩ => Except.ok.inj hb ▸ h⟩

/-- It fails if a half does. -/
theorem then_eq_error {E A B : Type} {first : Except E A} {next : A → Except E B} {e : E} :
    first >>= next = .error e ↔ first = .error e ∨ ∃ a, first = .ok a ∧ next a = .error e := by
  cases first with
  | error c =>
    constructor
    · intro h
      exact .inl (congrArg Except.error (Except.error.inj h))
    · rintro (h | ⟨a, ha, -⟩)
      · exact congrArg Except.error (Except.error.inj h)
      · exact nomatch ha
  | ok a =>
    constructor
    · intro h
      exact .inr ⟨a, rfl, h⟩
    · rintro (h | ⟨b, hb, h⟩)
      · exact nomatch h
      · exact Except.ok.inj hb ▸ h

theorem ok_of_toOption {E A : Type} {x : Except E A} {a : A} (h : x.toOption = some a) :
    x = .ok a := by
  cases x with
  | error e => exact nomatch h
  | ok b => exact congrArg Except.ok (Option.some.inj h)

theorem require_eq_ok {V : Type} {value : Option V} {c : ContractViolation} {o : Outcome V} :
    require value c = .ok o ↔ ∃ v, value = some v ∧ o = ⟨v, []⟩ := by
  cases value with
  | none => simp [require]
  | some v => simp [require, eq_comm]

namespace Concrete

variable {env : Environment Value} {o : Outcome Value}

theorem eval_operate_eq_ok {span : Text.Span} {op : Operator} {left right : Expr} :
    eval env (.operate span op left right) = .ok o ↔ ∃ l r,
      eval env left = .ok l ∧ eval env right = .ok r ∧
      o = ⟨(operate span op left.span right.span l.value r.value).value,
        l.findings ++ r.findings ++
          (operate span op left.span right.span l.value r.value).findings⟩ := by
  rw [eval]
  simp only [then_eq_ok]
  constructor
  · rintro ⟨l, hl, r, hr, h⟩
    exact ⟨l, r, hl, hr, (Except.ok.inj h).symm⟩
  · rintro ⟨l, r, hl, hr, rfl⟩
    exact ⟨l, hl, r, hr, rfl⟩

/-- What a clause contributes after its predicate: its consequent, the other clauses or nothing. -/
inductive Chooses (env : Environment Value) (predicate consequent : Expr) (rest : Branches)
    (p : Outcome Value) : Outcome Value → Prop where
  | consequent {c : Outcome Value} (holds : p.value = .boolean true)
      (ok : eval env consequent = .ok c) :
    Chooses env predicate consequent rest p ⟨c.value, p.findings ++ c.findings⟩
  | rest {r : Outcome Value} (fails : p.value = .boolean false) (ok : choose env rest = .ok r) :
    Chooses env predicate consequent rest p ⟨r.value, p.findings ++ r.findings⟩
  | undefined (unknown : p.value = .undefined) :
    Chooses env predicate consequent rest p ⟨.undefined, p.findings⟩
  | mismatch {x : Number} (number : p.value = .number x) :
    Chooses env predicate consequent rest p
      ⟨.undefined, p.findings ++ [⟨.predicateNotBoolean .number, predicate.span, predicate.span⟩]⟩

theorem choose_clause_eq_ok {predicate consequent : Expr} {rest : Branches} :
    choose env (.clause predicate consequent rest) = .ok o ↔ ∃ p,
      eval env predicate = .ok p ∧ Chooses env predicate consequent rest p o := by
  rw [choose, then_eq_ok]
  refine exists_congr fun p => and_congr_right fun _ => ?_
  constructor
  · intro h
    rcases hp : p.value with x | (_ | _) | _ <;> simp only [hp] at h
    · obtain rfl := Except.ok.inj h
      exact .mismatch hp
    · obtain ⟨r, hr, h⟩ := then_eq_ok.1 h
      obtain rfl := Except.ok.inj h
      exact .rest hp hr
    · obtain ⟨c, hc, h⟩ := then_eq_ok.1 h
      obtain rfl := Except.ok.inj h
      exact .consequent hp hc
    · obtain rfl := Except.ok.inj h
      exact .undefined hp
  · intro h
    cases h with
    | consequent holds ok => simp only [holds, ok]; rfl
    | rest fails ok => simp only [fails, ok]; rfl
    | undefined unknown => simp only [unknown]; rfl
    | mismatch number => simp only [number]; rfl

end Concrete

theorem AbstractValue.type_union {a b : AbstractValue} (h : a.type = b.type) :
    (a.union b).type = a.type := by
  cases a <;> cases b <;> first | rfl | exact nomatch h

namespace Abstract

variable {options : AnalysisOptions} {env : Environment AbstractValue}

theorem eval_number_eq_ok {span : Text.Span} {x : Number} {o : Outcome AbstractValue} :
    eval options env (.number span x) = .ok o ↔
      ∃ i, Interval.make? x x = .ok i ∧ o = ⟨.interval i, []⟩ := by
  rw [eval]
  cases Interval.make? x x with
  | error e => simp
  | ok i => simp [eq_comm]

theorem eval_operate_eq_ok {span : Text.Span} {op : Operator} {left right : Expr}
    {o : Outcome AbstractValue} :
    eval options env (.operate span op left right) = .ok o ↔ ∃ l r,
      eval options env left = .ok l ∧ eval options env right = .ok r ∧
      o = ⟨(operate options op left.span right.span l.value r.value).value,
        l.findings ++ r.findings ++
          (operate options op left.span right.span l.value r.value).findings⟩ := by
  rw [eval]
  simp only [then_eq_ok]
  constructor
  · rintro ⟨l, hl, r, hr, h⟩
    exact ⟨l, r, hl, hr, (Except.ok.inj h).symm⟩
  · rintro ⟨l, r, hl, hr, rfl⟩
    exact ⟨l, hl, r, hr, rfl⟩

theorem predicates_clause_eq_ok {predicate consequent : Expr} {rest : Branches}
    {o : Outcome (List AbstractValue)} :
    predicates options env (.clause predicate consequent rest) = .ok o ↔ ∃ v vs,
      eval options env predicate = .ok v ∧ predicates options env rest = .ok vs ∧
      o = ⟨v.value :: vs.value,
        v.findings ++ predicateFindings predicate.span v.value ++ vs.findings⟩ := by
  rw [predicates]
  simp only [then_eq_ok]
  constructor
  · rintro ⟨v, hv, vs, hvs, h⟩
    exact ⟨v, vs, hv, hvs, (Except.ok.inj h).symm⟩
  · rintro ⟨v, vs, hv, hvs, rfl⟩
    exact ⟨v, hv, vs, hvs, rfl⟩

theorem consequents_clause_eq_ok {predicate consequent : Expr} {rest : Branches}
    {o : Outcome (List AbstractValue)} :
    consequents options env (.clause predicate consequent rest) = .ok o ↔ ∃ v vs,
      eval options env consequent = .ok v ∧ consequents options env rest = .ok vs ∧
      o = ⟨v.value :: vs.value, v.findings ++ vs.findings⟩ := by
  rw [consequents]
  simp only [then_eq_ok]
  constructor
  · rintro ⟨v, hv, vs, hvs, h⟩
    exact ⟨v, vs, hv, hvs, (Except.ok.inj h).symm⟩
  · rintro ⟨v, vs, hv, hvs, rfl⟩
    exact ⟨v, hv, vs, hvs, rfl⟩

/-- The evaluated parts of a `when` expression whose predicates are sets of booleans. -/
structure Parts where
  predicates : Outcome (List AbstractValue)
  sets : List BooleanSet
  consequents : Outcome (List AbstractValue)
  fallback : Outcome AbstractValue

/-- The parts are what some branches are evaluated to. -/
structure PartsOf (options : AnalysisOptions) (env : Environment AbstractValue)
    (branches : Branches) (parts : Parts) : Prop where
  predicates_ok : predicates options env branches = .ok parts.predicates
  sets_eq : predicateSets? parts.predicates.value = some parts.sets
  consequents_ok : consequents options env branches = .ok parts.consequents
  fallback_ok : fallback options env branches = .ok parts.fallback

namespace Parts

/-- What the parts of a `when` expression are put together to. -/
def chosen (parts : Parts) (branches : Branches) : Outcome AbstractValue :=
  select branches parts.sets parts.consequents.value parts.fallback.value

/-- The outcome of a `when` expression with the given parts. -/
def outcome (parts : Parts) (options : AnalysisOptions) (branches : Branches) :
    Outcome AbstractValue :=
  ⟨(parts.chosen branches).value,
    parts.predicates.findings ++
      (unreachableFindings branches parts.sets ++
        otherwiseFindings options branches parts.sets) ++
      parts.consequents.findings ++ parts.fallback.findings ++ (parts.chosen branches).findings⟩

/-- Parts with one more clause before them, whose predicate is the given set. -/
def cons (predicate : Outcome AbstractValue) (set : BooleanSet)
    (consequent : Outcome AbstractValue) (parts : Parts) : Parts where
  predicates := ⟨predicate.value :: parts.predicates.value,
    predicate.findings ++ parts.predicates.findings⟩
  sets := set :: parts.sets
  consequents := ⟨consequent.value :: parts.consequents.value,
    consequent.findings ++ parts.consequents.findings⟩
  fallback := parts.fallback

end Parts

theorem eval_choose_eq_ok {span : Text.Span} {branches : Branches} {o : Outcome AbstractValue} :
    eval options env (.choose span branches) = .ok o ↔
      (∃ ps, predicates options env branches = .ok ps ∧ predicateSets? ps.value = none ∧
        o = ⟨.undefined, ps.findings⟩) ∨
      ∃ parts, PartsOf options env branches parts ∧ o = parts.outcome options branches := by
  rw [eval, then_eq_ok]
  constructor
  · rintro ⟨ps, hps, h⟩
    rcases hsets : predicateSets? ps.value with _ | sets <;> simp only [hsets] at h
    · exact .inl ⟨ps, hps, hsets, (Except.ok.inj h).symm⟩
    · obtain ⟨cs, hcs, h⟩ := then_eq_ok.1 h
      obtain ⟨d, hd, h⟩ := then_eq_ok.1 h
      exact .inr ⟨⟨ps, sets, cs, d⟩, ⟨hps, hsets, hcs, hd⟩, (Except.ok.inj h).symm⟩
  · rintro (⟨ps, hps, hsets, rfl⟩ | ⟨parts, h, rfl⟩)
    · exact ⟨ps, hps, by simp only [hsets]; rfl⟩
    · refine ⟨parts.predicates, h.predicates_ok, ?_⟩
      simp only [h.sets_eq, h.consequents_ok, h.fallback_ok]
      rfl

namespace PartsOf

/-- Branches without a clause have no parts but the fallback. -/
theorem of_otherwise {e : Expr} {parts : Parts} (h : PartsOf options env (.otherwise e) parts) :
    ∃ d, eval options env e = .ok d ∧ parts = ⟨⟨[], []⟩, [], ⟨[], []⟩, d⟩ := by
  obtain ⟨ps, sets, cs, d⟩ := parts
  obtain ⟨hps, hsets, hcs, hd⟩ := h
  rw [predicates] at hps
  rw [consequents] at hcs
  rw [fallback] at hd
  obtain rfl := Except.ok.inj hps
  obtain rfl := Except.ok.inj hcs
  obtain rfl := Option.some.inj hsets
  exact ⟨d, hd, rfl⟩

/-- The parts of branches are those of the first clause and those of the others. -/
theorem of_clause {predicate consequent : Expr} {rest : Branches} {parts : Parts}
    (h : PartsOf options env (.clause predicate consequent rest) parts) :
    ∃ v set w tail, PartsOf options env rest tail ∧ parts = tail.cons v set w ∧
      eval options env predicate = .ok v ∧ v.value = .boolean set ∧
      eval options env consequent = .ok w := by
  obtain ⟨ps, sets, cs, d⟩ := parts
  obtain ⟨hps, hsets, hcs, hd⟩ := h
  obtain ⟨v, vs, hv, hvs, rfl⟩ := predicates_clause_eq_ok.1 hps
  obtain ⟨w, ws, hw, hws, rfl⟩ := consequents_clause_eq_ok.1 hcs
  rw [fallback] at hd
  dsimp only at hsets
  obtain ⟨a, fs⟩ := v
  cases a with
  | interval i => exact nomatch hsets
  | undefined => exact nomatch hsets
  | boolean set =>
    rw [predicateSets?, Option.map_eq_some_iff] at hsets
    obtain ⟨tail, htail, rfl⟩ := hsets
    refine ⟨⟨.boolean set, fs⟩, set, w, ⟨vs, tail, ws, d⟩, ⟨hvs, htail, hws, hd⟩, ?_, hv, rfl, hw⟩
    simp [Parts.cons, predicateFindings]

end PartsOf

/-- One value for each clause. -/
theorem length_consequents : ∀ (branches : Branches) {o : Outcome (List AbstractValue)},
    consequents options env branches = .ok o → o.value.length = branches.clauses.length
  | .otherwise _, _, h => by
    rw [consequents] at h
    obtain rfl := Except.ok.inj h
    rfl
  | .clause _ _ rest, _, h => by
    obtain ⟨v, vs, -, hvs, rfl⟩ := consequents_clause_eq_ok.1 h
    simp [Branches.clauses, length_consequents rest hvs]

theorem unite_cons (set : BooleanSet) (sets : List BooleanSet) (value d : AbstractValue)
    (values : List AbstractValue) :
    unite (set :: sets) (value :: values) d =
      unite sets values (if set.contains true then d.union value else d) :=
  rfl

/-- Descriptions of one type unite to that type. -/
theorem type_unite (sets : List BooleanSet) {values : List AbstractValue} {d : AbstractValue}
    (htype : ∀ a ∈ values, d.type = a.type) : (unite sets values d).type = d.type := by
  induction sets generalizing values d with
  | nil => rfl
  | cons set sets ih =>
    cases values with
    | nil => rfl
    | cons value values =>
      have hhead := htype value List.mem_cons_self
      have htail : ∀ a ∈ values, d.type = a.type := fun a ha =>
        htype a (List.mem_cons_of_mem _ ha)
      rw [unite_cons]
      split
      · have hunion := AbstractValue.type_union hhead
        exact (ih fun a ha => hunion.trans (htail a ha)).trans hunion
      · exact ih htail

/-- What may become of the values of the consequents of a `when` expression. -/
inductive Selects (predicates : List BooleanSet) (consequents : List AbstractValue)
    (otherwise : AbstractValue) : Outcome AbstractValue → Prop where
  | undefined {a : AbstractValue} (mem : a ∈ consequents ++ [otherwise])
      (undefined : a.isUndefined = true) :
    Selects predicates consequents otherwise ⟨.undefined, []⟩
  | mismatch (expected found : ValueType) (span : Text.Span) :
    Selects predicates consequents otherwise
      ⟨.undefined, [⟨.consequentTypeMismatch expected found, span, span⟩]⟩
  | united (defined : ∀ a ∈ consequents ++ [otherwise], a.isUndefined = false)
      (type_eq : ∀ a ∈ consequents, otherwise.type = a.type) :
    Selects predicates consequents otherwise ⟨unite predicates consequents otherwise, []⟩

theorem firstMismatch?_eq_none {type : ValueType} {values : List AbstractValue}
    {spans : List Text.Span} (hlength : values.length ≤ spans.length)
    (h : firstMismatch? type (values.zip spans) = none) : ∀ a ∈ values, a.type = type := by
  intro a ha
  rw [← List.map_fst_zip hlength, List.mem_map] at ha
  obtain ⟨⟨a, span⟩, hmem, rfl⟩ := ha
  unfold firstMismatch? at h
  rw [List.find?_eq_none] at h
  simpa using h _ hmem

private theorem selects_select {branches : Branches} {predicates : List BooleanSet}
    {consequents : List AbstractValue} {otherwise : AbstractValue}
    (hlength : consequents.length = branches.clauses.length) :
    Selects predicates consequents otherwise
      (select branches predicates consequents otherwise) := by
  unfold select
  dsimp only
  split
  · next h =>
    obtain ⟨a, hmem, ha⟩ := List.any_eq_true.1 h
    exact .undefined hmem ha
  · next h =>
    split
    · exact .mismatch ..
    · next hnone =>
      have hspans : (consequents ++ [otherwise]).length ≤ (consequentSpans branches).length := by
        simp [consequentSpans, hlength]
      have htype := firstMismatch?_eq_none hspans hnone
      refine .united (fun a ha => ?_) fun a ha => ?_
      · rw [← Bool.not_eq_true]
        exact fun hundefined => h (List.any_eq_true.2 ⟨a, ha, hundefined⟩)
      · rw [htype otherwise (by simp), htype a (by simp [ha])]

theorem PartsOf.selects {branches : Branches} {parts : Parts}
    (h : PartsOf options env branches parts) :
    Selects parts.sets parts.consequents.value parts.fallback.value (parts.chosen branches) :=
  selects_select (length_consequents branches h.consequents_ok)

end Abstract

end RangeRules
