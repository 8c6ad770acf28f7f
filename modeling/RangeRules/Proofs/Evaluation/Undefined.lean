import RangeRules.Proofs.Evaluation.Clean
import RangeRules.Proofs.Evaluation.Statements
import RangeRules.Proofs.Program.Layout

/-!
# What is undefined, and why

A statement of a run is undefined exactly if an error was found in it, or something undefined was
read: an error leaves its part undefined, so does everything that is made of an undefined part, and
nothing else does. No problem of type is ever due to a part that is undefined itself. Both hold on
values and on descriptions, which visit the nodes of a `when` expression in different orders.
-/
namespace RangeRules

/-- The type that a problem of type finds in the part that it concerns. -/
def Problem.found? : Problem → Option ValueType
  | .predicateNotBoolean found | .consequentTypeMismatch _ found
  | .nonNumericOperand _ found => some found
  | .unreachableClause | .unreachableOtherwise | .precisionLoss | .divisionByZero => none

theorem Problem.severity_of_found {problem : Problem} {found : ValueType}
    (h : problem.found? = some found) : problem.severity = .error := by
  cases problem <;> first | rfl | exact nomatch h

/-- The problem of type concerns the second expression, a part of the first. -/
inductive Problem.Concerns : Problem → Expr → Expr → Prop where
  | left {op : Operator} {found : ValueType} {span : Text.Span} (left right : Expr) :
    Concerns (.nonNumericOperand op found) (.operate span op left right) left
  | right {op : Operator} {found : ValueType} {span : Text.Span} (left right : Expr) :
    Concerns (.nonNumericOperand op found) (.operate span op left right) right
  | predicate {found : ValueType} {span : Text.Span} {b : Branches} {p c : Expr}
    (clause : (p, c) ∈ b.clauses) : Concerns (.predicateNotBoolean found) (.choose span b) p
  | consequent {expected found : ValueType} {span : Text.Span} {b : Branches} {p c : Expr}
    (clause : (p, c) ∈ b.clauses) :
    Concerns (.consequentTypeMismatch expected found) (.choose span b) c
  | otherwise {expected found : ValueType} {span : Text.Span} (b : Branches) :
    Concerns (.consequentTypeMismatch expected found) (.choose span b) b.fallback

theorem Problem.Concerns.mem_nodes {problem : Problem} {node part : Expr}
    (h : problem.Concerns node part) : part ∈ node.nodes := by
  cases h with
  | left => exact Expr.nodes_left_subset _ _ _ _ (Expr.self_mem_nodes _)
  | right => exact Expr.nodes_right_subset _ _ _ _ (Expr.self_mem_nodes _)
  | predicate clause => exact Expr.parts_choose_subset _ _ (Branches.clause_mem_parts clause).1
  | consequent clause => exact Expr.parts_choose_subset _ _ (Branches.clause_mem_parts clause).2
  | otherwise b => exact Expr.parts_choose_subset _ _ b.fallback_mem_parts

/-- An evaluator, with the types of its values and the nodes that it visits on its way. -/
structure Semantics (V : Type) where
  eval : Evaluator V
  type : V → ValueType
  Visits : Environment V → Expr → Expr → Prop

def Concrete.semantics : Semantics Value := ⟨Concrete.eval, Value.type, Concrete.Visits⟩

def Abstract.semantics (options : AnalysisOptions) : Semantics AbstractValue :=
  ⟨Abstract.eval options, AbstractValue.type, Abstract.Visits options⟩

namespace Semantics

variable {V : Type}

/-- A finding is due to a part of a visited node: it is at its place, quoting it, and names its
type. -/
structure DueTo (S : Semantics V) (env : Environment V) (e : Expr) (f : Finding)
    (found : ValueType) (part : Expr) : Prop where
  visited : ∃ node, S.Visits env e node ∧ f.problem.Concerns node part
  is_at : f.IsAt part.span
  type_eq : ∃ o, S.eval env part = .ok o ∧ S.type o.value = found
  defined : found ≠ .undefined

/-- What is found in an operand is due to it. -/
theorem exists_dueTo_operand {S : Semantics V} {env : Environment V} {e left right : Expr}
    {span : Text.Span} {op : Operator} {f : Finding} {found : ValueType} {l r : Outcome V}
    (hvisits : S.Visits env e (.operate span op left right))
    (hl : S.eval env left = .ok l) (hr : S.eval env right = .ok r)
    (hproblem : f.problem = .nonNumericOperand op found) (hdefined : found ≠ .undefined)
    (hpart : (f.IsAt left.span ∧ S.type l.value = found) ∨
      (f.IsAt right.span ∧ S.type r.value = found)) : ∃ part, S.DueTo env e f found part := by
  obtain ⟨hat, htype⟩ | ⟨hat, htype⟩ := hpart
  · exact ⟨left, ⟨_, hvisits, hproblem ▸ .left left right⟩, hat, ⟨l, hl, htype⟩, hdefined⟩
  · exact ⟨right, ⟨_, hvisits, hproblem ▸ .right left right⟩, hat, ⟨r, hr, htype⟩, hdefined⟩

/-- What is undefined comes with an error, and is not the cause of another. -/
structure Strict (S : Semantics V) : Prop where
  visits_nodes : ∀ {env e n}, S.Visits env e n → n ∈ e.nodes
  /-- What is visited is evaluated, and what is found there is found in the whole. -/
  exists_eval : ∀ {env e n o}, S.Visits env e n → S.eval env e = .ok o →
    ∃ o', S.eval env n = .ok o' ∧ o'.findings ⊆ o.findings
  undefined_iff : ∀ {env e o}, S.eval env e = .ok o → (S.type o.value = .undefined ↔
    (∃ f ∈ o.findings, f.problem.severity = .error) ∨
      ∃ n, S.Visits env e n ∧ n.ReadsUndefined S.type env)
  exists_part : ∀ {env e o f found}, S.eval env e = .ok o → f ∈ o.findings →
    f.problem.found? = some found → ∃ part, S.DueTo env e f found part

end Semantics

/-- The two sides of one fact, of what is defined and of what is not. -/
theorem undefined_iff_of_defined_iff {type : ValueType} {findings : List Finding}
    {reads : Expr → Prop} {undefined : Expr → Prop}
    (h : type ≠ .undefined ↔ Clean findings ∧ ∀ n, reads n → ¬ undefined n) :
    type = .undefined ↔ (∃ f ∈ findings, f.problem.severity = .error) ∨
      ∃ n, reads n ∧ undefined n := by
  rw [← not_iff_not, ← ne_eq, h, not_or]
  unfold Clean
  push Not
  rfl

/-! ### On values -/

namespace Concrete

variable {env : Environment Value}

abbrev Defined (v : Value) : Prop := v.type ≠ .undefined

theorem defined_compute {span : Text.Span} {op : Operator} {x y : Number} :
    Defined (compute span op x y).value ↔ Clean (compute span op x y).findings := by
  unfold compute
  cases op with
  | comparison op => exact ⟨fun _ => nofun, fun _ => nofun⟩
  | arithmetic op =>
    dsimp only
    split
    · exact ⟨fun _ => nofun, fun _ => nofun⟩
    · exact ⟨fun h => absurd rfl h, fun h => absurd h (not_clean_singleton rfl)⟩

/-- An operator gives what is defined if both operands are, and it finds no error in them. -/
theorem defined_operate {span leftSpan rightSpan : Text.Span} {op : Operator} {a b : Value} :
    Defined (operate span op leftSpan rightSpan a b).value ↔ Defined a ∧ Defined b ∧
      Clean (operate span op leftSpan rightSpan a b).findings := by
  have hmismatch : ∀ {f : Finding}, f.problem.severity = .error →
      (Defined .undefined ↔ Defined a ∧ Defined b ∧ Clean [f]) := fun hseverity =>
    ⟨fun h => absurd rfl h, fun h => absurd h.2.2 (not_clean_singleton hseverity)⟩
  cases a with
  | undefined => exact ⟨fun h => by cases b <;> exact absurd rfl h, fun h => absurd rfl h.1⟩
  | number x =>
    cases b with
    | undefined => exact ⟨fun h => absurd rfl h, fun h => absurd rfl h.2.1⟩
    | boolean c => exact hmismatch rfl
    | number y =>
      refine defined_compute.trans ⟨fun h => ⟨nofun, nofun, h⟩, fun h => h.2.2⟩
  | boolean c =>
    cases b with
    | undefined => exact ⟨fun h => absurd rfl h, fun h => absurd rfl h.2.1⟩
    | _ => exact hmismatch rfl

mutual

/-- The value is defined exactly if there is no error, and nothing undefined is read. -/
theorem defined_eval : ∀ (e : Expr) {o : Outcome Value}, eval env e = .ok o →
    (Defined o.value ↔ Clean o.findings ∧
      ∀ n, Visits env e n → ¬ n.ReadsUndefined Value.type env)
  | .number .., _, h | .boolean .., _, h => by
    obtain rfl := Except.ok.inj h
    refine ⟨fun _ => ⟨nofun, fun n hn => ?_⟩, fun _ => nofun⟩
    cases hn
    exact id
  | .source .., _, h | .variable .., _, h => by
    obtain ⟨v, hv, rfl⟩ := require_eq_ok.1 h
    refine ⟨fun hdefined => ⟨nofun, fun n hn => ?_⟩, fun h hundefined => ?_⟩
    · cases hn
      rintro ⟨w, hw, hundefined⟩
      obtain rfl := Option.some.inj (hv.symm.trans hw)
      exact hdefined hundefined
    · exact h.2 _ (.self _) ⟨v, hv, hundefined⟩
  | .operate span op left right, _, h => by
    obtain ⟨l, r, hl, hr, rfl⟩ := eval_operate_eq_ok.1 h
    rw [defined_operate, defined_eval left hl, defined_eval right hr, clean_append, clean_append]
    constructor
    · rintro ⟨⟨hcl, hreadl⟩, ⟨hcr, hreadr⟩, hco⟩
      refine ⟨⟨⟨hcl, hcr⟩, hco⟩, fun n hn => ?_⟩
      cases hn with
      | self => exact id
      | left hn => exact hreadl n hn
      | right hn => exact hreadr n hn
    · rintro ⟨⟨⟨hcl, hcr⟩, hco⟩, hreads⟩
      exact ⟨⟨hcl, fun n hn => hreads n (.left hn)⟩, ⟨hcr, fun n hn => hreads n (.right hn)⟩, hco⟩
  | .choose span branches, _, h => by
    rw [defined_choose branches h]
    refine and_congr_right fun _ => ⟨fun hreads n hn => ?_, fun hreads n hn => ?_⟩
    · cases hn with
      | self => exact id
      | choose hn => exact hreads n hn
    · exact hreads n (.choose hn)

theorem defined_choose : ∀ (b : Branches) {o : Outcome Value}, choose env b = .ok o →
    (Defined o.value ↔ Clean o.findings ∧
      ∀ n, VisitsBranches env b n → ¬ n.ReadsUndefined Value.type env)
  | .otherwise e, _, h => by
    rw [defined_eval e h]
    refine and_congr_right fun _ => ⟨fun hreads n hn => ?_, fun hreads n hn => ?_⟩
    · cases hn with
      | otherwise hn => exact hreads n hn
    · exact hreads n (.otherwise hn)
  | .clause p c rest, _, h => by
    obtain ⟨v, hv, hchooses⟩ := choose_clause_eq_ok.1 h
    have hp := defined_eval p hv
    -- The predicate is visited in any case, so without an error in the whole it is defined.
    have hpart : ∀ {fs : List Finding},
        (Clean (v.findings ++ fs) ∧
          ∀ n, VisitsBranches env (.clause p c rest) n → ¬ n.ReadsUndefined Value.type env) →
        Defined v.value := fun h =>
      hp.2 ⟨(clean_append.1 h.1).1, fun n hn => h.2 n (.predicate hn)⟩
    cases hchooses with
    | undefined unknown =>
      refine ⟨fun h => absurd rfl h, fun h => ?_⟩
      rw [← List.append_nil v.findings] at h
      exact absurd (congrArg Value.type unknown) (hpart h)
    | mismatch number =>
      exact ⟨fun h => absurd rfl h, fun h =>
        absurd (clean_append.1 h.1).2 (not_clean_singleton rfl)⟩
    | consequent holds hw =>
      have hdefined : Defined v.value := holds ▸ nofun
      obtain ⟨hclean, hread⟩ := hp.1 hdefined
      rw [defined_eval c hw, clean_append]
      refine ⟨fun h => ⟨⟨hclean, h.1⟩, fun n hn => ?_⟩, fun h =>
        ⟨h.1.2, fun n hn => h.2 n (.consequent hv holds hn)⟩⟩
      cases hn with
      | predicate hn => exact hread n hn
      | consequent _ _ hn => exact h.2 n hn
      | rest ok fails hn =>
        obtain rfl := Except.ok.inj (hv.symm.trans ok)
        exact nomatch holds.symm.trans fails
    | rest fails hr =>
      have hdefined : Defined v.value := fails ▸ nofun
      obtain ⟨hclean, hread⟩ := hp.1 hdefined
      rw [defined_choose rest hr, clean_append]
      refine ⟨fun h => ⟨⟨hclean, h.1⟩, fun n hn => ?_⟩, fun h =>
        ⟨h.1.2, fun n hn => h.2 n (.rest hv fails hn)⟩⟩
      cases hn with
      | predicate hn => exact hread n hn
      | rest _ _ hn => exact h.2 n hn
      | consequent ok holds hn =>
        obtain rfl := Except.ok.inj (hv.symm.trans ok)
        exact nomatch fails.symm.trans holds

end

/-- An operator blames an operand for its type, which is defined, or itself for a division. -/
theorem of_mem_operate {span leftSpan rightSpan : Text.Span} {op : Operator} {a b : Value}
    {f : Finding} (hf : f ∈ (operate span op leftSpan rightSpan a b).findings) :
    (∃ found, f.problem = .nonNumericOperand op found ∧ found ≠ .undefined ∧
      ((f.IsAt leftSpan ∧ a.type = found) ∨ (f.IsAt rightSpan ∧ b.type = found))) ∨
      f = ⟨.divisionByZero, span, span⟩ := by
  cases a with
  | undefined => cases b <;> exact absurd hf List.not_mem_nil
  | number x =>
    cases b with
    | undefined => exact absurd hf List.not_mem_nil
    | boolean c =>
      obtain rfl := List.mem_singleton.1 hf
      exact .inl ⟨_, rfl, nofun, .inr ⟨⟨rfl, rfl⟩, rfl⟩⟩
    | number y =>
      simp only [operate, compute] at hf
      split at hf
      · exact absurd hf List.not_mem_nil
      · split at hf
        · exact absurd hf List.not_mem_nil
        · exact .inr (List.mem_singleton.1 hf)
  | boolean c =>
    cases b with
    | undefined => exact absurd hf List.not_mem_nil
    | _ =>
      obtain rfl := List.mem_singleton.1 hf
      exact .inl ⟨_, rfl, nofun, .inl ⟨⟨rfl, rfl⟩, rfl⟩⟩

/-- A problem of type is due to some part that was evaluated to something else. -/
theorem exists_part {e : Expr} {o : Outcome Value} {f : Finding} {found : ValueType}
    (h : eval env e = .ok o) (hf : f ∈ o.findings) (hfound : f.problem.found? = some found) :
    ∃ part, semantics.DueTo env e f found part := by
  obtain ⟨n, hvisits, hn⟩ := arises_of_eval e h hf
  cases hn with
  | @operate span op left right l r hl hr hmem =>
    obtain ⟨type, hproblem, hdefined, hpart⟩ | rfl := of_mem_operate hmem
    · rw [hproblem] at hfound
      obtain rfl := Option.some.inj hfound
      exact Semantics.exists_dueTo_operand hvisits hl hr hproblem hdefined hpart
    · exact nomatch hfound
  | @predicate span branches p c v x hclause hv hnumber heq =>
    subst heq
    obtain rfl := Option.some.inj hfound
    exact ⟨p, ⟨_, hvisits, .predicate hclause⟩, ⟨rfl, rfl⟩,
      ⟨v, hv, congrArg Value.type hnumber⟩, nofun⟩

theorem strict_semantics : semantics.Strict where
  visits_nodes := Visits.mem_nodes
  exists_eval hn h := hn.exists_eval h
  undefined_iff h := undefined_iff_of_defined_iff (defined_eval _ h)
  exists_part := exists_part

end Concrete

/-! ### On descriptions -/

namespace Abstract

variable {options : AnalysisOptions} {env : Environment AbstractValue}

theorem of_mem_operate {leftSpan rightSpan : Text.Span} {op : Operator} {a b : AbstractValue}
    {f : Finding} (hf : f ∈ (operate options op leftSpan rightSpan a b).findings) :
    (∃ found, f.problem = .nonNumericOperand op found ∧ found ≠ .undefined ∧
      ((f.IsAt leftSpan ∧ a.type = found) ∨ (f.IsAt rightSpan ∧ b.type = found))) ∨
      f = ⟨.precisionLoss, rightSpan, rightSpan⟩ := by
  cases a with
  | undefined => cases b <;> exact absurd hf List.not_mem_nil
  | interval i =>
    cases b with
    | undefined => exact absurd hf List.not_mem_nil
    | boolean c =>
      obtain rfl := List.mem_singleton.1 hf
      exact .inl ⟨_, rfl, nofun, .inr ⟨⟨rfl, rfl⟩, rfl⟩⟩
    | interval j =>
      simp only [operate, compute] at hf
      split at hf
      · exact absurd hf List.not_mem_nil
      · dsimp only at hf
        split at hf
        · exact .inr (List.mem_singleton.1 hf)
        · exact absurd hf List.not_mem_nil
  | boolean c =>
    cases b with
    | undefined => exact absurd hf List.not_mem_nil
    | _ =>
      obtain rfl := List.mem_singleton.1 hf
      exact .inl ⟨_, rfl, nofun, .inl ⟨⟨rfl, rfl⟩, rfl⟩⟩

/-- A consequent's value stands beside its place. -/
theorem exists_of_mem_zip : ∀ (b : Branches) {cs : Outcome (List AbstractValue)},
    consequents options env b = .ok cs → ∀ {a : AbstractValue} {span : Text.Span},
      (a, span) ∈ cs.value.zip (b.clauses.map (·.2.span)) →
      ∃ p c v, (p, c) ∈ b.clauses ∧ eval options env c = .ok v ∧ v.value = a ∧ c.span = span
  | .otherwise _, _, _, a, span, hmem => by
    rw [Branches.clauses, List.map_nil, List.zip_nil_right] at hmem
    exact nomatch hmem
  | .clause p c rest, _, h, a, span, hmem => by
    obtain ⟨v, vs, hv, hvs, rfl⟩ := consequents_clause_eq_ok.1 h
    obtain hmem | hmem := List.mem_cons.1 hmem
    · obtain ⟨rfl, rfl⟩ := Prod.mk.inj hmem
      exact ⟨p, c, v, List.mem_cons_self, hv, rfl, rfl⟩
    · obtain ⟨p', c', v', hclause, h⟩ := exists_of_mem_zip rest hvs hmem
      exact ⟨p', c', v', List.mem_cons_of_mem _ hclause, h⟩

/-- A mismatch among consequents is found only where all are defined. -/
theorem mismatch_of_select {b : Branches} {sets : List BooleanSet} {values : List AbstractValue}
    {d : AbstractValue} {f : Finding} (hf : f ∈ (select b sets values d).findings) :
    ∃ expected a span, f.problem = .consequentTypeMismatch expected a.type ∧ f.IsAt span ∧
      (a, span) ∈ (values ++ [d]).zip (consequentSpans b) ∧ a.type ≠ .undefined := by
  unfold select at hf
  dsimp only at hf
  split at hf
  · exact nomatch hf
  · next hall =>
    split at hf
    · next expected a span hfound =>
      obtain rfl := List.mem_singleton.1 hf
      have hmem := List.mem_of_find?_eq_some hfound
      refine ⟨_, a, span, rfl, ⟨rfl, rfl⟩, hmem, fun hundefined => hall (List.any_eq_true.2 ?_)⟩
      exact ⟨a, (List.of_mem_zip hmem).1, decide_eq_true hundefined⟩
    · exact nomatch hf

/-- Among the parts of a `when` expression, one that is beside a place is at that place. -/
theorem PartsOf.exists_of_mem_zip {b : Branches} {parts : Parts}
    (h : PartsOf options env b parts) {a : AbstractValue} {span : Text.Span}
    (hmem : (a, span) ∈ (parts.consequents.value ++ [parts.fallback.value]).zip
      (consequentSpans b)) :
    ∃ part v, ((∃ p, (p, part) ∈ b.clauses) ∨ part = b.fallback) ∧
      eval options env part = .ok v ∧ v.value = a ∧ part.span = span := by
  have hlength := length_consequents b h.consequents_ok
  unfold consequentSpans at hmem
  rw [List.zip_append (by simpa using hlength)] at hmem
  obtain hmem | hmem := List.mem_append.1 hmem
  · obtain ⟨p, c, v, hclause, hv, hvalue, hspan⟩ :=
      Abstract.exists_of_mem_zip b h.consequents_ok hmem
    exact ⟨c, v, .inl ⟨p, hclause⟩, hv, hvalue, hspan⟩
  · obtain ⟨rfl, rfl⟩ := Prod.mk.inj (List.mem_singleton.1 hmem)
    exact ⟨b.fallback, parts.fallback, .inr rfl, fallback_eq b ▸ h.fallback_ok, rfl, rfl⟩

theorem exists_part {e : Expr} {o : Outcome AbstractValue} {f : Finding} {found : ValueType}
    (h : eval options env e = .ok o) (hf : f ∈ o.findings)
    (hfound : f.problem.found? = some found) :
    ∃ part, (semantics options).DueTo env e f found part := by
  obtain ⟨n, hvisits, hn⟩ := arises_of_eval e h hf
  cases hn with
  | @operate span op left right l r hl hr hmem =>
    obtain ⟨type, hproblem, hdefined, hpart⟩ | rfl := of_mem_operate hmem
    · rw [hproblem] at hfound
      obtain rfl := Option.some.inj hfound
      exact Semantics.exists_dueTo_operand hvisits hl hr hproblem hdefined hpart
    · exact nomatch hfound
  | @predicate span branches p c v hclause hv hmem =>
    obtain ⟨⟨i⟩ | s | _, fs⟩ := v
    · obtain rfl := List.mem_singleton.1 hmem
      obtain rfl := Option.some.inj hfound
      exact ⟨p, ⟨_, hvisits, .predicate hclause⟩, ⟨rfl, rfl⟩, ⟨_, hv, rfl⟩, nofun⟩
    · exact nomatch hmem
    · exact nomatch hmem
  | warning hparts hmem =>
    exact absurd (Problem.severity_of_found hfound) (clean_warnings _ _ f hmem)
  | @chosen span branches parts hparts hmem =>
    obtain ⟨expected, a, span, hproblem, hat, hzip, hdefined⟩ := mismatch_of_select hmem
    obtain ⟨part, v, hpart, hv, rfl, rfl⟩ := hparts.exists_of_mem_zip hzip
    rw [hproblem] at hfound
    obtain rfl := Option.some.inj hfound
    refine ⟨part, ⟨_, hvisits, ?_⟩, hat, ⟨v, hv, rfl⟩, hdefined⟩
    rw [hproblem]
    obtain ⟨p, hclause⟩ | rfl := hpart
    · exact .consequent hclause
    · exact .otherwise branches

theorem strict_semantics (options : AnalysisOptions) : (semantics options).Strict where
  visits_nodes := Visits.mem_nodes
  exists_eval hn h := hn.exists_eval h
  undefined_iff h := undefined_iff_of_defined_iff (diagnoses _ _ h)
  exists_part := exists_part

end Abstract

/-! ### Runs -/

/-- What is undefined in a run has its reason, and is not the reason of a problem of type. -/
structure Program.Explains {V : Type} (p : Program) (S : Semantics V) (sources : Bindings V)
    (e : Evaluation V) : Prop where
  undefined_iff : ∀ before s after, p.statements = before ++ s :: after →
    ∃ there r, p.Comes S.eval sources e before s there r ∧ (S.type r.value = .undefined ↔
      (∃ f ∈ r.findings, f.problem.severity = .error) ∨
        ∃ n, S.Visits there s.body n ∧ n.ReadsUndefined S.type there)
  /-- The part that such a problem names by its place was evaluated, to what has another type. -/
  exists_part : ∀ f ∈ e.findings, ∀ found, f.problem.found? = some found →
    ∃ before s after there part, p.statements = before ++ s :: after ∧
      environmentAfter S.eval (.start sources) before = .ok there ∧
      S.DueTo there s.body f found part ∧ ∀ n ∈ p.nodes, n.span = f.span → n = part

theorem Program.explains_run {V : Type} {p : Program} {S : Semantics V} (hstrict : S.Strict)
    (hsinks : p.sinkNames.Nodup) (hspans : (p.nodes.map Expr.span).Nodup) {sources : Bindings V}
    {e : Evaluation V} (h : p.run S.eval sources = .ok e) : p.Explains S sources e := by
  refine ⟨fun before s after hs => ?_, fun f hf found hfound => ?_⟩
  · obtain ⟨there, r, hcomes⟩ := exists_comes h hsinks hs
    exact ⟨there, r, hcomes, hstrict.undefined_iff hcomes.eval_eq⟩
  · obtain hnone | ⟨before, s, after, there, r, hs, hthere, hr, hmem⟩ :=
      mem_findings_of_runFrom h hf
    · exact nomatch hnone
    obtain ⟨part, hdue⟩ := hstrict.exists_part hr hmem hfound
    refine ⟨before, s, after, there, part, hs, hthere, hdue, fun n hn hspan => ?_⟩
    obtain ⟨node, hvisits, hconcerns⟩ := hdue.visited
    have hpart : part ∈ s.body.nodes :=
      Expr.nodes_subset (hstrict.visits_nodes hvisits) hconcerns.mem_nodes
    exact List.inj_on_of_nodup_map hspans hn (mem_nodes_of_statement hs hpart)
      (hspan.trans hdue.is_at.span_eq)

/--
In every run of a parsed program that succeeds, a statement is undefined exactly if an error was
found while it was evaluated or something undefined was read, and no problem of type is due to a
part that is undefined.
-/
theorem Program.explains_of_parseWithin {limit : Nat} {source : Text.Source} {p : Program}
    (hparse : parseWithin limit source = .ok p) :
    (∀ options described e, p.analyze described options = .ok e →
      p.Explains (Abstract.semantics options) described e) ∧
    ∀ sources e, p.interpret sources = .ok e → p.Explains Concrete.semantics sources e :=
  have hsinks : p.sinkNames.Nodup := (scoped_of_parseWithin hparse).nodup_sinkNames.1
  have hspans := nodup_spans_of_parseWithin hparse
  ⟨fun options _ _ h => explains_run (Abstract.strict_semantics options) hsinks hspans h,
    fun _ _ h => explains_run Concrete.strict_semantics hsinks hspans h⟩

namespace Undefined

/-- One error, read by two sinks as an operand and as a predicate. -/
def tainted : Text.Source := "a = true + 1  z: a * 2  w: when a 1 otherwise 2".toList

end Undefined

theorem Program.explains_tainted :
    ∃ p e, Program.parseWithin 8 Undefined.tainted = .ok p ∧
      p.interpret .empty = .ok e ∧
      e.sinks.entries.map (·.2.type) = [.undefined, .undefined] ∧
      e.findings.map (·.problem) = [.nonNumericOperand (.arithmetic .add) .boolean] ∧
      p.Explains Concrete.semantics .empty e := by
  have hrun : ((Program.parseWithin 8 Undefined.tainted).toOption.map fun p =>
      (p.interpret .empty).toOption.map fun e =>
        (e.sinks.entries.map (·.2.type), e.findings.map (·.problem))) =
      some (some ([.undefined, .undefined], [.nonNumericOperand (.arithmetic .add) .boolean])) := by
    decide +kernel
  obtain ⟨p, hp, hrun⟩ := Option.map_eq_some_iff.1 hrun
  obtain ⟨e, he, hpair⟩ := Option.map_eq_some_iff.1 hrun
  obtain ⟨htypes, hproblems⟩ := Prod.mk.inj hpair
  have hexplains := (Program.explains_of_parseWithin (ok_of_toOption hp)).2 .empty e
    (ok_of_toOption he)
  exact ⟨p, e, ok_of_toOption hp, ok_of_toOption he, htypes, hproblems, hexplains⟩

end RangeRules
