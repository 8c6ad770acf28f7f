import RangeRules.Proofs.Evaluation.DivisionFreedom
import RangeRules.Proofs.Evaluation.Merging
import RangeRules.Proofs.Evaluation.Reachability

/-!
# Editing the clauses of a `when` expression

What is done to one `when` expression, wherever in a program it stands, shows elsewhere by its value
only. So sinks keep their values when clauses change places, and also when a clause that the
analysis warned of is removed, as the warning advises: the expression around it, the later
statements and the sinks are taken through by a relation that all operations keep. An error may hide
what a removed clause would have shown, and then the advice is not safe.
-/
namespace RangeRules

/-! ### One node for another -/

mutual

/-- The second expression is the first with one occurrence of a node replaced. -/
inductive Expr.Replaces (n n' : Expr) : Expr → Expr → Prop where
  | here : Expr.Replaces n n' n n'
  | left {span : Text.Span} {op : Operator} {l l' r : Expr} (h : Expr.Replaces n n' l l') :
    Expr.Replaces n n' (.operate span op l r) (.operate span op l' r)
  | right {span : Text.Span} {op : Operator} {l r r' : Expr} (h : Expr.Replaces n n' r r') :
    Expr.Replaces n n' (.operate span op l r) (.operate span op l r')
  | choose {span : Text.Span} {b b' : Branches} (h : Branches.Replaces n n' b b') :
    Expr.Replaces n n' (.choose span b) (.choose span b')

inductive Branches.Replaces (n n' : Expr) : Branches → Branches → Prop where
  | predicate {p p' c : Expr} {rest : Branches} (h : Expr.Replaces n n' p p') :
    Branches.Replaces n n' (.clause p c rest) (.clause p' c rest)
  | consequent {p c c' : Expr} {rest : Branches} (h : Expr.Replaces n n' c c') :
    Branches.Replaces n n' (.clause p c rest) (.clause p c' rest)
  | rest {p c : Expr} {rest rest' : Branches} (h : Branches.Replaces n n' rest rest') :
    Branches.Replaces n n' (.clause p c rest) (.clause p c rest')
  | otherwise {e e' : Expr} (h : Expr.Replaces n n' e e') :
    Branches.Replaces n n' (.otherwise e) (.otherwise e')

end

/-- The second statement is the first with one occurrence of a node replaced. -/
inductive Statement.Replaces (n n' : Expr) : Statement → Statement → Prop where
  | «variable» {name : String} {body body' : Expr} (h : Expr.Replaces n n' body body') :
    Statement.Replaces n n' (.variable name body) (.variable name body')
  | sink {name : String} {body body' : Expr} (h : Expr.Replaces n n' body body') :
    Statement.Replaces n n' (.sink name body) (.sink name body')

mutual

theorem Expr.Replaces.symm {n n' : Expr} : ∀ {e e' : Expr}, Expr.Replaces n n' e e' →
    Expr.Replaces n' n e' e
  | _, _, .here => .here
  | _, _, .left h => .left h.symm
  | _, _, .right h => .right h.symm
  | _, _, .choose h => .choose h.symm

theorem Branches.Replaces.symm {n n' : Expr} : ∀ {b b' : Branches}, Branches.Replaces n n' b b' →
    Branches.Replaces n' n b' b
  | _, _, .predicate h => .predicate h.symm
  | _, _, .consequent h => .consequent h.symm
  | _, _, .rest h => .rest h.symm
  | _, _, .otherwise h => .otherwise h.symm

end

mutual

theorem Expr.Replaces.mem_nodes {n n' : Expr} : ∀ {e e' : Expr}, Expr.Replaces n n' e e' →
    n ∈ e.nodes
  | _, _, .here => Expr.self_mem_nodes _
  | _, _, .left h => Expr.nodes_left_subset _ _ _ _ h.mem_nodes
  | _, _, .right h => Expr.nodes_right_subset _ _ _ _ h.mem_nodes
  | _, _, .choose h => Expr.mem_nodes_of_mem_parts h.mem_parts

theorem Branches.Replaces.mem_parts {n n' : Expr} : ∀ {b b' : Branches},
    Branches.Replaces n n' b b' → n ∈ b.parts
  | _, _, .predicate h => Branches.nodes_predicate_subset _ _ _ h.mem_nodes
  | _, _, .consequent h => Branches.nodes_consequent_subset _ _ _ h.mem_nodes
  | _, _, .rest h => Branches.parts_rest_subset _ _ _ h.mem_parts
  | _, _, .otherwise h => h.mem_nodes

end

namespace Statement.Replaces

variable {n n' : Expr} {s s' : Statement}

theorem symm (h : Statement.Replaces n n' s s') : Statement.Replaces n' n s' s := by
  cases h with
  | «variable» h => exact .variable h.symm
  | sink h => exact .sink h.symm

theorem body (h : Statement.Replaces n n' s s') : Expr.Replaces n n' s.body s'.body := by
  cases h with
  | «variable» h => exact h
  | sink h => exact h

/-- The names stay, so that both statements do the same with their values. -/
theorem effects {V : Type} (h : Statement.Replaces n n' s s') (env : Environment V)
    (sinks : Bindings V) (v : V) :
    s'.update env v = s.update env v ∧ s'.record sinks v = s.record sinks v := by
  cases h with
  | «variable» h => exact ⟨rfl, rfl⟩
  | sink h => exact ⟨rfl, rfl⟩

end Statement.Replaces

/-! ### The expression around it -/

/-- The second succeeds with a related value, if the first does and finds nothing new. -/
def Mirrors {V W : Type} (R : V → W → Prop) (found : List Finding)
    (x : Except ContractViolation (Outcome V)) (y : Except ContractViolation (Outcome W)) : Prop :=
  ∀ o, x = .ok o → o.findings ⊆ found → ∃ o', y = .ok o' ∧ R o.value o'.value

theorem Corresponds.mirrors {V W : Type} {R : V → W → Prop} {S : Outcome V → Outcome W → Prop}
    {found : List Finding} {x : Except ContractViolation (Outcome V)}
    {y : Except ContractViolation (Outcome W)} (h : Corresponds S x y)
    (himp : ∀ o o', S o o' → R o.value o'.value) : Mirrors R found x y := by
  intro o ho _
  obtain ⟨hok, hrelated⟩ := h.exists_ok
  obtain ⟨o', ho'⟩ := hok.1 ⟨o, ho⟩
  exact ⟨o', ho', himp o o' (hrelated o o' ho ho')⟩

namespace Abstract

open AbstractValue (Equal)

theorem inView_none (findings : List Finding) : inView (fun _ => false) findings = [] :=
  List.filter_eq_nil_iff.2 fun _ _ => Bool.false_ne_true

/-- Equal descriptions are kept by whatever keeps wider ones, taken both ways. -/
theorem congruence_equal (options : AnalysisOptions) :
    Congruence options options Equal (fun _ => false) where
  type_eq h := AbstractValue.type_eq_of_encloses h.1.2
  undefined := .refl trivial
  literal h := .refl (Interval.wellFormed_of_make? h)
  singleton b := .refl trivial
  compute op span _ _ _ _ hi hj :=
    ⟨⟨(alike_compute options options op span hi.1 hj.1).value,
      (alike_compute options options op span hi.2 hj.2).value⟩, by rw [inView_none, inView_none]⟩
  clause hs hd ha htype :=
    ⟨widens_clause hs.1 hd.1 ha.1 htype, widens_clause hs.2 hd.2 ha.2
      ((AbstractValue.type_eq_of_encloses hd.1.2).symm.trans
        (htype.trans (AbstractValue.type_eq_of_encloses ha.1.2)))⟩
  warnings _ _ _ _ := by rw [inView_none, inView_none]

variable {options : AnalysisOptions} {env : Environment AbstractValue} {found : List Finding}

theorem mirrors_self (henv : env.Agrees Equal env) (e : Expr) :
    Mirrors Equal found (eval options env e) (eval options env e) :=
  (corresponds_eval (congruence_equal options) henv e).mirrors fun _ _ h => h.value

theorem mirrors_predicates_self (henv : env.Agrees Equal env) (b : Branches) :
    Mirrors (List.Forall₂ Equal) found (predicates options env b) (predicates options env b) :=
  (corresponds_predicates (congruence_equal options) henv b).mirrors fun _ _ h => h.value

theorem mirrors_consequents_self (henv : env.Agrees Equal env) (b : Branches) :
    Mirrors (List.Forall₂ Equal) found (consequents options env b) (consequents options env b) :=
  (corresponds_consequents (congruence_equal options) henv b).mirrors fun _ _ h => h.1.value

theorem mirrors_fallback_self (henv : env.Agrees Equal env) (b : Branches) :
    Mirrors Equal found (fallback options env b) (fallback options env b) :=
  (corresponds_fallback (congruence_equal options) henv b).mirrors fun _ _ h => h.value

theorem mirrors_operate {span span' : Text.Span} {op : Operator} {l l' r r' : Expr}
    (hl : Mirrors Equal found (eval options env l) (eval options env l'))
    (hr : Mirrors Equal found (eval options env r) (eval options env r')) :
    Mirrors Equal found (eval options env (.operate span op l r))
      (eval options env (.operate span' op l' r')) := by
  intro o ho hfound
  obtain ⟨a, b, ha, hb, rfl⟩ := eval_operate_eq_ok.1 ho
  simp only [List.append_subset] at hfound
  obtain ⟨a', ha', hal⟩ := hl a ha hfound.1.1
  obtain ⟨b', hb', hbr⟩ := hr b hb hfound.1.2
  refine ⟨_, eval_operate_eq_ok.2 ⟨a', b', ha', hb', rfl⟩, ?_⟩
  -- Only the places of problems depend on the operands as written, not the value.
  have hvalue := alike_operate (congruence_equal options) op l.span r.span hal hbr
  have hspans : (operate options op l'.span r'.span a'.value b'.value).value =
      (operate options op l.span r.span a'.value b'.value).value := by
    cases a'.value <;> cases b'.value <;> first | rfl | (cases op <;> rfl)
  exact hspans ▸ hvalue.value

theorem mirrors_predicates_cons {p p' c c' : Expr} {rest rest' : Branches}
    (hp : Mirrors Equal found (eval options env p) (eval options env p'))
    (hrest : Mirrors (List.Forall₂ Equal) found (predicates options env rest)
      (predicates options env rest')) :
    Mirrors (List.Forall₂ Equal) found (predicates options env (.clause p c rest))
      (predicates options env (.clause p' c' rest')) := by
  intro o ho hfound
  obtain ⟨v, vs, hv, hvs, rfl⟩ := predicates_clause_eq_ok.1 ho
  simp only [List.append_subset] at hfound
  obtain ⟨v', hv', hvalue⟩ := hp v hv hfound.1.1
  obtain ⟨vs', hvs', hvalues⟩ := hrest vs hvs hfound.2
  exact ⟨_, predicates_clause_eq_ok.2 ⟨v', vs', hv', hvs', rfl⟩, .cons hvalue hvalues⟩

theorem mirrors_consequents_cons {p p' c c' : Expr} {rest rest' : Branches}
    (hc : Mirrors Equal found (eval options env c) (eval options env c'))
    (hrest : Mirrors (List.Forall₂ Equal) found (consequents options env rest)
      (consequents options env rest')) :
    Mirrors (List.Forall₂ Equal) found (consequents options env (.clause p c rest))
      (consequents options env (.clause p' c' rest')) := by
  intro o ho hfound
  obtain ⟨v, vs, hv, hvs, rfl⟩ := consequents_clause_eq_ok.1 ho
  obtain ⟨hfound, hfound'⟩ := List.append_subset.1 hfound
  obtain ⟨v', hv', hvalue⟩ := hc v hv hfound
  obtain ⟨vs', hvs', hvalues⟩ := hrest vs hvs hfound'
  exact ⟨_, consequents_clause_eq_ok.2 ⟨v', vs', hv', hvs', rfl⟩, .cons hvalue hvalues⟩

/-- Parts that are equal one by one make equal `when` expressions. -/
theorem mirrors_choose {span span' : Text.Span} {b b' : Branches}
    (hps : Mirrors (List.Forall₂ Equal) found (predicates options env b)
      (predicates options env b'))
    (hcs : Mirrors (List.Forall₂ Equal) found (consequents options env b)
      (consequents options env b'))
    (hd : Mirrors Equal found (fallback options env b) (fallback options env b')) :
    Mirrors Equal found (eval options env (.choose span b))
      (eval options env (.choose span' b')) := by
  intro o ho hfound
  obtain ⟨ps, hps', hnone, rfl⟩ | ⟨parts, hparts, rfl⟩ := eval_choose_eq_ok.1 ho
  · obtain ⟨ps', hok, hvalues⟩ := hps ps hps' hfound
    have hsets := predicateSets?_related (congruence_equal options) hvalues
    rw [hnone] at hsets
    have hnone' : predicateSets? ps'.value = none := by
      generalize predicateSets? ps'.value = sets at hsets
      cases hsets
      rfl
    exact ⟨_, eval_choose_eq_ok.2 (.inl ⟨ps', hok, hnone', rfl⟩), .refl trivial⟩
  · have hsubset := parts.findings_subset options b
    obtain ⟨ps', hpok, hpvalues⟩ := hps _ hparts.predicates_ok (fun _ hf => hfound (hsubset.1 hf))
    obtain ⟨cs', hcok, hcvalues⟩ :=
      hcs _ hparts.consequents_ok (fun _ hf => hfound (hsubset.2.1 hf))
    obtain ⟨d', hdok, hdvalue⟩ := hd _ hparts.fallback_ok (fun _ hf => hfound (hsubset.2.2 hf))
    have hsets := predicateSets?_related (congruence_equal options) hpvalues
    rw [hparts.sets_eq] at hsets
    obtain ⟨sets', hsets', hequal⟩ := Environment.exists_of_rel hsets
    have hlength := length_consequents b hparts.consequents_ok
    have hlength' := length_consequents b' hcok
    refine ⟨_, eval_choose_eq_ok.2 (.inr ⟨⟨ps', sets', cs', d'⟩, ⟨hpok, hsets', hcok, hdok⟩, rfl⟩),
      ?_⟩
    have halike := alike_select (congruence_equal options) b hequal hcvalues hdvalue hlength
    have hvalue : (select b' sets' cs'.value d'.value).value =
        (select b sets' cs'.value d'.value).value := by
      rw [value_select sets' hlength', value_select sets' (hcvalues.length_eq.symm.trans hlength)]
    change Equal (select b parts.sets parts.consequents.value parts.fallback.value).value
      (select b' sets' cs'.value d'.value).value
    rw [hvalue]
    exact halike.value

mutual

/-- Where the node that is replaced is mirrored, so is the expression around it. -/
theorem mirrors_replaces (henv : env.Agrees Equal env) {n n' : Expr}
    (hnode : Mirrors Equal found (eval options env n) (eval options env n')) :
    ∀ {e e' : Expr}, Expr.Replaces n n' e e' →
      Mirrors Equal found (eval options env e) (eval options env e')
  | _, _, .here => hnode
  | _, _, .left h => mirrors_operate (mirrors_replaces henv hnode h) (mirrors_self henv _)
  | _, _, .right h => mirrors_operate (mirrors_self henv _) (mirrors_replaces henv hnode h)
  | _, _, .choose h =>
    have ⟨hps, hcs, hd⟩ := mirrors_replacesBranches henv hnode h
    mirrors_choose hps hcs hd

theorem mirrors_replacesBranches (henv : env.Agrees Equal env) {n n' : Expr}
    (hnode : Mirrors Equal found (eval options env n) (eval options env n')) :
    ∀ {b b' : Branches}, Branches.Replaces n n' b b' →
      Mirrors (List.Forall₂ Equal) found (predicates options env b) (predicates options env b') ∧
      Mirrors (List.Forall₂ Equal) found (consequents options env b) (consequents options env b') ∧
      Mirrors Equal found (fallback options env b) (fallback options env b')
  | .clause _ _ rest, _, .predicate h =>
    ⟨mirrors_predicates_cons (mirrors_replaces henv hnode h) (mirrors_predicates_self henv rest),
      mirrors_consequents_cons (mirrors_self henv _) (mirrors_consequents_self henv rest),
      mirrors_fallback_self henv rest⟩
  | .clause _ _ rest, _, .consequent h =>
    ⟨mirrors_predicates_cons (mirrors_self henv _) (mirrors_predicates_self henv rest),
      mirrors_consequents_cons (mirrors_replaces henv hnode h) (mirrors_consequents_self henv rest),
      mirrors_fallback_self henv rest⟩
  | _, _, .rest h =>
    have ⟨hps, hcs, hd⟩ := mirrors_replacesBranches henv hnode h
    ⟨mirrors_predicates_cons (mirrors_self henv _) hps,
      mirrors_consequents_cons (mirrors_self henv _) hcs, hd⟩
  | _, _, .otherwise h =>
    ⟨fun _ ho _ => ⟨_, rfl, Except.ok.inj ho ▸ .nil⟩,
      fun _ ho _ => ⟨_, rfl, Except.ok.inj ho ▸ .nil⟩,
      mirrors_replaces henv hnode h⟩

end

/-! ### The clauses -/

/-- What clauses merge to is what a `when` expression of them is evaluated to. -/
theorem Merges.exists_eval (henv : env.Each (·.Admits Interval.WellFormed)) {b : Branches}
    {a : AbstractValue} (h : Merges options env b.clauses b.fallback a)
    (ha : a.Admits Interval.WellFormed) (span : Text.Span) :
    ∃ o, eval options env (.choose span b) = .ok o ∧ a.Equal o.value := by
  obtain ⟨a', o, ho, rfl⟩ := h.exists_evaluates span
  have hevaluates : Evaluates options env (.choose span b) o.value := ⟨o, ho, rfl⟩
  exact ⟨o, ho, h.equal (merges_of_evaluates henv hevaluates) ha (hevaluates.admits henv)⟩

/-- Clauses in another order make an equal `when` expression. -/
theorem mirrors_of_mem_iff (henv : env.Each (·.Admits Interval.WellFormed))
    {span span' : Text.Span} {b b' : Branches} (hfallback : b'.fallback = b.fallback)
    (hclauses : ∀ clause, clause ∈ b.clauses ↔ clause ∈ b'.clauses) :
    Mirrors Equal found (eval options env (.choose span b))
      (eval options env (.choose span' b')) := by
  intro o ho _
  have hevaluates : Evaluates options env (.choose span b) o.value := ⟨o, ho, rfl⟩
  have hmerges := (merges_of_evaluates henv hevaluates).congr hclauses
  rw [← hfallback] at hmerges
  exact hmerges.exists_eval henv (hevaluates.admits henv) span'

/-- The predicate is evaluated to a set of booleans without true. -/
def NeverTrue (options : AnalysisOptions) (env : Environment AbstractValue) (predicate : Expr) :
    Prop :=
  ∃ set, Evaluates options env predicate (.boolean set) ∧ ¬ set.contains true = true

/-- Where there is no error, a clause that never applies may be left out. -/
theorem mirrors_of_neverTrue (henv : env.Each (·.Admits Interval.WellFormed))
    (hdefined : env.Each Defined) (hclean : Clean found) {span span' : Text.Span} {b b' : Branches}
    (hfallback : b'.fallback = b.fallback) {dead : Expr × Expr}
    (hclauses : ∀ clause, clause ∈ b.clauses ↔ clause = dead ∨ clause ∈ b'.clauses)
    (hdead : NeverTrue options env dead.1) :
    Mirrors Equal found (eval options env (.choose span b))
      (eval options env (.choose span' b')) := by
  intro o ho hfound
  obtain ⟨set, hset, hfalse⟩ := hdead
  have hevaluates : Evaluates options env (.choose span b) o.value := ⟨o, ho, rfl⟩
  have hvalue : Defined o.value := defined_eval hdefined _ ho (hclean.subset hfound)
  have hmerges := (merges_of_evaluates henv hevaluates).drop hvalue hclauses hset hfalse
  rw [← hfallback] at hmerges
  exact hmerges.exists_eval henv (hevaluates.admits henv) span'

end Abstract

/-! ### The program around it -/

open AbstractValue (Equal)

section Programs

variable {options : AnalysisOptions} {described : Bindings AbstractValue} {p p' : Program}
  {before after : List Statement} {s s' : Statement} {n n' : Expr} {e : Evaluation AbstractValue}

theorem Bindings.WellFormed.equal_self (h : described.WellFormed) (name : String) :
    Option.Rel Equal (described.get? name) (described.get? name) := by
  cases ha : described.get? name with
  | none => exact .none
  | some a => exact .some (.refl (h name a ha))

/-- Equal descriptions of the sources lead to equal descriptions wherever the analysis gets. -/
theorem agrees_equal (hdescribed : described.WellFormed) {there : Environment AbstractValue}
    (h : environmentAfter (Abstract.eval options) (.start described) before = .ok there) :
    there.Agrees Equal there := by
  have hkeeps : Keeps (Abstract.eval options) (Abstract.eval options) Equal (.start described)
      (.start described) (before ++ []) := by
    intro _ s _ _ _ _ _ _ hthere r r' hr hr'
    have hbody := Abstract.corresponds_eval (Abstract.congruence_equal options) hthere s.body
    exact (hbody.exists_ok.2 r r' hr hr').value
  exact agrees_environmentAfter (Environment.agrees_start hdescribed.equal_self) hkeeps h h

/-- Where the node that is replaced is mirrored, the sinks keep their values. -/
theorem Program.mirrors_replaces (hdescribed : described.WellFormed)
    (hp : p.statements = before ++ s :: after) (hp' : p'.statements = before ++ s' :: after)
    (hreplaces : s.Replaces n n' s') (h : p.analyze described options = .ok e)
    (hnode : ∀ there,
      environmentAfter (Abstract.eval options) (.start described) before = .ok there →
      there.Each (·.Admits Interval.WellFormed) →
      Mirrors Equal e.findings (Abstract.eval options there n) (Abstract.eval options there n')) :
    ∃ e', p'.analyze described options = .ok e' ∧ Bindings.Aligned Equal e.sinks e'.sinks := by
  have hrun : runFrom (Abstract.eval options) (.start described) ⟨.empty, []⟩
      (before ++ s :: after) = .ok e := hp ▸ h
  obtain ⟨there, mid, r, hthere, hmid, hr, hafter⟩ := runFrom_append_cons hrun
  have henv := agrees_equal hdescribed hthere
  have hmids := (Abstract.corresponds_runFrom (Abstract.congruence_equal options) before
    (Environment.agrees_start hdescribed.equal_self) (Bindings.aligned_empty _) rfl).exists_ok.2
      mid mid hmid hmid
  -- The statement itself, whose findings are among those of the whole run.
  obtain ⟨news, hnews⟩ := findings_of_runFrom hafter
  have hfound : r.findings ⊆ e.findings := by
    rw [hnews]
    exact fun f hf => List.mem_append_left _ (List.mem_append_right _ hf)
  obtain ⟨r', hr', hvalue⟩ := Abstract.mirrors_replaces henv
    (hnode there hthere (henv.each fun _ _ h => h.admits.1)) hreplaces.body r hr hfound
  -- The statements after it, which go on from equal variables and sinks.
  obtain ⟨hupdate, hrecord⟩ := hreplaces.effects there mid.sinks r'.value
  have hsinks : Bindings.Aligned Equal (s.record mid.sinks r.value)
      (s'.record mid.sinks r'.value) := by
    rw [hrecord]
    exact s.aligned_record hmids.1 hvalue
  have hrest := @Abstract.corresponds_runFrom _ _ _ _ (Abstract.congruence_equal options) after _ _
    ⟨_, mid.findings ++ r.findings⟩ ⟨_, mid.findings ++ r'.findings⟩ (s.agrees_update henv hvalue)
    hsinks (by rw [Abstract.inView_none, Abstract.inView_none])
  obtain ⟨e', he'⟩ := hrest.exists_ok.1.1 ⟨e, hafter⟩
  refine ⟨e', ?_, (hrest.exists_ok.2 e e' hafter he').1⟩
  unfold Program.analyze Program.run
  rw [hp', runFrom_append hthere hmid, runFrom_cons_eq_ok]
  rw [← hupdate] at he'
  exact ⟨r', hr', he'⟩

/--
The analysis warned of the clause. A warning names the place of a predicate, which tells the clause
if places are told apart, as they are in every program that was read from a text; else it is the
`when` expression evaluated there that the warning comes from.
-/
inductive Program.WarnsOf (p : Program) (options : AnalysisOptions)
    (described : Bindings AbstractValue) (e : Evaluation AbstractValue) (before : List Statement)
    (b : Branches) (clause : Expr × Expr) : Prop where
  | place (quoted : Text.Span) (nodup : (p.nodes.map Expr.span).Nodup)
    (mem : ⟨.unreachableClause, quoted, clause.1.span⟩ ∈ e.findings) :
    WarnsOf p options described e before b clause
  | node {there : Environment AbstractValue} {parts : Abstract.Parts} {set : BooleanSet}
    (reached : environmentAfter (Abstract.eval options) (.start described) before = .ok there)
    (parts_ok : Abstract.PartsOf options there b parts)
    (mem : (clause, set) ∈ b.clauses.zip parts.sets) (never : ¬ set.contains true = true) :
    WarnsOf p options described e before b clause

/-- A clause that is warned of never applies where its statement is evaluated. -/
theorem Program.WarnsOf.neverTrue {b : Branches} {clause : Expr × Expr}
    (hwarns : p.WarnsOf options described e before b clause)
    (hp : p.statements = before ++ s :: after) (h : p.analyze described options = .ok e)
    {span : Text.Span} (hnode : .choose span b ∈ s.body.nodes) (hclause : clause ∈ b.clauses)
    {there : Environment AbstractValue}
    (hthere : environmentAfter (Abstract.eval options) (.start described) before = .ok there) :
    Abstract.NeverTrue options there clause.1 := by
  cases hwarns with
  | place quoted nodup mem =>
    obtain ⟨before', t, after', there', ht, hthere', hwarns⟩ := warns_of_mem_findings h rfl mem
    obtain ⟨_, b', predicate, consequent, v, set, hchoose, hmem, ⟨-, hspan⟩, hv, hset, hnever⟩ :=
      hwarns.clause rfl
    have hpredicate := Expr.mem_nodes_of_choose hchoose (Branches.clause_mem_parts hmem).1
    have hclause : (clause.1, clause.2) ∈ b.clauses := hclause
    have hown := Expr.mem_nodes_of_choose hnode (Branches.clause_mem_parts hclause).1
    obtain ⟨rfl, rfl, rfl⟩ := eq_of_span_eq nodup ht hp hpredicate hown hspan.symm
    obtain rfl := Except.ok.inj (hthere.symm.trans hthere')
    exact ⟨set, ⟨v, hv, hset⟩, hnever⟩
  | node reached parts_ok mem never =>
    obtain rfl := Except.ok.inj (hthere.symm.trans reached)
    obtain ⟨v, hv, hset⟩ := parts_ok.eval_of_mem_zip mem
    exact ⟨_, ⟨v, hv, hset⟩, never⟩

/-- All that can be read is defined, if no source is undefined and the analysis finds no error. -/
theorem each_defined (hdefined : ∀ name a, described.get? name = some a → a.isUndefined = false)
    (hp : p.statements = before ++ s :: after) (h : p.analyze described options = .ok e)
    (hclean : Clean e.findings) {there : Environment AbstractValue}
    (hthere : environmentAfter (Abstract.eval options) (.start described) before = .ok there) :
    there.Each Abstract.Defined := by
  have hstart : (Environment.start described).Agrees (fun a _ => Abstract.Defined a)
      (.start described) := by
    refine Environment.agrees_start fun name => ?_
    cases ha : described.get? name with
    | none => exact .none
    | some a => exact .some (of_decide_eq_false (hdefined name a ha))
  have hrun : runFrom (Abstract.eval options) (.start described) ⟨.empty, []⟩
      (before ++ s :: after) = .ok e := hp ▸ h
  exact (agrees_environmentAfter hstart (keeps_defined hrun hclean) hthere hthere).each
    fun _ _ => id

variable {span span' : Text.Span} {b b' : Branches}

/-- Neither order nor repetition of the clauses matters to the sinks. -/
theorem Program.sinks_of_mem_iff (hdescribed : described.WellFormed)
    (hp : p.statements = before ++ s :: after) (hp' : p'.statements = before ++ s' :: after)
    (hreplaces : s.Replaces (.choose span b) (.choose span' b') s')
    (hfallback : b'.fallback = b.fallback)
    (hmem : ∀ clause, clause ∈ b.clauses ↔ clause ∈ b'.clauses)
    (h : p.analyze described options = .ok e) :
    ∃ e', p'.analyze described options = .ok e' ∧ Bindings.Aligned Equal e.sinks e'.sinks :=
  mirrors_replaces hdescribed hp hp' hreplaces h fun _ _ hthere =>
    Abstract.mirrors_of_mem_iff hthere hfallback hmem

/-- A clause that is warned of does not matter to the sinks, where there is no error. -/
theorem Program.sinks_of_warning (hdescribed : described.WellFormed)
    (hp : p.statements = before ++ s :: after) (hp' : p'.statements = before ++ s' :: after)
    (hreplaces : s.Replaces (.choose span b) (.choose span' b') s')
    (hfallback : b'.fallback = b.fallback) {dead : Expr × Expr}
    (hmem : ∀ clause, clause ∈ b.clauses ↔ clause = dead ∨ clause ∈ b'.clauses)
    (h : p.analyze described options = .ok e) (hclean : Clean e.findings)
    (hdefined : ∀ name a, described.get? name = some a → a.isUndefined = false)
    (hwarns : p.WarnsOf options described e before b dead) :
    ∃ e', p'.analyze described options = .ok e' ∧ Bindings.Aligned Equal e.sinks e'.sinks := by
  refine mirrors_replaces hdescribed hp hp' hreplaces h fun there hthere hwell => ?_
  have hnever := hwarns.neverTrue hp h hreplaces.body.mem_nodes ((hmem dead).2 (.inl rfl)) hthere
  exact Abstract.mirrors_of_neverTrue hwell (each_defined hdefined hp h hclean hthere) hclean
    hfallback hmem hnever

end Programs

/--
The clauses of a `when` expression, wherever in a program it stands, may change places: the analysis
succeeds as before and the sinks get the same values. And where it succeeds without an error, from
sources that are not undefined, a clause that it warned of may be removed.
-/
theorem Program.sinks_of_clauses {p p' : Program} {options : AnalysisOptions}
    {described : Bindings AbstractValue} (hdescribed : described.WellFormed)
    {before after : List Statement} {s s' : Statement} {span span' : Text.Span} {b b' : Branches}
    (hp : p.statements = before ++ s :: after) (hp' : p'.statements = before ++ s' :: after)
    (hreplaces : s.Replaces (.choose span b) (.choose span' b') s')
    (hfallback : b'.fallback = b.fallback) :
    (b.clauses.Perm b'.clauses →
      ((∃ e, p.analyze described options = .ok e) ↔
        ∃ e', p'.analyze described options = .ok e') ∧
      ∀ e e', p.analyze described options = .ok e → p'.analyze described options = .ok e' →
        Bindings.Aligned (fun a a' => a.same a' = true) e.sinks e'.sinks) ∧
    ∀ e first clause second, b.clauses = first ++ clause :: second →
      b'.clauses = first ++ second → p.analyze described options = .ok e →
      Log.hasErrors (e.diagnostics p.source) = false →
      (∀ name a, described.get? name = some a → a.isUndefined = false) →
      p.WarnsOf options described e before b clause →
      ∃ e', p'.analyze described options = .ok e' ∧
        Bindings.Aligned (fun a a' => a.same a' = true) e.sinks e'.sinks := by
  constructor
  · intro hperm
    have hmem : ∀ clause, clause ∈ b.clauses ↔ clause ∈ b'.clauses := fun _ => hperm.mem_iff
    have hforth : ∀ e, p.analyze described options = .ok e → ∃ e',
        p'.analyze described options = .ok e' ∧ Bindings.Aligned Equal e.sinks e'.sinks :=
      fun _ => sinks_of_mem_iff hdescribed hp hp' hreplaces hfallback hmem
    have hback : ∀ e', p'.analyze described options = .ok e' → ∃ e,
        p.analyze described options = .ok e ∧ Bindings.Aligned Equal e'.sinks e.sinks :=
      fun _ => sinks_of_mem_iff hdescribed hp' hp hreplaces.symm hfallback.symm fun clause =>
        (hmem clause).symm
    refine ⟨⟨fun ⟨e, he⟩ => ?_, fun ⟨e', he'⟩ => ?_⟩, fun e e' he he' => ?_⟩
    · obtain ⟨e', he', -⟩ := hforth e he
      exact ⟨e', he'⟩
    · obtain ⟨e, he, -⟩ := hback e' he'
      exact ⟨e, he⟩
    · obtain ⟨e₂, he₂, hsinks⟩ := hforth e he
      obtain rfl := Except.ok.inj (he'.symm.trans he₂)
      exact hsinks.mono fun _ _ h => h.same
  · intro e first clause second hb hb' he herrors hdefined hwarns
    have hclean := (hasErrors_diagnostics p.source e).1 herrors
    have hmem : ∀ c, c ∈ b.clauses ↔ c = clause ∨ c ∈ b'.clauses := by
      intro c
      rw [hb, hb']
      simp only [List.mem_append, List.mem_cons]
      tauto
    obtain ⟨e', he', hsinks⟩ := sinks_of_warning hdescribed hp hp' hreplaces hfallback hmem he
      hclean hdefined hwarns
    exact ⟨e', he', hsinks.mono fun _ _ h => h.same⟩

namespace Editing

/-- `this.x < 0`, with `this.x` where it holds. -/
def negative : Expr × Expr :=
  (.operate ⟨9, 19⟩ (.comparison .lt) (.source ⟨9, 15⟩ "x") (.number ⟨18, 19⟩ 0.0),
    .source ⟨20, 26⟩ "x")

/-- `this.x < 5`, with `2` where it holds. -/
def small : Expr × Expr :=
  (.operate ⟨32, 42⟩ (.comparison .lt) (.source ⟨32, 38⟩ "x") (.number ⟨41, 42⟩ 5.0),
    .number ⟨43, 44⟩ 2.0)

def both : Branches :=
  .clause negative.1 negative.2 (.clause small.1 small.2 (.otherwise (.number ⟨55, 56⟩ 3.0)))

def swapped : Branches :=
  .clause small.1 small.2 (.clause negative.1 negative.2 (.otherwise (.number ⟨55, 56⟩ 3.0)))

def reduced : Branches := .clause small.1 small.2 (.otherwise (.number ⟨55, 56⟩ 3.0))

/-- `a = 1 + when … otherwise 3` -/
def assignment (b : Branches) : Statement :=
  .variable "a" (.operate ⟨0, 56⟩ (.arithmetic .add) (.number ⟨0, 1⟩ 1.0) (.choose ⟨4, 56⟩ b))

/-- The variable is carried on to a sink. -/
def program (b : Branches) : Program := ⟨[], [assignment b, .sink "z" (.variable ⟨61, 62⟩ "a")]⟩

def positive : Bindings AbstractValue := ⟨[("x", .interval ⟨1.0, 8.0⟩)]⟩

theorem wellFormed_positive : positive.WellFormed := by
  intro name a ha
  have hentry := List.mem_singleton.1 (Bindings.mem_of_get? ha)
  obtain rfl := (Prod.mk.inj hentry).2
  exact ⟨by decide, by decide, by decide⟩

theorem defined_positive : ∀ name a, positive.get? name = some a → a.isUndefined = false := by
  intro name a ha
  have hentry := List.mem_singleton.1 (Bindings.mem_of_get? ha)
  obtain rfl := (Prod.mk.inj hentry).2
  rfl

theorem replaces_assignment (b b' : Branches) :
    (assignment b).Replaces (.choose ⟨4, 56⟩ b) (.choose ⟨4, 56⟩ b') (assignment b') :=
  .variable (.right .here)

end Editing

theorem Program.sinks_of_clauses_guarded :
    ∃ e e' e'', (Editing.program Editing.both).analyze Editing.positive .plain = .ok e ∧
      (Editing.program Editing.swapped).analyze Editing.positive .plain = .ok e' ∧
      (Editing.program Editing.reduced).analyze Editing.positive .plain = .ok e'' ∧
      ⟨.unreachableClause, ⟨9, 19⟩, ⟨9, 19⟩⟩ ∈ e.findings ∧
      Bindings.Aligned (fun a a' => a.same a' = true) e.sinks e'.sinks ∧
      Bindings.Aligned (fun a a' => a.same a' = true) e.sinks e''.sinks := by
  have hswapped := (@Program.sinks_of_clauses (Editing.program Editing.both)
    (Editing.program Editing.swapped) .plain _ Editing.wellFormed_positive [] _ _ _ _ _ _ _ rfl rfl
    (Editing.replaces_assignment Editing.both Editing.swapped) rfl).1 (.swap _ _ _)
  obtain ⟨e'', he'', hsinks⟩ := (@Program.sinks_of_clauses (Editing.program Editing.both)
    (Editing.program Editing.reduced) .plain _ Editing.wellFormed_positive [] _ _ _ _ _ _ _ rfl rfl
    (Editing.replaces_assignment Editing.both Editing.reduced) rfl).2 _ [] Editing.negative
    [Editing.small] rfl rfl rfl rfl Editing.defined_positive
    (.place ⟨9, 19⟩ (by decide) (by decide))
  exact ⟨_, _, e'', rfl, rfl, he'', by decide, hswapped.2 _ _ rfl rfl, hsinks⟩

end RangeRules
