import RangeRules.Proofs.Evaluation.Reach
import RangeRules.Proofs.Phrase.Relocation
import RangeRules.Proofs.Program.Contract
import RangeRules.Proofs.Program.Nodes

/-!
# Evaluation is local

An evaluator reads the sources and the variables that an expression names, and takes the places of
nodes only to report them. So an expression that is written elsewhere, among more variables, has the
same value there and the same findings in their new places. A run of statements that name no
variable but their own does not notice what ran before it, so that two such lists run one after the
other as each runs alone.
-/
namespace RangeRules

open Text (Span)

section Relocated

variable {V A B : Type} (g : Relocation)

def Finding.relocate (f : Finding) : Finding := ⟨f.problem, g.span f.quoted, g.span f.span⟩

def ContractViolation.relocate : ContractViolation → ContractViolation
  | .unboundSource name s => .unboundSource name (g.span s)
  | .unboundVariable name s => .unboundVariable name (g.span s)
  | .nonFiniteLiteral value s => .nonFiniteLiteral value (g.span s)

def Outcome.relocate (o : Outcome V) : Outcome V := ⟨o.value, o.findings.map (·.relocate g)⟩

/-- What an evaluation comes to elsewhere. -/
def relocated : Except ContractViolation (Outcome V) → Except ContractViolation (Outcome V)
  | .ok o => .ok (o.relocate g)
  | .error c => .error (c.relocate g)

variable {g}

theorem relocated_then {x : Except ContractViolation (Outcome A)}
    {next next' : Outcome A → Except ContractViolation (Outcome B)}
    (h : ∀ o, next' (o.relocate g) = relocated g (next o)) :
    relocated g x >>= next' = relocated g (x >>= next) := by
  cases x with
  | error c => rfl
  | ok o => exact h o

theorem relocated_eq_ok {g' : Relocation} {x y : Except ContractViolation (Outcome V)}
    (h : relocated g' y = relocated g x) {o : Outcome V} (hx : x = .ok o) :
    ∃ o', y = .ok o' ∧ o'.value = o.value ∧
      o'.findings.map (·.relocate g') = o.findings.map (·.relocate g) := by
  subst hx
  cases y with
  | error c => exact nomatch h
  | ok o' =>
    obtain ⟨hvalue, hfindings⟩ := Outcome.mk.inj (Except.ok.inj h)
    exact ⟨o', rfl, hvalue, hfindings⟩

theorem require_relocate (value : Option V) (c : ContractViolation) :
    require value (c.relocate g) = relocated g (require value c) := by
  cases value <;> rfl

end Relocated

/-- The sources are the same, and so are the values of the declared variables. -/
structure Environment.AgreesOn {V : Type} (declared : List String) (env env' : Environment V) :
    Prop where
  sources : env'.sources = env.sources
  locals : ∀ name ∈ declared, env'.local? name = env.local? name

theorem Environment.AgreesOn.refl {V : Type} (declared : List String) (env : Environment V) :
    env.AgreesOn declared env :=
  ⟨rfl, fun _ _ => rfl⟩

theorem Environment.AgreesOn.bind {V : Type} {declared : List String} {env env' : Environment V}
    (h : env.AgreesOn declared env') (name : String) (value : V) :
    (env.bind name value).AgreesOn (name :: declared) (env'.bind name value) := by
  refine ⟨h.sources, fun other hother => ?_⟩
  unfold Environment.bind Environment.local?
  dsimp only
  rw [Bindings.get?_put, Bindings.get?_put]
  split
  · rfl
  · next hne => exact h.locals other ((List.mem_cons.1 hother).resolve_left hne)

mutual

/-- The sources and variables that the expression names are read alike in both environments. -/
def Expr.SeesAlike {V : Type} (env env' : Environment V) : Expr → Prop
  | .number .. | .boolean .. => True
  | .source _ name => env'.source? name = env.source? name
  | .variable _ name => env'.local? name = env.local? name
  | .operate _ _ l r => l.SeesAlike env env' ∧ r.SeesAlike env env'
  | .choose _ branches => branches.SeesAlike env env'

def Branches.SeesAlike {V : Type} (env env' : Environment V) : Branches → Prop
  | .otherwise e => e.SeesAlike env env'
  | .clause p c rest => p.SeesAlike env env' ∧ c.SeesAlike env env' ∧ rest.SeesAlike env env'

end

section Reading

variable {V : Type} {declared : List String} {env env' : Environment V}

mutual

theorem Environment.AgreesOn.seesAlike (henv : env.AgreesOn declared env') :
    ∀ {e : Expr}, e.Ready declared → e.SeesAlike env env'
  | .number .., _ | .boolean .., _ => trivial
  | .source _ name, _ => congrArg (Bindings.get? · name) henv.sources
  | .variable _ name, hready => henv.locals name hready
  | .operate .., ⟨hl, hr⟩ => ⟨henv.seesAlike hl, henv.seesAlike hr⟩
  | .choose .., hready => henv.seesAlikeBranches hready

theorem Environment.AgreesOn.seesAlikeBranches (henv : env.AgreesOn declared env') :
    ∀ {b : Branches}, b.Ready declared → b.SeesAlike env env'
  | .otherwise _, hready => henv.seesAlike hready
  | .clause .., ⟨hp, hc, hrest⟩ =>
    ⟨henv.seesAlike hp, henv.seesAlike hc, henv.seesAlikeBranches hrest⟩

end

theorem require_elsewhere {value value' : Option V} (h : value' = value) (g : Relocation)
    (c : ContractViolation) :
    require value' (c.relocate g) = relocated g (require value c) := by
  rw [h, require_relocate]

end Reading

/-- An evaluator that depends on what an expression names only, and reports places as they are. -/
def Evaluator.Sees {V : Type} (eval : Evaluator V) : Prop :=
  ∀ {env env' : Environment V} (g : Relocation) {e : Expr}, e.SeesAlike env env' →
    eval env' (e.relocate g) = relocated g (eval env e)

/-- An evaluator that depends on the declared variables only, and reports places as they are. -/
def Evaluator.Local {V : Type} (eval : Evaluator V) : Prop :=
  ∀ {declared : List String} {env env' : Environment V} (_ : env.AgreesOn declared env')
    (g : Relocation) {e : Expr}, e.Ready declared →
      eval env' (e.relocate g) = relocated g (eval env e)

theorem Evaluator.Sees.local {V : Type} {eval : Evaluator V} (h : eval.Sees) : eval.Local :=
  fun henv g _ hready => h g (henv.seesAlike hready)

/-! ### On values -/

namespace Concrete

variable {g : Relocation}

theorem operate_relocate (s ls rs : Span) (op : Operator) (a b : Value) :
    operate (g.span s) op (g.span ls) (g.span rs) a b = (operate s op ls rs a b).relocate g := by
  have hcompute : ∀ x y, compute (g.span s) op x y = (compute s op x y).relocate g := by
    intro x y
    unfold compute
    cases op with
    | comparison op => rfl
    | arithmetic op =>
      dsimp only
      cases op.result? x y <;> rfl
  cases a <;> cases b <;> first | exact hcompute _ _ | rfl

variable {env env' : Environment Value}

mutual

theorem eval_relocate : ∀ e : Expr, e.SeesAlike env env' →
    eval env' (e.relocate g) = relocated g (eval env e)
  | .number .., _ | .boolean .., _ => rfl
  | .source s name, hsees => by
    rw [Expr.relocate, eval, eval]
    exact require_elsewhere hsees g (.unboundSource name s)
  | .variable s name, hsees => by
    rw [Expr.relocate, eval, eval]
    exact require_elsewhere hsees g (.unboundVariable name s)
  | .operate s op left right, ⟨hl, hr⟩ => by
    rw [Expr.relocate, eval, eval, eval_relocate left hl, eval_relocate right hr]
    refine relocated_then fun l => relocated_then fun r => ?_
    rw [left.span_relocate, right.span_relocate]
    simp only [operate_relocate, Outcome.relocate, ← List.map_append]
    rfl
  | .choose _ branches, hsees => choose_relocate branches hsees

theorem choose_relocate : ∀ b : Branches, b.SeesAlike env env' →
    choose env' (b.relocate g) = relocated g (choose env b)
  | .otherwise e, hsees => eval_relocate e hsees
  | .clause p c rest, ⟨hp, hc, hrest⟩ => by
    rw [Branches.relocate, choose, choose, eval_relocate p hp, eval_relocate c hc,
      choose_relocate rest hrest]
    refine relocated_then fun o => ?_
    obtain ⟨value, findings⟩ := o
    rcases value with x | (_ | _) | _
    · let mismatch : Finding := ⟨.predicateNotBoolean .number, p.span, p.span⟩
      have hmap : (findings ++ [mismatch]).map (·.relocate g) =
          findings.map (·.relocate g) ++ [mismatch.relocate g] := List.map_append
      rw [p.span_relocate]
      exact congrArg (fun fs => Except.ok (Outcome.mk Value.undefined fs)) hmap.symm
    · refine relocated_then fun r => ?_
      simp only [Outcome.relocate, ← List.map_append]
      rfl
    · refine relocated_then fun r => ?_
      simp only [Outcome.relocate, ← List.map_append]
      rfl
    · rfl

end

theorem sees_eval : Evaluator.Sees eval := fun _ _ hsees => eval_relocate _ hsees

theorem local_eval : Evaluator.Local eval := Evaluator.Sees.local sees_eval

end Concrete

/-! ### On descriptions -/

namespace Branches

variable (g : Relocation)

theorem clauses_relocate (b : Branches) : (b.relocate g).clauses =
    b.clauses.map fun clause => (clause.1.relocate g, clause.2.relocate g) := by
  fun_induction clauses b with
  | case1 fallback => rfl
  | case2 predicate consequent rest ih => exact congrArg (_ :: ·) ih

theorem fallback_relocate (b : Branches) :
    (b.relocate g).fallback = b.fallback.relocate g := by
  fun_induction fallback b with
  | case1 fallback => rfl
  | case2 predicate consequent rest ih => exact ih

end Branches

namespace Abstract

variable {g : Relocation} {options : AnalysisOptions}

theorem operate_relocate (op : Operator) (ls rs : Span) (a b : AbstractValue) :
    operate options op (g.span ls) (g.span rs) a b = (operate options op ls rs a b).relocate g := by
  have hcompute : ∀ i j, compute options op (g.span rs) i j =
      (compute options op rs i j).relocate g := by
    intro i j
    unfold compute
    cases op with
    | comparison op => rfl
    | arithmetic op =>
      dsimp only [Outcome.relocate]
      split <;> rfl
  cases a <;> cases b <;> first | exact hcompute _ _ | rfl

theorem predicateFindings_relocate (s : Span) (a : AbstractValue) :
    predicateFindings (g.span s) a = (predicateFindings s a).map (·.relocate g) := by
  cases a <;> rfl

theorem unreachableFindings_relocate (b : Branches) (sets : List BooleanSet) :
    unreachableFindings (b.relocate g) sets =
      (unreachableFindings b sets).map (·.relocate g) := by
  unfold unreachableFindings
  rw [b.clauses_relocate, List.zip_map_left, List.filterMap_map, List.map_filterMap]
  congr 1
  funext ⟨clause, set⟩
  dsimp only [Function.comp, Prod.map, id]
  by_cases hset : set.contains true = true
  · rw [if_pos hset, if_pos hset]
    rfl
  · rw [if_neg hset, if_neg hset, clause.1.span_relocate]
    rfl

theorem otherwiseFindings_relocate (b : Branches) (sets : List BooleanSet) :
    otherwiseFindings options (b.relocate g) sets =
      (otherwiseFindings options b sets).map (·.relocate g) := by
  unfold otherwiseFindings
  rw [b.fallback_relocate, Expr.span_relocate]
  split <;> rfl

theorem consequentSpans_relocate (b : Branches) :
    consequentSpans (b.relocate g) = (consequentSpans b).map g.span := by
  unfold consequentSpans
  rw [b.clauses_relocate, b.fallback_relocate, Expr.span_relocate, List.map_append, List.map_map,
    List.map_map]
  simp only [Function.comp_def, Expr.span_relocate, List.map_cons, List.map_nil]

theorem select_relocate (b : Branches) (sets : List BooleanSet) (values : List AbstractValue)
    (d : AbstractValue) : select (b.relocate g) sets values d =
      (select b sets values d).relocate g := by
  unfold select
  dsimp only
  split
  · rfl
  · have hmismatch : ∀ type, firstMismatch? type
        ((values ++ [d]).zip (consequentSpans (b.relocate g))) =
        (firstMismatch? type ((values ++ [d]).zip (consequentSpans b))).map
          (Prod.map id g.span) := by
      intro type
      unfold firstMismatch?
      rw [consequentSpans_relocate, List.zip_map_right, List.find?_map]
      rfl
    rw [hmismatch]
    cases firstMismatch? _ ((values ++ [d]).zip (consequentSpans b)) <;> rfl

variable {env env' : Environment AbstractValue}

mutual

theorem eval_relocate : ∀ e : Expr, e.SeesAlike env env' →
    eval options env' (e.relocate g) = relocated g (eval options env e)
  | .number s x, _ => by
    rw [Expr.relocate, eval, eval]
    cases Interval.make? x x <;> rfl
  | .boolean .., _ => rfl
  | .source s name, hsees => by
    rw [Expr.relocate, eval, eval]
    exact require_elsewhere hsees g (.unboundSource name s)
  | .variable s name, hsees => by
    rw [Expr.relocate, eval, eval]
    exact require_elsewhere hsees g (.unboundVariable name s)
  | .operate s op left right, ⟨hl, hr⟩ => by
    rw [Expr.relocate, eval, eval, eval_relocate left hl, eval_relocate right hr]
    refine relocated_then fun l => relocated_then fun r => ?_
    rw [left.span_relocate, right.span_relocate]
    simp only [operate_relocate, Outcome.relocate, ← List.map_append]
    rfl
  | .choose s branches, hsees => by
    rw [Expr.relocate, eval, eval, predicates_relocate branches hsees]
    refine relocated_then fun ps => ?_
    change (match predicateSets? ps.value with | none => _ | some _ => _) = _
    cases predicateSets? ps.value with
    | none => rfl
    | some sets =>
      dsimp only
      rw [consequents_relocate branches hsees, fallback_relocate branches hsees]
      refine relocated_then fun cs => relocated_then fun d => ?_
      rw [unreachableFindings_relocate, otherwiseFindings_relocate]
      simp only [select_relocate, Outcome.relocate, ← List.map_append]
      rfl

theorem predicates_relocate : ∀ b : Branches,
    b.SeesAlike env env' → predicates options env' (b.relocate g) =
      relocated g (predicates options env b)
  | .otherwise _, _ => rfl
  | .clause p c rest, ⟨hp, _, hrest⟩ => by
    rw [Branches.relocate, predicates, predicates, eval_relocate p hp,
      predicates_relocate rest hrest]
    refine relocated_then fun v => relocated_then fun vs => ?_
    rw [p.span_relocate]
    simp only [Outcome.relocate, predicateFindings_relocate, ← List.map_append]
    rfl

theorem consequents_relocate : ∀ b : Branches,
    b.SeesAlike env env' → consequents options env' (b.relocate g) =
      relocated g (consequents options env b)
  | .otherwise _, _ => rfl
  | .clause p c rest, ⟨_, hc, hrest⟩ => by
    rw [Branches.relocate, consequents, consequents, eval_relocate c hc,
      consequents_relocate rest hrest]
    refine relocated_then fun v => relocated_then fun vs => ?_
    simp only [Outcome.relocate, ← List.map_append]
    rfl

theorem fallback_relocate : ∀ b : Branches,
    b.SeesAlike env env' → fallback options env' (b.relocate g) = relocated g (fallback options env b)
  | .otherwise e, hsees => eval_relocate e hsees
  | .clause _ _ rest, ⟨_, _, hrest⟩ => fallback_relocate rest hrest

end

theorem sees_eval (options : AnalysisOptions) : Evaluator.Sees (eval options) :=
  fun _ _ hsees => eval_relocate _ hsees

theorem local_eval (options : AnalysisOptions) : Evaluator.Local (eval options) :=
  Evaluator.Sees.local (sees_eval options)

end Abstract

/-! ### Relocations that change nothing -/

section Fixed

variable {g : Relocation}

mutual

theorem Expr.relocate_eq_self : ∀ e : Expr, (∀ n ∈ e.nodes, g.span n.span = n.span) →
    e.relocate g = e
  | .number s x, h => congrArg (Expr.number · x) (h _ (Expr.self_mem_nodes _))
  | .boolean s b, h => congrArg (Expr.boolean · b) (h _ (Expr.self_mem_nodes _))
  | .variable s name, h => congrArg (Expr.variable · name) (h _ (Expr.self_mem_nodes _))
  | .source s name, h => congrArg (Expr.source · name) (h _ (Expr.self_mem_nodes _))
  | .operate s op l r, h => by
    have hs : g.span s = s := h _ (Expr.self_mem_nodes _)
    rw [Expr.relocate, hs, l.relocate_eq_self fun n hn => h n (Expr.nodes_left_subset _ _ _ _ hn),
      r.relocate_eq_self fun n hn => h n (Expr.nodes_right_subset _ _ _ _ hn)]
  | .choose s branches, h => by
    have hs : g.span s = s := h _ (Expr.self_mem_nodes _)
    rw [Expr.relocate, hs,
      branches.relocate_eq_self fun n hn => h n (Expr.parts_choose_subset _ _ hn)]

theorem Branches.relocate_eq_self : ∀ b : Branches, (∀ n ∈ b.parts, g.span n.span = n.span) →
    b.relocate g = b
  | .otherwise e, h => congrArg Branches.otherwise (e.relocate_eq_self h)
  | .clause p c rest, h => by
    rw [Branches.relocate,
      p.relocate_eq_self fun n hn => h n (Branches.nodes_predicate_subset _ _ _ hn),
      c.relocate_eq_self fun n hn => h n (Branches.nodes_consequent_subset _ _ _ hn),
      rest.relocate_eq_self fun n hn => h n (Branches.parts_rest_subset _ _ _ hn)]

end

theorem Statement.map_relocate_eq_self {statements : List Statement}
    (h : ∀ s ∈ statements, ∀ n ∈ s.body.nodes, g.span n.span = n.span) :
    statements.map (·.relocate g) = statements := by
  rw [List.map_congr_left (fun s hs => ?_), List.map_id]
  have hbody := s.body.relocate_eq_self (h s hs)
  cases s with
  | sink name body => exact congrArg (Statement.sink name) hbody
  | _ name body => exact congrArg (Statement.variable name) hbody

theorem Statement.map_relocate_id (statements : List Statement) :
    statements.map (·.relocate (.along id)) = statements :=
  map_relocate_eq_self fun _ _ _ _ => rfl

theorem Finding.map_relocate_id (findings : List Finding) :
    findings.map (·.relocate (.along id)) = findings :=
  List.map_id findings

end Fixed

/-! ### Runs -/

section Elsewhere

variable {g g' : Relocation} {name : String} {body : Expr} {rest statements' : List Statement}

/-- Where an assignment stands first, the same statements elsewhere start with that assignment. -/
theorem Statement.exists_variable_of_same (h : statements'.map (·.relocate g') =
      (Statement.variable name body :: rest).map (·.relocate g)) :
    ∃ body' rest', statements' = .variable name body' :: rest' ∧
      body'.relocate g' = body.relocate g ∧
      rest'.map (·.relocate g') = rest.map (·.relocate g) := by
  obtain ⟨s', rest', rfl, hs, hrest⟩ := List.map_eq_cons_iff.1 h
  cases s' with
  | sink name' body' => cases hs
  | «variable» name' body' =>
    obtain ⟨rfl, hbody⟩ := Statement.variable.inj hs
    exact ⟨body', rest', rfl, hbody, hrest⟩

theorem Statement.exists_sink_of_same (h : statements'.map (·.relocate g') =
      (Statement.sink name body :: rest).map (·.relocate g)) :
    ∃ body' rest', statements' = .sink name body' :: rest' ∧
      body'.relocate g' = body.relocate g ∧
      rest'.map (·.relocate g') = rest.map (·.relocate g) := by
  obtain ⟨s', rest', rfl, hs, hrest⟩ := List.map_eq_cons_iff.1 h
  cases s' with
  | «variable» name' body' => cases hs
  | sink name' body' =>
    obtain ⟨rfl, hbody⟩ := Statement.sink.inj hs
    exact ⟨body', rest', rfl, hbody, hrest⟩

end Elsewhere

theorem sinkNamesOf_relocate (g : Relocation) (statements : List Statement) :
    sinkNamesOf (statements.map (·.relocate g)) = sinkNamesOf statements := by
  unfold sinkNamesOf Program.sinkNames
  rw [List.filterMap_map]
  refine List.filterMap_congr fun s _ => ?_
  cases s <;> rfl

theorem Bindings.entries_put_append {V : Type} {before : List (String × V)} {name : String}
    (h : name ∉ before.map Prod.fst) (b : List (String × V)) (value : V) :
    putEntry name value (before ++ b) = before ++ putEntry name value b := by
  induction before with
  | nil => rfl
  | cons entry before ih =>
    obtain ⟨n, v⟩ := entry
    rw [List.map_cons, List.mem_cons, not_or] at h
    rw [List.cons_append, putEntry, if_neg (Ne.symm h.1), ih h.2]
    rfl

section Runs

variable {V : Type} {eval : Evaluator V} {g g' : Relocation} {declared : List String}
  {env env' : Environment V}

/-- An expression that is another one elsewhere is evaluated alike. -/
theorem Evaluator.Local.eval_same (hlocal : eval.Local) (henv : env.AgreesOn declared env')
    {e e' : Expr} (hready : e.Ready declared) (hsame : e'.relocate g' = e.relocate g) :
    relocated g' (eval env' e') = relocated g (eval env e) := by
  have hready' : e'.Ready declared := by
    rw [← Expr.ready_relocate g', hsame, Expr.ready_relocate]
    exact hready
  rw [← hlocal (.refl declared env') g' hready', hsame]
  exact hlocal henv g hready

/-- It has the same value, and its findings there. -/
theorem Evaluator.Local.eval_ok (hlocal : eval.Local) (henv : env.AgreesOn declared env')
    {e e' : Expr} (hready : e.Ready declared) (hsame : e'.relocate g' = e.relocate g)
    {o : Outcome V} (h : eval env e = .ok o) : ∃ o', eval env' e' = .ok o' ∧ o'.value = o.value ∧
      o'.findings.map (·.relocate g') = o.findings.map (·.relocate g) :=
  relocated_eq_ok (hlocal.eval_same henv hready hsame) h

/--
How a run of statements goes on from `done` to `e`, and how the same statements elsewhere, run after
others that filled the sinks `before`, go on from `done'` to `e'`.
-/
structure Follows (g g' : Relocation) (before : List (String × V)) (done e done' e' : Evaluation V) :
    Prop where
  sinks : e'.sinks.entries = before ++ e.sinks.entries
  findings : ∃ news news', e.findings = done.findings ++ news ∧
    e'.findings = done'.findings ++ news' ∧
    news'.map (·.relocate g') = news.map (·.relocate g)

theorem Follows.after {before : List (String × V)} {done e done' e' : Evaluation V}
    {b c : Bindings V} {fs fs' : List Finding}
    (h : Follows g g' before ⟨b, done.findings ++ fs⟩ e ⟨c, done'.findings ++ fs'⟩ e')
    (hsame : fs'.map (·.relocate g') = fs.map (·.relocate g)) :
    Follows g g' before done e done' e' := by
  obtain ⟨hsinks, news, news', hnews, hnews', hrelocated⟩ := h
  refine ⟨hsinks, fs ++ news, fs' ++ news', ?_, ?_, ?_⟩
  · rw [hnews, List.append_assoc]
  · rw [hnews', List.append_assoc]
  · rw [List.map_append, List.map_append, hsame, hrelocated]

/-- Scoped statements run alike elsewhere, after other statements and before more of them. -/
theorem Scoped.runFrom_elsewhere {sinks : List String} {statements : List Statement}
    (h : Scoped declared sinks statements) (hlocal : eval.Local) (henv : env.AgreesOn declared env')
    {statements' : List Statement}
    (hsame : statements'.map (·.relocate g') = statements.map (·.relocate g))
    (before : List (String × V))
    (hfresh : ∀ name ∈ sinkNamesOf statements, name ∉ before.map Prod.fst)
    {done e : Evaluation V} (hrun : runFrom eval env done statements = .ok e)
    (done' : Evaluation V) (hdone : done'.sinks.entries = before ++ done.sinks.entries) :
    ∃ there e', there.sources = env'.sources ∧ Follows g g' before done e done' e' ∧
      ∀ more, runFrom eval env' done' (statements' ++ more) = runFrom eval there e' more := by
  induction h generalizing env env' statements' done done' with
  | nil =>
    obtain rfl := List.map_eq_nil_iff.1 hsame
    obtain rfl := Except.ok.inj hrun
    refine ⟨env', done', rfl, ⟨hdone, [], [], ?_, ?_, rfl⟩, fun _ => rfl⟩
    · exact (List.append_nil _).symm
    · exact (List.append_nil _).symm
  | @assign declared sinks name body rest ready tail ih =>
    obtain ⟨body', rest', rfl, hbody, hrest⟩ := Statement.exists_variable_of_same hsame
    obtain ⟨r, hr, hrun⟩ := runFrom_cons_eq_ok.1 hrun
    obtain ⟨r', hr', hvalue, hfindings⟩ := hlocal.eval_ok henv ready hbody hr
    have hbind := henv.bind name r.value
    rw [← hvalue] at hbind hrun
    obtain ⟨there, e', hsources, hfollows, hmore⟩ := ih hbind hrest hfresh hrun
      ⟨done'.sinks, done'.findings ++ r'.findings⟩ hdone
    refine ⟨there, e', hsources, hfollows.after hfindings, fun more => ?_⟩
    rw [List.cons_append, runFrom_cons, Statement.body, hr']
    exact hmore more
  | @sink declared sinks name body rest ready fresh tail ih =>
    obtain ⟨body', rest', rfl, hbody, hrest⟩ := Statement.exists_sink_of_same hsame
    obtain ⟨hname, hfresh⟩ := List.forall_mem_cons.1 hfresh
    obtain ⟨r, hr, hrun⟩ := runFrom_cons_eq_ok.1 hrun
    obtain ⟨r', hr', hvalue, hfindings⟩ := hlocal.eval_ok henv ready hbody hr
    have hput : (done'.sinks.put name r'.value).entries =
        before ++ (done.sinks.put name r.value).entries := by
      unfold Bindings.put
      rw [hdone, hvalue]
      exact Bindings.entries_put_append hname _ _
    obtain ⟨there, e', hsources, hfollows, hmore⟩ := ih henv hrest hfresh hrun
      ⟨done'.sinks.put name r'.value, done'.findings ++ r'.findings⟩ hput
    refine ⟨there, e', hsources, hfollows.after hfindings, fun more => ?_⟩
    rw [List.cons_append, runFrom_cons, Statement.body, hr']
    exact hmore more

variable {statements : List Statement} {sources : Bindings V} {e : Evaluation V}

/-- A run reports places of nodes only, so what leaves these alone leaves the findings alone. -/
theorem Scoped.findings_fixed (h : Scoped [] [] statements) (hlocal : eval.Local)
    (hfixed : ∀ s ∈ statements, ∀ n ∈ s.body.nodes, g.span n.span = n.span)
    (hrun : runFrom eval (.start sources) ⟨.empty, []⟩ statements = .ok e) :
    ∀ f ∈ e.findings, g.span f.span = f.span := by
  have hsame : statements.map (·.relocate g) = statements.map (·.relocate (.along id)) := by
    rw [Statement.map_relocate_id, Statement.map_relocate_eq_self hfixed]
  obtain ⟨there, e', -, ⟨-, news, news', hnews, hnews', hrelocated⟩, hmore⟩ :=
    h.runFrom_elsewhere hlocal (.refl [] _) hsame [] (fun _ _ => List.not_mem_nil) hrun
      ⟨.empty, []⟩ rfl
  have hend := hmore []
  rw [List.append_nil, hrun] at hend
  obtain rfl : e = e' := Except.ok.inj hend
  rw [List.nil_append] at hnews hnews'
  rw [← hnews, ← hnews', Finding.map_relocate_id] at hrelocated
  have hid : e.findings.map (·.relocate g) = e.findings.map id := by
    rw [hrelocated, List.map_id]
  intro f hf
  exact congrArg Finding.span (List.map_inj_left.1 hid f hf)

/-- Scoped statements run one after the other as they run alone. -/
theorem Scoped.runFrom_append {h : Relocation} {others first second : List Statement}
    (hstatements : Scoped [] [] statements) (hothers : Scoped [] [] others) (hlocal : eval.Local)
    (hdisjoint : ∀ name ∈ sinkNamesOf others, name ∉ sinkNamesOf statements)
    (hfirst : first.map (·.relocate g) = statements.map (·.relocate g))
    (hsecond : second = others.map (·.relocate h))
    (he : runFrom eval (.start sources) ⟨.empty, []⟩ statements = .ok e) {e' : Evaluation V}
    (he' : runFrom eval (.start sources) ⟨.empty, []⟩ others = .ok e') :
    ∃ news, news.map (·.relocate g) = e.findings.map (·.relocate g) ∧
      runFrom eval (.start sources) ⟨.empty, []⟩ (first ++ second) =
        .ok ⟨⟨e.sinks.entries ++ e'.sinks.entries⟩, news ++ e'.findings.map (·.relocate h)⟩ := by
  obtain ⟨there, mid, hsources, ⟨hsinks, olds, news, holds, hnews, hsame⟩, hmore⟩ :=
    hstatements.runFrom_elsewhere hlocal (.refl [] _) hfirst [] (fun _ _ => List.not_mem_nil) he
      ⟨.empty, []⟩ rfl
  rw [List.nil_append] at hsinks holds hnews
  have hnames : mid.sinks.names = sinkNamesOf statements := by
    have hnames := hstatements.names_runFrom (List.nil_subset _) he
    unfold Bindings.names at hnames ⊢
    rw [hsinks, hnames]
    rfl
  have hagrees : (Environment.start sources).AgreesOn [] there := ⟨hsources, fun _ => nofun⟩
  have hsame' : second.map (·.relocate (.along id)) = others.map (·.relocate h) := by
    rw [Statement.map_relocate_id, hsecond]
  have hfresh : ∀ name ∈ sinkNamesOf others, name ∉ mid.sinks.names := by
    rw [hnames]
    exact hdisjoint
  obtain ⟨last, result, -, ⟨hsinks', olds', news', holds', hnews', hsame'⟩, hmore'⟩ :=
    hothers.runFrom_elsewhere hlocal hagrees hsame' mid.sinks.entries hfresh he' mid
      (List.append_nil _).symm
  rw [List.nil_append] at holds'
  rw [Finding.map_relocate_id, ← holds'] at hsame'
  refine ⟨news, by rw [hsame, holds], ?_⟩
  have hend := hmore' []
  rw [List.append_nil] at hend
  rw [hmore second, hend]
  obtain ⟨⟨entries⟩, findings⟩ := result
  dsimp only at hsinks' hnews'
  rw [hsinks', hnews', hsinks, hnews, hsame']
  rfl

end Runs

end RangeRules
