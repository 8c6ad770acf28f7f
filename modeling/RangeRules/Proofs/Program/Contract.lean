import RangeRules.Proofs.Evaluation.Reach
import RangeRules.Proofs.Interval.WellFormed
import RangeRules.Proofs.Program.Check

/-!
# Runs of parsed programs keep their contract

A parsed program has finite numbers only and reads no variable before it is assigned. A run of it,
on values or on descriptions, therefore stops for one reason only: a source without a binding,
read somewhere in the program. Otherwise it fills every sink, each once and in the order of the
statements, whatever problems it finds. The invariant of a run is that the environment binds all
variables declared so far.
-/
namespace RangeRules

open Text (Span)

mutual

/-- Where the expression reads a source, and under which name. -/
def Expr.sourceRefs : Expr → List (Span × String)
  | .source span name => [(span, name)]
  | .number .. | .boolean .. | .variable .. => []
  | .operate _ _ l r => l.sourceRefs ++ r.sourceRefs
  | .choose _ branches => branches.sourceRefs

def Branches.sourceRefs : Branches → List (Span × String)
  | .otherwise e => e.sourceRefs
  | .clause p c rest => p.sourceRefs ++ c.sourceRefs ++ rest.sourceRefs

end

/-- Where the program reads a source, in any of its statements. -/
def Program.sourceRefs (p : Program) : List (Span × String) :=
  p.statements.flatMap fun s => s.body.sourceRefs

/-- Nothing stops the run, or a source without a binding that one of the places reads. -/
inductive StopsAt {V A : Type} (sources : Bindings V) (refs : List (Span × String)) :
    Except ContractViolation A → Prop where
  | never (a : A) : StopsAt sources refs (.ok a)
  | unbound {span : Span} {name : String} (mem : (span, name) ∈ refs)
    (missing : sources.get? name = none) : StopsAt sources refs (.error (.unboundSource name span))

theorem StopsAt.then {V A B : Type} {sources : Bindings V} {refs : List (Span × String)}
    {x : Except ContractViolation A} {f : A → Except ContractViolation B}
    (hx : StopsAt sources refs x) (hf : ∀ a, StopsAt sources refs (f a)) :
    StopsAt sources refs (x >>= f) := by
  cases hx with
  | never a => exact hf a
  | unbound mem missing => exact .unbound mem missing

/-- All the given variables can be read. -/
def Environment.Binds {V : Type} (env : Environment V) (declared : List String) : Prop :=
  ∀ name ∈ declared, ∃ v, env.local? name = some v

theorem Environment.Binds.bind {V : Type} {env : Environment V} {declared : List String}
    (h : env.Binds declared) (name : String) (value : V) :
    (env.bind name value).Binds (name :: declared) := fun other hother =>
  Bindings.exists_get?_put env.locals name value ((List.mem_cons.1 hother).imp_right (h other))

section Evaluators

variable {V : Type} {env : Environment V} {declared : List String} {refs : List (Span × String)}

theorem stopsAt_source {span : Span} {name : String} (h : (span, name) ∈ refs) :
    StopsAt env.sources refs (require (env.source? name) (.unboundSource name span)) := by
  unfold Environment.source?
  cases hv : env.sources.get? name with
  | none => exact .unbound h hv
  | some v => exact .never _

theorem stopsAt_variable (henv : env.Binds declared) {name : String} (h : name ∈ declared)
    (sources : Bindings V) (c : ContractViolation) :
    StopsAt sources refs (require (env.local? name) c) := by
  obtain ⟨v, hv⟩ := henv name h
  rw [hv]
  exact .never _

end Evaluators

/-- Evaluating what is ready stops only at one of its sources. -/
def Evaluator.Total {V : Type} (eval : Evaluator V) : Prop :=
  ∀ {env : Environment V} {declared : List String} {e : Expr} {refs : List (Span × String)},
    env.Binds declared → e.Ready declared → e.sourceRefs ⊆ refs →
    StopsAt env.sources refs (eval env e)

mutual

theorem Concrete.stopsAt_eval {env : Environment Value} {declared : List String}
    {refs : List (Span × String)} (henv : env.Binds declared) :
    ∀ e : Expr, e.Ready declared → e.sourceRefs ⊆ refs → StopsAt env.sources refs (eval env e)
  | .number .., _, _ | .boolean .., _, _ => .never _
  | .source .., _, hrefs => stopsAt_source (hrefs List.mem_cons_self)
  | .variable .., hready, _ => stopsAt_variable henv hready _ _
  | .operate _ _ left right, hready, hrefs => by
    obtain ⟨hleft, hright⟩ := List.append_subset.1 hrefs
    rw [eval]
    exact (stopsAt_eval henv left hready.1 hleft).then fun l =>
      (stopsAt_eval henv right hready.2 hright).then fun r => .never _
  | .choose _ branches, hready, hrefs => by
    rw [eval]
    exact stopsAt_choose henv branches hready hrefs

theorem Concrete.stopsAt_choose {env : Environment Value} {declared : List String}
    {refs : List (Span × String)} (henv : env.Binds declared) :
    ∀ b : Branches, b.Ready declared → b.sourceRefs ⊆ refs → StopsAt env.sources refs (choose env b)
  | .otherwise e, hready, hrefs => stopsAt_eval henv e hready hrefs
  | .clause p c rest, ⟨hp, hc, hrest⟩, hrefs => by
    obtain ⟨hrefs, hrefs'⟩ := List.append_subset.1 hrefs
    obtain ⟨hprefs, hcrefs⟩ := List.append_subset.1 hrefs
    rw [choose]
    refine (stopsAt_eval henv p hp hprefs).then fun v => ?_
    split
    · exact (stopsAt_eval henv c hc hcrefs).then fun _ => .never _
    · exact (stopsAt_choose henv rest hrest hrefs').then fun _ => .never _
    · exact .never _
    · exact .never _

end

theorem Concrete.total_eval : Evaluator.Total eval :=
  fun henv hready hrefs => stopsAt_eval henv _ hready hrefs

mutual

theorem Abstract.stopsAt_eval {options : AnalysisOptions} {env : Environment AbstractValue}
    {declared : List String} {refs : List (Span × String)} (henv : env.Binds declared) :
    ∀ e : Expr, e.Ready declared → e.sourceRefs ⊆ refs →
      StopsAt env.sources refs (eval options env e)
  | .number _ x, hready, _ => by
    rw [eval, Interval.make?_of_isFinite hready]
    exact .never _
  | .boolean .., _, _ => .never _
  | .source .., _, hrefs => stopsAt_source (hrefs List.mem_cons_self)
  | .variable .., hready, _ => stopsAt_variable henv hready _ _
  | .operate _ _ left right, hready, hrefs => by
    obtain ⟨hleft, hright⟩ := List.append_subset.1 hrefs
    rw [eval]
    exact (stopsAt_eval henv left hready.1 hleft).then fun l =>
      (stopsAt_eval henv right hready.2 hright).then fun r => .never _
  | .choose _ branches, hready, hrefs => by
    rw [eval]
    refine (stopsAt_predicates henv branches hready hrefs).then fun ps => ?_
    split
    · exact .never _
    · exact (stopsAt_consequents henv branches hready hrefs).then fun cs =>
        (stopsAt_fallback henv branches hready hrefs).then fun d => .never _

theorem Abstract.stopsAt_predicates {options : AnalysisOptions} {env : Environment AbstractValue}
    {declared : List String} {refs : List (Span × String)} (henv : env.Binds declared) :
    ∀ b : Branches, b.Ready declared → b.sourceRefs ⊆ refs →
      StopsAt env.sources refs (predicates options env b)
  | .otherwise _, _, _ => .never _
  | .clause p c rest, ⟨hp, _, hrest⟩, hrefs => by
    obtain ⟨hrefs, hrefs'⟩ := List.append_subset.1 hrefs
    rw [predicates]
    exact (stopsAt_eval henv p hp (List.append_subset.1 hrefs).1).then fun v =>
      (stopsAt_predicates henv rest hrest hrefs').then fun vs => .never _

theorem Abstract.stopsAt_consequents {options : AnalysisOptions} {env : Environment AbstractValue}
    {declared : List String} {refs : List (Span × String)} (henv : env.Binds declared) :
    ∀ b : Branches, b.Ready declared → b.sourceRefs ⊆ refs →
      StopsAt env.sources refs (consequents options env b)
  | .otherwise _, _, _ => .never _
  | .clause p c rest, ⟨_, hc, hrest⟩, hrefs => by
    obtain ⟨hrefs, hrefs'⟩ := List.append_subset.1 hrefs
    rw [consequents]
    exact (stopsAt_eval henv c hc (List.append_subset.1 hrefs).2).then fun v =>
      (stopsAt_consequents henv rest hrest hrefs').then fun vs => .never _

theorem Abstract.stopsAt_fallback {options : AnalysisOptions} {env : Environment AbstractValue}
    {declared : List String} {refs : List (Span × String)} (henv : env.Binds declared) :
    ∀ b : Branches, b.Ready declared → b.sourceRefs ⊆ refs →
      StopsAt env.sources refs (fallback options env b)
  | .otherwise e, hready, hrefs => stopsAt_eval henv e hready hrefs
  | .clause _ _ rest, ⟨_, _, hrest⟩, hrefs =>
    stopsAt_fallback henv rest hrest (List.append_subset.1 hrefs).2

end

theorem Abstract.total_eval (options : AnalysisOptions) : Evaluator.Total (eval options) :=
  fun henv hready hrefs => stopsAt_eval henv _ hready hrefs

/-- The names of the sinks among some statements. -/
abbrev sinkNamesOf (statements : List Statement) : List String :=
  Program.sinkNames ⟨[], statements⟩

section Runs

variable {V : Type} {eval : Evaluator V} {env : Environment V} {done e : Evaluation V}
  {declared sinks : List String} {statements : List Statement} {refs : List (Span × String)}

/-- A run of scoped statements goes on until a source is missing. -/
theorem Scoped.stopsAt_runFrom (h : Scoped declared sinks statements) (heval : eval.Total)
    (henv : env.Binds declared) (hrefs : ∀ s ∈ statements, s.body.sourceRefs ⊆ refs) :
    StopsAt env.sources refs (runFrom eval env done statements) := by
  induction h generalizing env done with
  | nil => exact .never _
  | @assign declared sinks name body rest ready tail ih =>
    rw [List.forall_mem_cons] at hrefs
    rw [runFrom_cons]
    exact (heval henv ready hrefs.1).then fun r => ih (henv.bind name r.value) hrefs.2
  | sink ready fresh tail ih =>
    rw [List.forall_mem_cons] at hrefs
    rw [runFrom_cons]
    exact (heval henv ready hrefs.1).then fun r => ih henv hrefs.2

/-- A run of scoped statements adds their sinks to those filled before. -/
theorem Scoped.names_runFrom (h : Scoped declared sinks statements)
    (hsinks : done.sinks.names ⊆ sinks) (hrun : runFrom eval env done statements = .ok e) :
    e.sinks.names = done.sinks.names ++ sinkNamesOf statements := by
  induction h generalizing env done with
  | nil =>
    obtain rfl := Except.ok.inj hrun
    exact (List.append_nil _).symm
  | @assign declared sinks name body rest ready tail ih =>
    obtain ⟨r, -, hrest⟩ := runFrom_cons_eq_ok.1 hrun
    exact @ih _ ⟨done.sinks, done.findings ++ r.findings⟩ hsinks hrest
  | @sink declared sinks name body rest ready fresh tail ih =>
    obtain ⟨r, -, hrest⟩ := runFrom_cons_eq_ok.1 hrun
    change runFrom eval _ ⟨done.sinks.put name r.value, _⟩ rest = .ok e at hrest
    have hput := Bindings.names_put r.value fun hmem => fresh (hsinks hmem)
    have hsinks' : (done.sinks.put name r.value).names ⊆ name :: sinks := by
      rw [hput]
      exact List.append_subset.2 ⟨List.subset_cons_of_subset _ hsinks, by simp⟩
    rw [ih hsinks' hrest, hput, List.append_assoc]
    rfl

theorem Scoped.nodup_sinkNames (h : Scoped declared sinks statements) :
    (sinkNamesOf statements).Nodup ∧ ∀ name ∈ sinks, name ∉ sinkNamesOf statements := by
  induction h with
  | nil => exact ⟨List.nodup_nil, fun _ _ => List.not_mem_nil⟩
  | assign ready tail ih => exact ih
  | @sink declared sinks name body rest ready fresh tail ih =>
    change (name :: sinkNamesOf rest).Nodup ∧ ∀ n ∈ sinks, n ∉ name :: sinkNamesOf rest
    obtain ⟨hnodup, hdisjoint⟩ := ih
    rw [List.forall_mem_cons] at hdisjoint
    refine ⟨List.nodup_cons.2 ⟨hdisjoint.1, hnodup⟩, fun n hn hmem => ?_⟩
    rcases List.mem_cons.1 hmem with rfl | hmem
    · exact fresh hn
    · exact hdisjoint.2 n hn hmem

end Runs

/-- What a run of the program may come to. -/
structure Program.KeepsContract {V : Type} (p : Program) (sources : Bindings V)
    (run : Except ContractViolation (Evaluation V)) : Prop where
  /-- Only a source that the program reads, and that has no binding, stops the run. -/
  unbound : ∀ c, run = .error c → ∃ span name, (span, name) ∈ p.sourceRefs ∧
    sources.get? name = none ∧ c = .unboundSource name span
  exists_ok : (∀ span name, (span, name) ∈ p.sourceRefs → ∃ v, sources.get? name = some v) →
    ∃ e, run = .ok e
  names : ∀ e, run = .ok e → e.sinks.names = p.sinkNames

theorem Program.keepsContract_run {V : Type} {p : Program} (h : Scoped [] [] p.statements)
    {eval : Evaluator V} (heval : eval.Total) (sources : Bindings V) :
    p.KeepsContract sources (p.run eval sources) := by
  have hstops : StopsAt sources p.sourceRefs (p.run eval sources) :=
    @Scoped.stopsAt_runFrom V eval (.start sources) _ [] [] p.statements _ h heval
      (fun _ hname => nomatch hname) fun s hs ref href => List.mem_flatMap.2 ⟨s, hs, href⟩
  refine ⟨fun c hc => ?_, fun hbound => ?_, fun e he => h.names_runFrom (List.nil_subset _) he⟩
  · rw [hc] at hstops
    cases hstops with
    | unbound mem missing => exact ⟨_, _, mem, missing, rfl⟩
  · generalize p.run eval sources = run at hstops ⊢
    cases hstops with
    | never e => exact ⟨e, rfl⟩
    | unbound mem missing =>
      obtain ⟨v, hv⟩ := hbound _ _ mem
      exact nomatch missing.symm.trans hv

/--
Of a parsed program both runs keep the contract, for any sources and options, and the sinks have
names of their own.
-/
theorem Program.keepsContract_of_parseWithin {limit : Nat} {source : Text.Source} {p : Program}
    (h : Program.parseWithin limit source = .ok p) :
    p.sinkNames.Nodup ∧
      (∀ options described, p.KeepsContract described (p.analyze described options)) ∧
      ∀ sources, p.KeepsContract sources (p.interpret sources) :=
  have hscoped := scoped_of_parseWithin h
  ⟨hscoped.nodup_sinkNames.1,
    fun options described => keepsContract_run hscoped (Abstract.total_eval options) described,
    fun sources => keepsContract_run hscoped Concrete.total_eval sources⟩

namespace Contract

/-- Divides by zero, assigns a variable again and reads a source in one branch only. -/
def rebound : Text.Source :=
  "a = this.x  z: a / 0  a = when a < 1 2 otherwise this.y  w: a > 0".toList

/-- Sources that no operator of the program accepts. -/
def mistyped : Bindings Value := ⟨[("x", .boolean true), ("y", .undefined)]⟩

end Contract

theorem Program.keepsContract_rebound :
    ∃ p e, Program.parseWithin 8 Contract.rebound = .ok p ∧
      p.interpret Contract.mistyped = .ok e ∧ e.sinks.names = ["z", "w"] := by
  have hparse : ((Program.parseWithin 8 Contract.rebound).toOption.map fun p =>
      (p.sinkNames, p.sourceRefs)) =
      some (["z", "w"], [(⟨4, 10⟩, "x"), (⟨49, 55⟩, "y")]) := by
    decide +kernel
  obtain ⟨p, hp, hpair⟩ := Option.map_eq_some_iff.1 hparse
  obtain ⟨hnames, hrefs⟩ := Prod.mk.inj hpair
  obtain ⟨-, -, hkeeps⟩ := Program.keepsContract_of_parseWithin (ok_of_toOption hp)
  have hbound : ∀ span name, (span, name) ∈ p.sourceRefs →
      ∃ v, Contract.mistyped.get? name = some v := by
    rw [hrefs]
    simp only [List.mem_cons, Prod.mk.injEq, List.not_mem_nil, or_false]
    rintro _ _ (⟨-, rfl⟩ | ⟨-, rfl⟩)
    · exact ⟨_, rfl⟩
    · exact ⟨_, rfl⟩
  obtain ⟨e, he⟩ := (hkeeps Contract.mistyped).exists_ok hbound
  exact ⟨p, e, ok_of_toOption hp, he, ((hkeeps Contract.mistyped).names e he).trans hnames⟩

end RangeRules
