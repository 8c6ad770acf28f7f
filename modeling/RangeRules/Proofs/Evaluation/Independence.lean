import Mathlib.Logic.Function.Basic
import RangeRules.Proofs.Evaluation.Locality
import RangeRules.Proofs.Evaluation.Statements

/-!
# Sinks are independent

The value of a sink depends on the sources that its expression reads, directly or through the
variables as they stand there, and on nothing else. Other sinks may be taken out, and other sources
given another value or another type: what went into the sink is the same in both runs. Two runs are
compared statement by statement, and of their variables only those need to agree that were made of
sources on which the runs agree.
-/
namespace RangeRules

/-! ### What is read -/

mutual

/-- The sources that an expression reads, where it is known which went into each variable. -/
def Expr.reads (origin : String → List String) : Expr → List String
  | .number .. | .boolean .. => []
  | .source _ name => [name]
  | .variable _ name => origin name
  | .operate _ _ l r => l.reads origin ++ r.reads origin
  | .choose _ branches => branches.reads origin

def Branches.reads (origin : String → List String) : Branches → List String
  | .otherwise e => e.reads origin
  | .clause p c rest => p.reads origin ++ c.reads origin ++ rest.reads origin

end

/-- The sources that the sink of the given name reads among some statements. -/
def sinkReads (sink : String) (origin : String → List String) : List Statement → List String
  | [] => []
  | .variable name body :: rest =>
    sinkReads sink (Function.update origin name (body.reads origin)) rest
  | .sink name body :: rest =>
    if name = sink then body.reads origin else sinkReads sink origin rest

/-- The sources that a sink reads, also by way of the variables that it reads. -/
def Program.reads (p : Program) (sink : String) : List String :=
  sinkReads sink (fun _ => []) p.statements

/-- The statements that are left without the sinks of some names. -/
def withoutSinks (dropped : List String) (statements : List Statement) : List Statement :=
  statements.filter fun
    | .sink name _ => name ∉ dropped
    | .variable .. => true

theorem withoutSinks_variable (dropped : List String) (name : String) (body : Expr)
    (rest : List Statement) : withoutSinks dropped (.variable name body :: rest) =
      .variable name body :: withoutSinks dropped rest :=
  rfl

theorem withoutSinks_of_mem {dropped : List String} {name : String} (h : name ∈ dropped)
    (body : Expr) (rest : List Statement) :
    withoutSinks dropped (.sink name body :: rest) = withoutSinks dropped rest :=
  List.filter_cons_of_neg (by simpa using h)

theorem withoutSinks_of_not_mem {dropped : List String} {name : String} (h : name ∉ dropped)
    (body : Expr) (rest : List Statement) : withoutSinks dropped (.sink name body :: rest) =
      .sink name body :: withoutSinks dropped rest :=
  List.filter_cons_of_pos (by simpa using h)

/-- The second program is the first without the sinks of some names, wherever it is written. -/
def Program.Drops (p : Program) (dropped : List String) (p' : Program) : Prop :=
  p'.statements.map (·.relocate .nowhere) =
    (withoutSinks dropped p.statements).map (·.relocate .nowhere)

instance (p : Program) (dropped : List String) (p' : Program) : Decidable (p.Drops dropped p') :=
  inferInstanceAs (Decidable (_ = _))

/-! ### Two environments -/

/-- Some sources are the same, and so are the variables that were made of these only. -/
structure Environment.AgreesFrom {V : Type} (shared : List String) (origin : String → List String)
    (env env' : Environment V) : Prop where
  sources : ∀ name ∈ shared, env'.source? name = env.source? name
  locals : ∀ name, origin name ⊆ shared → env'.local? name = env.local? name

section Reading

variable {V : Type} {shared : List String} {origin : String → List String}
  {env env' : Environment V}

theorem Environment.AgreesFrom.bind (h : env.AgreesFrom shared origin env') (name : String)
    {reads : List String} {v v' : V} (hvalue : reads ⊆ shared → v' = v) :
    (env.bind name v).AgreesFrom shared (Function.update origin name reads)
      (env'.bind name v') := by
  refine ⟨h.sources, fun other hother => ?_⟩
  unfold Environment.bind Environment.local?
  dsimp only
  rw [Bindings.get?_put, Bindings.get?_put]
  by_cases hname : other = name
  · subst hname
    rw [Function.update_self] at hother
    rw [if_pos rfl, if_pos rfl, hvalue hother]
  · rw [Function.update_of_ne hname] at hother
    rw [if_neg hname, if_neg hname]
    exact h.locals other hother

mutual

/-- An expression that reads shared sources only sees no difference. -/
theorem Environment.AgreesFrom.seesAlike (h : env.AgreesFrom shared origin env') :
    ∀ {e : Expr}, e.reads origin ⊆ shared → e.SeesAlike env env'
  | .number .., _ | .boolean .., _ => trivial
  | .source _ name, hreads => h.sources name (hreads List.mem_cons_self)
  | .variable _ name, hreads => h.locals name hreads
  | .operate .., hreads =>
    have ⟨hl, hr⟩ := List.append_subset.1 hreads
    ⟨h.seesAlike hl, h.seesAlike hr⟩
  | .choose .., hreads => h.seesAlikeBranches hreads

theorem Environment.AgreesFrom.seesAlikeBranches (h : env.AgreesFrom shared origin env') :
    ∀ {b : Branches}, b.reads origin ⊆ shared → b.SeesAlike env env'
  | .otherwise _, hreads => h.seesAlike hreads
  | .clause .., hreads =>
    have ⟨hclause, hrest⟩ := List.append_subset.1 hreads
    have ⟨hp, hc⟩ := List.append_subset.1 hclause
    ⟨h.seesAlike hp, h.seesAlike hc, h.seesAlikeBranches hrest⟩

end

theorem Expr.seesAlike_refl (env : Environment V) (e : Expr) : e.SeesAlike env env :=
  have henv : env.AgreesFrom (e.reads fun _ => []) (fun _ => []) env :=
    ⟨fun _ _ => rfl, fun _ _ => rfl⟩
  henv.seesAlike (List.Subset.refl _)

/-- One expression in two places has one value, if it sees no difference. -/
theorem Evaluator.Sees.value_eq {eval : Evaluator V} (hsees : eval.Sees) {e e' : Expr}
    (h : e.SeesAlike env env') (hsame : e'.relocate .nowhere = e.relocate .nowhere)
    {o o' : Outcome V} (ho : eval env e = .ok o) (ho' : eval env' e' = .ok o') :
    o'.value = o.value := by
  have hrelocated : relocated .nowhere (eval env' e') = relocated .nowhere (eval env e) := by
    rw [← hsees .nowhere (e'.seesAlike_refl env'), hsame]
    exact hsees .nowhere h
  obtain ⟨r, hr, hvalue, -⟩ := relocated_eq_ok hrelocated ho
  obtain rfl := Except.ok.inj (ho'.symm.trans hr)
  exact hvalue

end Reading

/-! ### Two runs -/

section Runs

variable {V : Type} {eval : Evaluator V} {sink : String} {shared dropped : List String}

theorem sinkNamesOf_subset {statements statements' : List Statement}
    (hsame : statements'.map (·.relocate .nowhere) =
      (withoutSinks dropped statements).map (·.relocate .nowhere)) :
    sinkNamesOf statements' ⊆ sinkNamesOf statements := by
  rw [← sinkNamesOf_relocate .nowhere, hsame, sinkNamesOf_relocate]
  exact (List.filter_sublist.filterMap _).subset

/-- A sink has one value in two runs, if all that it reads is the same in both. -/
theorem get?_runFrom_eq (hsees : eval.Sees) (hkept : sink ∉ dropped)
    {statements statements' : List Statement} (hnodup : (sinkNamesOf statements).Nodup)
    (hsink : sink ∈ sinkNamesOf statements)
    (hsame : statements'.map (·.relocate .nowhere) =
      (withoutSinks dropped statements).map (·.relocate .nowhere))
    {origin : String → List String} (hreads : sinkReads sink origin statements ⊆ shared)
    {env env' : Environment V} (henv : env.AgreesFrom shared origin env')
    {done done' e e' : Evaluation V} (h : runFrom eval env done statements = .ok e)
    (h' : runFrom eval env' done' statements' = .ok e') :
    ∃ v, e.sinks.get? sink = some v ∧ e'.sinks.get? sink = some v := by
  induction statements generalizing statements' origin env env' done done' with
  | nil => exact nomatch hsink
  | cons s rest ih =>
    obtain ⟨r, hr, hrest⟩ := runFrom_cons_eq_ok.1 h
    cases s with
    | «variable» name body =>
      rw [withoutSinks_variable] at hsame
      obtain ⟨body', rest', rfl, hbody, htail⟩ := Statement.exists_variable_of_same hsame
      obtain ⟨r', hr', hrest'⟩ := runFrom_cons_eq_ok.1 h'
      have hvalue : body.reads origin ⊆ shared → r'.value = r.value := fun hbodyReads =>
        hsees.value_eq (henv.seesAlike hbodyReads) hbody hr hr'
      exact ih hnodup hsink htail hreads (henv.bind name hvalue) hrest hrest'
    | sink name body =>
      change (name :: sinkNamesOf rest).Nodup at hnodup
      change sink ∈ name :: sinkNamesOf rest at hsink
      obtain ⟨hfresh, hnodupRest⟩ := List.nodup_cons.1 hnodup
      rw [sinkReads] at hreads
      by_cases hdrop : name ∈ dropped
      · have hne : name ≠ sink := fun heq => hkept (heq ▸ hdrop)
        rw [if_neg hne] at hreads
        rw [withoutSinks_of_mem hdrop] at hsame
        exact ih hnodupRest ((List.mem_cons.1 hsink).resolve_left (Ne.symm hne)) hsame hreads henv
          hrest h'
      rw [withoutSinks_of_not_mem hdrop] at hsame
      obtain ⟨body', rest', rfl, hbody, htail⟩ := Statement.exists_sink_of_same hsame
      obtain ⟨r', hr', hrest'⟩ := runFrom_cons_eq_ok.1 h'
      by_cases hname : name = sink
      · -- No later statement fills this sink again, in either run.
        subst hname
        rw [if_pos rfl] at hreads
        have hvalue := hsees.value_eq (henv.seesAlike hreads) hbody hr hr'
        have hfresh' : name ∉ sinkNamesOf rest' := fun hmem =>
          hfresh (sinkNamesOf_subset htail hmem)
        exact ⟨r.value, get?_of_runFrom_put hrest hfresh,
          hvalue ▸ get?_of_runFrom_put hrest' hfresh'⟩
      · rw [if_neg hname] at hreads
        exact ih hnodupRest ((List.mem_cons.1 hsink).resolve_left (Ne.symm hname)) htail hreads henv
          hrest hrest'

/-- Statements leave the sources as they are. -/
theorem sources_environmentAfter {statements : List Statement} {env there : Environment V}
    (h : environmentAfter eval env statements = .ok there) : there.sources = env.sources := by
  induction statements generalizing env with
  | nil =>
    obtain rfl := Except.ok.inj h
    rfl
  | cons s rest ih =>
    obtain ⟨r, -, hrest⟩ := environmentAfter_cons_eq_ok.1 h
    rw [ih hrest]
    cases s <;> rfl

end Runs

/--
A sink of the first program depends on the sources that it reads only, whichever of the other sinks
the second program leaves out.
-/
structure Program.Isolates {V : Type} (p p' : Program) (eval : Evaluator V) (sink : String) :
    Prop where
  value_eq : ∀ (sources sources' : Bindings V) (e e' : Evaluation V),
    (∀ name ∈ p.reads sink, sources'.get? name = sources.get? name) →
      p.run eval sources = .ok e → p'.run eval sources' = .ok e' →
      ∃ v, e.sinks.get? sink = some v ∧ e'.sinks.get? sink = some v
  /-- Wherever a source is read, variables of that name are not in its way. -/
  source_eq : ∀ (sources : Bindings V) before there,
    environmentAfter eval (.start sources) before = .ok there → ∀ span name,
      eval there (.source span name) = require (sources.get? name) (.unboundSource name span)

theorem Program.isolates_run {V : Type} {p p' : Program} {eval : Evaluator V}
    (hsees : eval.Sees) (hsource : ∀ env span name, eval env (.source span name) =
      require (env.source? name) (.unboundSource name span)) (hnodup : p.sinkNames.Nodup)
    {sink : String} (hsink : sink ∈ p.sinkNames) {dropped : List String} (hkept : sink ∉ dropped)
    (hdrops : p.Drops dropped p') : p.Isolates p' eval sink := by
  refine ⟨fun sources sources' e e' hshared h h' => ?_, fun sources before there h span name => ?_⟩
  · have henv : (Environment.start sources).AgreesFrom (p.reads sink) (fun _ => [])
        (.start sources') := ⟨hshared, fun _ _ => rfl⟩
    exact get?_runFrom_eq hsees hkept hnodup hsink hdrops (List.Subset.refl _) henv h h'
  · rw [hsource there span name, Environment.source?, sources_environmentAfter h]
    rfl

/--
Each sink of a parsed program is independent of the other sinks and of the sources that it does not
read: two runs that differ in these give it the same value, on values and on descriptions.
-/
theorem Program.isolates_of_parseWithin {limit : Nat} {source : Text.Source} {p p' : Program}
    {sink : String} {dropped : List String} (hparse : parseWithin limit source = .ok p)
    (hsink : sink ∈ p.sinkNames) (hkept : sink ∉ dropped) (hdrops : p.Drops dropped p') :
    (∀ options, p.Isolates p' (Abstract.eval options) sink) ∧ p.Isolates p' Concrete.eval sink :=
  have hnodup : p.sinkNames.Nodup := (scoped_of_parseWithin hparse).nodup_sinkNames.1
  ⟨fun options => isolates_run (Abstract.sees_eval options) (fun _ _ _ => rfl) hnodup hsink hkept
      hdrops,
    isolates_run Concrete.sees_eval (fun _ _ _ => rfl) hnodup hsink hkept hdrops⟩

namespace Independence

/-- The sink `z` reads the first `x`, and a source of that name; the others read the second. -/
def crowded : Text.Source :=
  "x = this.y  z: x + this.x  x = this.w  v: x / 0  u: this.x < x".toList

def alone : Text.Source := "x = this.y  z: x + this.x  x = this.w".toList

def sources : Bindings Value := ⟨[("w", .number 3.0), ("x", .number 2.0), ("y", .number 1.0)]⟩

/-- The same sources as far as `z` reads them, and a source more. -/
def others : Bindings Value :=
  ⟨[("k", .undefined), ("y", .number 1.0), ("w", .boolean true), ("x", .number 2.0)]⟩

end Independence

theorem Program.isolates_crowded : ∃ p p' e e',
    Program.parseWithin 8 Independence.crowded = .ok p ∧ p.reads "z" = ["y", "x"] ∧
    Program.parseWithin 8 Independence.alone = .ok p' ∧ p.Drops ["v", "u"] p' ∧
    p.interpret Independence.sources = .ok e ∧ e.sinks.names = ["z", "v", "u"] ∧
    p'.interpret Independence.others = .ok e' ∧ e'.sinks.names = ["z"] ∧
    ∃ v, e.sinks.get? "z" = some v ∧ e'.sinks.get? "z" = some v := by
  have hparse : ((Program.parseWithin 8 Independence.crowded).toOption.map fun p =>
      (Program.parseWithin 8 Independence.alone).toOption.map fun p' =>
        (p.sinkNames, p.reads "z", decide (p.Drops ["v", "u"] p'))) =
      some (some (["z", "v", "u"], ["y", "x"], true)) := by
    decide +kernel
  have hrun : ((Program.parseWithin 8 Independence.crowded).toOption.bind fun p =>
      (p.interpret Independence.sources).toOption.map (·.sinks.names)) =
      some ["z", "v", "u"] := by
    decide +kernel
  have hrun' : ((Program.parseWithin 8 Independence.alone).toOption.bind fun p =>
      (p.interpret Independence.others).toOption.map (·.sinks.names)) = some ["z"] := by
    decide +kernel
  obtain ⟨p, hp, hparse⟩ := Option.map_eq_some_iff.1 hparse
  obtain ⟨p', hp', hparse⟩ := Option.map_eq_some_iff.1 hparse
  simp only [Prod.mk.injEq, decide_eq_true_eq] at hparse
  obtain ⟨hsinks, hreads, hdrops⟩ := hparse
  rw [hp] at hrun
  rw [hp'] at hrun'
  obtain ⟨e, he, hnames⟩ := Option.map_eq_some_iff.1 hrun
  obtain ⟨e', he', hnames'⟩ := Option.map_eq_some_iff.1 hrun'
  have hsink : "z" ∈ p.sinkNames := hsinks ▸ List.mem_cons_self
  have hisolates := (Program.isolates_of_parseWithin (ok_of_toOption hp) hsink (by decide)
    hdrops).2
  have hshared : ∀ name ∈ p.reads "z",
      Independence.others.get? name = Independence.sources.get? name := by
    rw [hreads]
    simp only [List.forall_mem_cons]
    exact ⟨rfl, rfl, nofun⟩
  exact ⟨p, p', e, e', ok_of_toOption hp, hreads, ok_of_toOption hp', hdrops, ok_of_toOption he,
    hnames, ok_of_toOption he', hnames',
    hisolates.value_eq _ _ e e' hshared (ok_of_toOption he) (ok_of_toOption he')⟩

end RangeRules
