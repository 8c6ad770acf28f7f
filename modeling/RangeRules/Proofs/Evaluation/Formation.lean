import RangeRules.Proofs.Evaluation.Origin
import RangeRules.Proofs.SourceArgument.Formation

/-!
# Intervals during an analysis

An analysis reads intervals from the sources, makes them of literals that pass the check, computes
with them and unites them. So each of its intermediate results comes about in one of the ways there
are, if the sources do, and this holds up to where an analysis stops short as well.
-/
namespace RangeRules

theorem Environment.Each.bind {V : Type} {p : V → Prop} {env : Environment V} (h : env.Each p)
    (name : String) {v : V} (hv : p v) : (env.bind name v).Each p := by
  refine ⟨h.sources, fun other w hw => ?_⟩
  have hput : (env.bind name v).local? other = if other = name then some v else env.local? other :=
    Bindings.get?_put _ name other v
  rw [hput] at hw
  split at hw
  · obtain rfl := Option.some.inj hw
    exact hv
  · exact h.locals other w hw

namespace Abstract

variable {P : Interval → Prop} {options : AnalysisOptions} {env there : Environment AbstractValue}

/-- What all descriptions have that are read at first, all have that are read later. -/
theorem each_environmentAfter (closed : Closed P) (henv : env.Each (·.Admits P))
    {statements : List Statement}
    (h : environmentAfter (eval options) env statements = .ok there) :
    there.Each (·.Admits P) := by
  induction statements generalizing env with
  | nil =>
    obtain rfl := Except.ok.inj h
    exact henv
  | cons s rest ih =>
    obtain ⟨r, hr, hrest⟩ := environmentAfter_cons_eq_ok.1 h
    have hvalue : r.value.Admits P := admits_eval closed henv s.body hr
    refine ih ?_ hrest
    cases s with
    | sink name body => exact henv
    | _ name body => exact henv.bind name hvalue

/-- An interval that evaluating a node makes: its value, or what some of the clauses of a `when`
expression unite to before the others are looked at. -/
inductive Makes (options : AnalysisOptions) (env : Environment AbstractValue) :
    Expr → Interval → Prop where
  | value {n : Expr} {o : Outcome AbstractValue} {i : Interval} (ok : eval options env n = .ok o)
    (interval : o.value = .interval i) : Makes options env n i
  | united {span : Text.Span} {branches : Branches} {parts : Parts} {i : Interval} (k : Nat)
    (parts_ok : PartsOf options env branches parts)
    (interval : unite (parts.sets.take k) parts.consequents.value parts.fallback.value =
      .interval i) : Makes options env (.choose span branches) i

theorem Makes.holds (closed : Closed P) (henv : env.Each (·.Admits P)) {n : Expr} {i : Interval}
    (h : Makes options env n i) : P i := by
  cases h with
  | value ok interval =>
    have hvalue := admits_eval closed henv n ok
    rwa [interval] at hvalue
  | @united span branches parts i k parts_ok interval =>
    obtain ⟨hconsequents, hfallback⟩ := admits_parts closed henv _ parts_ok
    have hunited := admits_unite closed (parts.sets.take k) hconsequents hfallback
    rwa [interval] at hunited

end Abstract

/-- An analysis of the program makes the interval, whether or not it comes to its end. -/
def Program.Makes (p : Program) (options : AnalysisOptions) (described : Bindings AbstractValue)
    (i : Interval) : Prop :=
  ∃ before s after there n, p.statements = before ++ s :: after ∧
    environmentAfter (Abstract.eval options) (.start described) before = .ok there ∧
    Abstract.Visits options there s.body n ∧ Abstract.Makes options there n i

theorem closed_built : Closed Interval.Built where
  literal := .checked
  operation op _ _ := .operation op
  union := .union

theorem Program.Makes.built {p : Program} {options : AnalysisOptions}
    {described : Bindings AbstractValue} (hbuilt : described.Built) {i : Interval}
    (h : p.Makes options described i) : i.Built := by
  obtain ⟨before, s, after, there, n, -, hbefore, -, hmakes⟩ := h
  have hstart : (Environment.start described).Each (·.Admits Interval.Built) :=
    ⟨hbuilt, nofun⟩
  exact hmakes.holds closed_built (Abstract.each_environmentAfter closed_built hstart hbefore)

/--
Every interval has bounds that pass the check: however it came about, on any sources, at any point
of an analysis, and of the sources that accepted arguments give. And no interval that is made of
bounds without an answer to their refusal is made of bounds that are refused: not in describing a
value, and not in reading the arguments that were accepted.
-/
theorem Interval.accepted_everywhere :
    (∀ i : Interval, i.Built → i.Accepted) ∧
    (∀ (p : Program) (options : AnalysisOptions) (described : Bindings AbstractValue)
      (i : Interval), described.Built → p.Makes options described i → i.Accepted) ∧
    (∀ v : Value, v.liftInsisting = .ok v.lift) ∧
    ∀ (texts : List (List Char)) (args : List SourceArgument),
      texts.mapM SourceArgument.read = .ok args →
      SourceArgument.abstractSourcesInsisting args =
          .mk (.ok (SourceArgument.abstractSources args)) ∧
        ∀ described, SourceArgument.abstractSources args = .ok described → described.Built := by
  refine ⟨?_, ?_, ?_, ?_⟩
  · intro i hi
    exact hi.wellFormed.accepted
  · intro p options described i hbuilt hmakes
    exact (hmakes.built hbuilt).wellFormed.accepted
  · intro v
    exact v.liftInsisting_eq.1
  · intro texts args hread
    have hnumber := SourceArgument.isFinite_of_mapM_read hread
    exact ⟨SourceArgument.abstractSourcesInsisting_eq hnumber,
      fun described h => SourceArgument.built_of_abstractSources hnumber h⟩

namespace Formation

/-- `this.x * this.x` -/
def square : Expr :=
  .operate ⟨0, 0⟩ (.arithmetic .mul) (.source ⟨0, 0⟩ "x") (.source ⟨0, 0⟩ "x")

/-- `z: this.x * this.x` -/
def squared : Program := ⟨[], [.sink "z" square]⟩

/-- A range whose square overflows at both ends. -/
def huge : List (List Char) := ["x=1e200..1e300".toList]

end Formation

theorem Interval.accepted_everywhere_overflow : ∃ args described i,
    Formation.huge.mapM SourceArgument.read = .ok args ∧
      SourceArgument.abstractSourcesInsisting args = .mk (.ok (.ok described)) ∧
      Formation.squared.Makes .plain described i ∧ (i.lo == Number.largest) = true ∧
      i.Accepted := by
  have hrun : ((Formation.huge.mapM SourceArgument.read).toOption.bind fun args =>
      (SourceArgument.abstractSources args).toOption.bind fun described =>
        (Abstract.eval .plain (.start described) Formation.square).toOption.bind fun o =>
          o.value.interval?.map fun i => i.lo == Number.largest) = some true := by
    decide +kernel
  obtain ⟨args, hargs, hrun⟩ := Option.bind_eq_some_iff.1 hrun
  obtain ⟨described, hdescribed, hrun⟩ := Option.bind_eq_some_iff.1 hrun
  obtain ⟨o, ho, hrun⟩ := Option.bind_eq_some_iff.1 hrun
  obtain ⟨i, hi, hlo⟩ := Option.map_eq_some_iff.1 hrun
  have hvalue : o.value = .interval i := by
    cases hv : o.value with
    | interval j => rw [hv] at hi; exact congrArg _ (Option.some.inj hi)
    | boolean set => rw [hv] at hi; exact nomatch hi
    | undefined => rw [hv] at hi; exact nomatch hi
  have hmakes : Formation.squared.Makes .plain described i :=
    ⟨[], _, [], _, _, rfl, rfl, .self _, .value (ok_of_toOption ho) hvalue⟩
  obtain ⟨-, hanalysis, -, harguments⟩ := Interval.accepted_everywhere
  obtain ⟨hinsisting, hbuilt⟩ := harguments _ args (ok_of_toOption hargs)
  rw [ok_of_toOption hdescribed] at hinsisting
  exact ⟨args, described, i, ok_of_toOption hargs, hinsisting, hmakes, hlo,
    hanalysis _ .plain described i (hbuilt described (ok_of_toOption hdescribed)) hmakes⟩

end RangeRules
