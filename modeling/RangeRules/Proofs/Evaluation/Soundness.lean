import RangeRules.Proofs.Evaluation.Simulation
import RangeRules.Proofs.Evaluation.Trace
import RangeRules.Proofs.Interval.WellFormed

/-!
# The analysis describes every run

If the sources of a run lie within the descriptions of sources that a program is analyzed with, then
every sink of the run lies within its description, or one of the two is undefined. The run may
overflow to infinities; it may not compute anything that is not a number. The program need not come
from a text, and no interval is asked to be well-formed.
-/
namespace RangeRules

/-- The same names, and under each a value that its description admits. -/
def Bindings.Describes (described : Bindings AbstractValue) (sources : Bindings Value) : Prop :=
  ∀ name, Option.Rel (fun a v => a.contains v = true) (described.get? name) (sources.get? name)

namespace Soundness

theorem closed_bounded : Closed Interval.Bounded where
  literal h := by
    obtain ⟨hnan, -, -, -, rfl⟩ := Interval.make?_eq_ok.1 h
    exact hnan
  operation op _ _ _ _ := Interval.bounded_onIntervals op _ _
  union := Interval.bounded_union

theorem closed_wellFormed : Closed Interval.WellFormed where
  literal := Interval.wellFormed_of_make?
  operation op _ _ := Interval.wellFormed_onIntervals op
  union := Interval.wellFormed_union

theorem membership_contains : Membership Interval.Bounded (fun i x => i.contains x = true) where
  closed := closed_bounded
  literal h := by
    obtain ⟨hnan, -, -, -, rfl⟩ := Interval.make?_eq_ok.1 h
    exact (Interval.contains_iff _ _).2 ⟨hnan, hnan.1, le_rfl, le_rfl⟩
  verdict op _ _ _ _ _ _ hx hy := Interval.contains_verdict op hx hy
  union := Interval.contains_union

/-- What is contained in a description is related to it. -/
theorem related_of_contains {a : AbstractValue} {v : Value} (h : a.contains v = true) :
    a.Admits Interval.Bounded ∧ Related (fun i x => i.contains x = true) a v := by
  cases a with
  | interval i =>
    cases v with
    | number x => exact ⟨.of_contains h, .number h⟩
    | boolean b => exact nomatch h
    | undefined => exact nomatch h
  | boolean s =>
    cases v with
    | number x => exact nomatch h
    | boolean b => exact ⟨trivial, .boolean h⟩
    | undefined => exact nomatch h
  | undefined => exact ⟨trivial, .unknown v⟩

theorem contains_of_related {a : AbstractValue} {v : Value}
    (h : Related (fun i x => i.contains x = true) a v) :
    v.isUndefined = true ∨ a.isUndefined = true ∨ a.contains v = true := by
  cases h with
  | unknown => exact .inr (.inl rfl)
  | missing => exact .inl rfl
  | number h => exact .inr (.inr h)
  | boolean h => exact .inr (.inr h)

/-- An operation whose result is a number gives one within the result on intervals. -/
theorem operates_contains {p : Program} {options : AnalysisOptions}
    {described : Bindings AbstractValue} {sources : Bindings Value} (hnan : p.NaNFree sources)
    {there : Environment AbstractValue} {there' : Environment Value} {n : Expr}
    (hmeets : Meets options (.start described) (.start sources) p.statements there there' n) :
    Abstract.Operates options Interval.Bounded (fun i x => i.contains x = true) there there' n := by
  rintro span op left right rfl l r l' r' - - hl' hr' i j x y z - - hx hy - - hi hj hz
  obtain ⟨before, s, after, hstatements, -, hbefore, hvisits⟩ := hmeets
  have hreaches : p.Reaches sources there' (.operate span (.arithmetic op) left right) :=
    ⟨before, s, after, hstatements, hbefore, hvisits⟩
  refine Interval.contains_onIntervals op hi hj hz ?_
  refine hnan _ span op left right hreaches _ z
    (Concrete.eval_operate_eq_ok.2 ⟨l', r', hl', hr', rfl⟩) ?_
  simp [hx, hy, Concrete.operate, Concrete.compute, hz]

end Soundness

/-- Sources within their descriptions are related to them. -/
theorem Bindings.Describes.related {described : Bindings AbstractValue} {sources : Bindings Value}
    (h : described.Describes sources) (name : String) :
    Option.Rel (fun a v => a.Admits Interval.Bounded ∧
      Related (fun i x => i.contains x = true) a v)
      (described.get? name) (sources.get? name) :=
  rel_imp (h name) fun _ _ _ _ => Soundness.related_of_contains

/-- Every sink of a run lies within its description, unless one of the two is undefined. -/
theorem Program.contains_sinks {p : Program} {options : AnalysisOptions}
    {described : Bindings AbstractValue} {sources : Bindings Value}
    {e : Evaluation AbstractValue} {e' : Evaluation Value}
    (hsources : described.Describes sources)
    (h : p.analyze described options = .ok e) (h' : p.interpret sources = .ok e')
    (hnan : p.NaNFree sources) :
    Bindings.Aligned
      (fun a v => v.isUndefined = true ∨ a.isUndefined = true ∨ a.contains v = true)
      e.sinks e'.sinks := by
  have hsinks := Program.related_sinks Soundness.membership_contains hsources.related h h'
    fun _ _ _ hmeets => Soundness.operates_contains hnan hmeets
  exact hsinks.mono fun _ _ hvalue => Soundness.contains_of_related hvalue.2

namespace Soundness

/-- `z: this.x + this.x` -/
def doubling : Program :=
  ⟨[], [.sink "z" (.operate ⟨0, 0⟩ (.arithmetic .add) (.source ⟨0, 0⟩ "x") (.source ⟨0, 0⟩ "x"))]⟩

/-- A range of sources that ends at the greatest finite number. -/
def nonnegative : Bindings AbstractValue := ⟨[("x", .interval ⟨0.0, Number.largest⟩)]⟩

/-- The source at the end of the range. -/
def greatest : Bindings Value := ⟨[("x", .number Number.largest)]⟩

theorem describes_greatest : nonnegative.Describes greatest :=
  Bindings.Aligned.get? (.cons ⟨rfl, by decide⟩ .nil)

theorem naNFree_doubling : doubling.NaNFree greatest := by
  decide +kernel

end Soundness

theorem Program.contains_sinks_overflow :
    ∃ e e', Soundness.doubling.analyze Soundness.nonnegative .plain = .ok e ∧
      Soundness.doubling.interpret Soundness.greatest = .ok e' ∧
      e'.sinks.get? "z" = some (.number Number.infinity) ∧
      Bindings.Aligned
        (fun a v => v.isUndefined = true ∨ a.isUndefined = true ∨ a.contains v = true)
        e.sinks e'.sinks :=
  ⟨_, _, rfl, rfl, by rfl, Program.contains_sinks Soundness.describes_greatest rfl rfl
    Soundness.naNFree_doubling⟩

end RangeRules
