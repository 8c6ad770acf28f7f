import RangeRules.Proofs.Value.Lattice

/-!
# Wider sources, wider sinks

If each source is described by a wider description than before, the analysis succeeds as before and
every sink gets a wider description of the same type. More clauses of a `when` expression may apply,
and what they add to the union only widens it; errors are found alike. The intervals of sources are
well-formed here, as are all intervals that a caller can make.
-/
namespace RangeRules

/-- The second description is well-formed, and the first one admits all that it does. -/
def AbstractValue.Widens (a b : AbstractValue) : Prop :=
  b.Admits Interval.WellFormed ∧ a.encloses b = true

namespace AbstractValue

theorem Widens.union {a b c d : AbstractValue} (hab : a.Widens b) (hcd : c.Widens d) :
    (a.union c).Widens (b.union d) := by
  obtain ⟨hb, hab⟩ := hab
  obtain ⟨hd, hcd⟩ := hcd
  obtain ⟨i, j, rfl, rfl⟩ | ⟨s, t, rfl, rfl⟩ | ⟨rfl, rfl⟩ :=
      cases_of_type_eq (type_eq_of_encloses hab) <;>
    obtain ⟨k, l, rfl, rfl⟩ | ⟨u, v, rfl, rfl⟩ | ⟨rfl, rfl⟩ :=
      cases_of_type_eq (type_eq_of_encloses hcd) <;> try exact ⟨trivial, rfl⟩
  · exact ⟨Interval.wellFormed_union hb hd, Interval.encloses_union hab hcd⟩
  · exact ⟨trivial, BooleanSet.encloses_union hab hcd⟩

theorem Widens.union_left {a b c d : AbstractValue} (hab : a.Widens b) (hcd : c.Widens d)
    (htype : a.type = c.type) : (a.union c).Widens b := by
  obtain ⟨hb, hab⟩ := hab
  obtain ⟨hd, hcd⟩ := hcd
  obtain ⟨i, j, rfl, rfl⟩ | ⟨s, t, rfl, rfl⟩ | ⟨rfl, rfl⟩ :=
    cases_of_type_eq (type_eq_of_encloses hab)
  · obtain ⟨k, l, rfl, rfl⟩ | ⟨u, v, rfl, rfl⟩ | ⟨rfl, rfl⟩ :=
      cases_of_type_eq (type_eq_of_encloses hcd)
    · have hk := ((Interval.encloses_iff k l).1 hcd).1.1
      exact ⟨hb, Interval.encloses_union_left hab hk⟩
    all_goals exact nomatch htype
  · cases c with
    | boolean u => exact ⟨trivial, BooleanSet.encloses_union_left hab u⟩
    | interval k => exact nomatch htype
    | undefined => exact nomatch htype
  · exact ⟨trivial, rfl⟩

end AbstractValue

namespace Abstract

/-- An operator applied to wider intervals gives a wider result and the same errors. -/
theorem alike_compute (options options' : AnalysisOptions) (op : Operator) (span : Text.Span)
    {i i' j j' : Interval} (hi : (AbstractValue.interval i).Widens (.interval i'))
    (hj : (AbstractValue.interval j).Widens (.interval j')) :
    Alike AbstractValue.Widens (·.severity = .error) (compute options op span i j)
      (compute options' op span i' j') := by
  cases op with
  | comparison op => exact ⟨⟨trivial, Interval.encloses_verdict op hi.1 hj.1 hi.2 hj.2⟩, rfl⟩
  | arithmetic op =>
    refine ⟨⟨Interval.wellFormed_onIntervals op hi.1 hj.1,
      Interval.encloses_onIntervals op hi.1 hj.1 hi.2 hj.2⟩, ?_⟩
    -- a divisor that may be zero is no error, so neither list has one
    unfold compute
    dsimp only
    split <;> split <;> rfl

/-- A clause that applies to the narrower predicate applies to the wider one. -/
theorem widens_clause {s s' : BooleanSet} {d d' a a' : AbstractValue}
    (hs : (AbstractValue.boolean s).Widens (.boolean s')) (hd : d.Widens d') (ha : a.Widens a')
    (htype : d.type = a.type) :
    (if s.contains true then d.union a else d).Widens
      (if s'.contains true then d'.union a' else d') := by
  by_cases hnarrow : s'.contains true = true
  · rw [if_pos hnarrow, if_pos (BooleanSet.contains_of_encloses hs.2 hnarrow)]
    exact hd.union ha
  · rw [if_neg hnarrow]
    split
    · exact hd.union_left ha htype
    · exact hd

theorem congruence_widens (options options' : AnalysisOptions) :
    Congruence options options' AbstractValue.Widens (·.severity = .error) where
  type_eq h := AbstractValue.type_eq_of_encloses h.2
  undefined := ⟨trivial, rfl⟩
  literal h := ⟨Interval.wellFormed_of_make? h,
    Interval.encloses_refl ((Interval.wellFormed_iff _).1 (Interval.wellFormed_of_make? h)).1⟩
  singleton b := ⟨trivial, BooleanSet.encloses_self _⟩
  compute := alike_compute options options'
  clause := widens_clause
  warnings branches _ _ _ := by
    rw [warnings_not_errors, warnings_not_errors]

end Abstract

namespace Bindings

/-- The same names, and under each a description that admits all that the narrower one does. -/
def Encloses (wide narrow : Bindings AbstractValue) : Prop :=
  ∀ name, Option.Rel (fun a b => a.encloses b = true) (wide.get? name) (narrow.get? name)

/-- All intervals among the descriptions are well-formed. -/
def WellFormed (described : Bindings AbstractValue) : Prop :=
  ∀ name a, described.get? name = some a → a.Admits Interval.WellFormed

end Bindings

/--
Wider descriptions of the sources change neither whether the analysis succeeds nor the type of a
sink, and every sink's description encloses the one that it had.
-/
theorem Program.encloses_sinks {p : Program} {options options' : AnalysisOptions}
    {wide narrow : Bindings AbstractValue} (hnarrow : narrow.WellFormed)
    (h : wide.Encloses narrow) :
    ((∃ e, p.analyze wide options = .ok e) ↔ ∃ e', p.analyze narrow options' = .ok e') ∧
      ∀ e e', p.analyze wide options = .ok e → p.analyze narrow options' = .ok e' →
        Bindings.Aligned (fun a b => a.type = b.type ∧ a.encloses b = true) e.sinks e'.sinks := by
  have hsources : ∀ name, Option.Rel AbstractValue.Widens (wide.get? name) (narrow.get? name) :=
    fun name => rel_imp (h name) fun _ b _ hb hab => ⟨hnarrow name b hb, hab⟩
  obtain ⟨hok, hsinks⟩ :=
    (Program.corresponds_analyze (Abstract.congruence_widens options options') p hsources).exists_ok
  refine ⟨hok, fun e e' he he' => ?_⟩
  exact (hsinks e e' he he').1.mono fun a b hab =>
    ⟨AbstractValue.type_eq_of_encloses hab.2, hab.2⟩

namespace Monotonicity

/-- `z: when this.x < 1 0 otherwise 8 / this.x` -/
def guarded : Program :=
  ⟨[], [.sink "z" (.choose ⟨0, 0⟩
    (.clause (.operate ⟨0, 0⟩ (.comparison .lt) (.source ⟨0, 0⟩ "x") (.number ⟨0, 0⟩ 1.0))
      (.number ⟨0, 0⟩ 0.0)
      (.otherwise (.operate ⟨0, 0⟩ (.arithmetic .div) (.number ⟨0, 0⟩ 8.0)
        (.source ⟨0, 0⟩ "x")))))]⟩

/-- A range that the guard shuts out, and one that it does not. -/
def above : Bindings AbstractValue := ⟨[("x", .interval ⟨2.0, 4.0⟩)]⟩

def around : Bindings AbstractValue := ⟨[("x", .interval ⟨-1.0, 4.0⟩)]⟩

theorem wellFormed_above : above.WellFormed := by
  intro name a ha
  have hentry := List.mem_singleton.1 (Bindings.mem_of_get? ha)
  obtain rfl := (Prod.mk.inj hentry).2
  exact ⟨by decide, by decide, by decide⟩

theorem encloses_above : around.Encloses above :=
  Bindings.Aligned.get? (.cons ⟨rfl, by decide⟩ .nil)

end Monotonicity

theorem Program.encloses_sinks_guarded :
    ∃ e e', Monotonicity.guarded.analyze Monotonicity.around .plain = .ok e ∧
      Monotonicity.guarded.analyze Monotonicity.above .plain = .ok e' ∧
      Bindings.Aligned (fun a b => a.type = b.type ∧ a.encloses b = true) e.sinks e'.sinks :=
  ⟨_, _, rfl, rfl,
    (@Program.encloses_sinks Monotonicity.guarded .plain .plain _ _ Monotonicity.wellFormed_above
      Monotonicity.encloses_above).2 _ _ rfl rfl⟩

end RangeRules
