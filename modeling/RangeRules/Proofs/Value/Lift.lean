import RangeRules.Proofs.Interval.Formation
import RangeRules.Proofs.Value.Lattice

/-!
# The description of one value

Among the well-formed descriptions of a value there is a least one, and it is the description that
the value is given. For a finite number it is the point. An infinity has no interval of its own,
since a lower bound may not be infinity: every well-formed interval with infinity in it begins at or
below the largest finite number, so that the least begins there.
-/
namespace RangeRules

namespace Interval

variable {i : Interval} {x : Number}

/-- An infinity comes with the largest finite number, and with all numbers between. -/
theorem contains_infinity_iff (hi : i.WellFormed) (hx : x.isNaN = false) (htop : x.value = ⊤) :
    i.contains x = true ↔ i.encloses ⟨Number.largest, Number.infinity⟩ = true := by
  rw [wellFormed_iff] at hi
  have hlargest := Number.value_le_largest hi.2.2.1.ne
  have hbounded : Bounded ⟨Number.largest, Number.infinity⟩ :=
    ⟨Number.isNaN_largest, Number.isNaN_infinity⟩
  rw [contains_iff, encloses_iff, htop]
  dsimp only
  rw [Number.value_infinity]
  constructor
  · rintro ⟨hi, -, -, hhi⟩
    exact ⟨⟨hi, hbounded⟩, hlargest, hhi⟩
  · rintro ⟨⟨hi, -⟩, -, hhi⟩
    exact ⟨hi, hx, le_top, hhi⟩

theorem contains_neg_infinity_iff (hi : i.WellFormed) (hx : x.isNaN = false) (hbot : x.value = ⊥) :
    i.contains x = true ↔ i.encloses ⟨-Number.infinity, -Number.largest⟩ = true := by
  rw [wellFormed_iff] at hi
  have hlargest := Number.value_neg_largest_le hi.2.2.2.ne'
  have hbounded : Bounded ⟨-Number.infinity, -Number.largest⟩ :=
    ⟨Number.isNaN_neg_infinity, Number.isNaN_neg_largest⟩
  rw [contains_iff, encloses_iff, hbot]
  dsimp only
  rw [Number.value_neg_infinity]
  constructor
  · rintro ⟨hi, -, hlo, -⟩
    exact ⟨⟨hi, hbounded⟩, hlo, hlargest⟩
  · rintro ⟨⟨hi, -⟩, hlo, -⟩
    exact ⟨hi, hx, hlo, bot_le⟩

end Interval

theorem BooleanSet.contains_iff_encloses_singleton (s : BooleanSet) (b : Bool) :
    s.contains b = true ↔ s.encloses (.singleton b) = true := by
  cases s <;> cases b <;> decide

theorem AbstractValue.type_eq_of_contains {a : AbstractValue} {v : Value}
    (h : a.contains v = true) : a.type = v.type := by
  cases a <;> cases v <;> first | rfl | exact absurd h Bool.false_ne_true

namespace Value

variable {v : Value}

theorem admits_lift (v : Value) : v.lift.Admits Interval.WellFormed := by
  cases hv : v.lift with
  | interval i => exact v.liftInsisting_eq.2 i hv
  | boolean | undefined => trivial

theorem type_lift (v : Value) : v.lift.type = v.type := by
  cases v with
  | number x =>
    unfold lift
    dsimp only
    split_ifs <;> rfl
  | boolean | undefined => rfl

/-- An interval has a number in it exactly if it encloses the description of the number. -/
theorem contains_iff_encloses_number {i j : Interval} {x : Number} (hi : i.WellFormed)
    (hx : x.isNaN = false) (hj : (Value.number x).lift = .interval j) :
    i.contains x = true ↔ i.encloses j = true := by
  unfold lift at hj
  dsimp only at hj
  split_ifs at hj with hnan htop hbot
  · exact absurd (hnan.symm.trans hx) Bool.true_eq_false_eq_False
  · obtain rfl := AbstractValue.interval.inj hj
    exact Interval.contains_infinity_iff hi hx ((Number.beq_infinity_iff x).1 htop).2
  · obtain rfl := AbstractValue.interval.inj hj
    exact Interval.contains_neg_infinity_iff hi hx ((Number.beq_neg_infinity_iff x).1 hbot).2
  · -- a point has the number for both bounds
    obtain rfl := AbstractValue.interval.inj hj
    exact Iff.rfl

/-- A well-formed description contains a value exactly if it encloses that of the value. -/
theorem contains_iff_encloses_lift {a : AbstractValue} (ha : a.Admits Interval.WellFormed)
    (hv : ∀ x, v = .number x → x.isNaN = false) :
    a.contains v = true ↔ a.encloses v.lift = true := by
  by_cases htype : a.type = v.type
  · cases v with
    | number x =>
      obtain ⟨i, j, rfl, hj⟩ | ⟨s, t, rfl, -⟩ | ⟨rfl, -⟩ :=
        AbstractValue.cases_of_type_eq (htype.trans (type_lift (.number x)).symm)
      · rw [hj]
        exact contains_iff_encloses_number ha (hv x rfl) hj
      · exact nomatch htype
      · exact nomatch htype
    | boolean b =>
      cases a with
      | boolean s => exact BooleanSet.contains_iff_encloses_singleton s b
      | interval | undefined => exact nomatch htype
    | undefined =>
      cases a with
      | undefined => exact Iff.rfl
      | interval | boolean => exact nomatch htype
  · refine iff_of_false (fun h => htype (AbstractValue.type_eq_of_contains h)) fun h => ?_
    exact htype ((AbstractValue.type_eq_of_encloses h).trans v.type_lift)

/-- Every value but the one that is not a number is given a description without an end of the run,
and it is the least: the value is in it, and the well-formed descriptions that contain the value are
those of the same type that enclose it. -/
theorem lift_least (hv : ∀ x, v = .number x → x.isNaN = false) :
    v.liftInsisting = .ok v.lift ∧ v.lift.Admits Interval.WellFormed ∧ v.lift.contains v = true ∧
      ∀ a : AbstractValue, a.Admits Interval.WellFormed →
        (a.contains v = true ↔ a.sameType v.lift = true ∧ a.encloses v.lift = true) := by
  have hlift := v.admits_lift
  refine ⟨v.liftInsisting_eq.1, hlift, ?_, fun a ha => ?_⟩
  · exact (contains_iff_encloses_lift hlift hv).2 (AbstractValue.encloses_self hlift)
  · rw [contains_iff_encloses_lift ha hv]
    exact ⟨fun h => ⟨decide_eq_true (AbstractValue.type_eq_of_encloses h), h⟩, And.right⟩

/-- An interval without an upper bound has infinity in it, and all that infinity is described by. -/
theorem lift_least_infinity :
    (∀ x, Value.number Number.infinity = .number x → x.isNaN = false) ∧
      (Value.number Number.infinity).lift = .interval ⟨Number.largest, Number.infinity⟩ ∧
      (AbstractValue.interval ⟨0.0, Number.infinity⟩).Admits Interval.WellFormed ∧
      (AbstractValue.interval ⟨0.0, Number.infinity⟩).encloses
        (.interval ⟨Number.largest, Number.infinity⟩) = true := by
  have hnumber : ∀ x, Value.number Number.infinity = .number x → x.isNaN = false := by
    rintro x hx
    obtain rfl := Value.number.inj hx
    exact Number.isNaN_infinity
  have hlift : (Value.number Number.infinity).lift =
      .interval ⟨Number.largest, Number.infinity⟩ := by
    unfold lift
    dsimp only
    rw [Number.isNaN_infinity, if_neg Bool.false_ne_true, if_pos (by decide +kernel)]
  have hunbounded : (AbstractValue.interval ⟨0.0, Number.infinity⟩).Admits Interval.WellFormed :=
    ⟨by decide +kernel, by decide +kernel, by decide +kernel⟩
  obtain ⟨-, -, -, hleast⟩ := lift_least hnumber
  have hencloses := ((hleast _ hunbounded).1 (by decide +kernel)).2
  exact ⟨hnumber, hlift, hunbounded, hlift ▸ hencloses⟩

end Value

end RangeRules
