import RangeRules.Proofs.Interval.Comparison
import RangeRules.Proofs.Interval.Formation

/-!
# Operations on points

An interval of one finite number is its point. An operation on two points that gives a finite number
gives the point of that number, rounded as the operation on numbers rounds it, and a comparison of
two points is certain of its verdict. The bounds of a point need not be the number itself: one may
be the other zero. Operations do not tell intervals with equal bounds apart, so that every case
reduces to intervals with a number twice.
-/
namespace RangeRules

theorem BooleanSet.eq_of_encloses {s t : BooleanSet} (hst : s.encloses t = true)
    (hts : t.encloses s = true) : s = t := by
  revert hst hts
  cases s <;> cases t <;> decide

namespace Interval

variable {i i' j j' : Interval} {x y z : Number}

/-- The number is finite, and the interval has no other. -/
structure PointOf (i : Interval) (x : Number) : Prop where
  finite : x.isFinite = true
  same : i.same (.singleton x) = true

theorem pointOf_singleton (h : x.isFinite = true) : (singleton x).PointOf x := by
  have hbounded := ((wellFormed_iff _).1 (wellFormed_singleton h)).1
  exact ⟨h, (same_iff _ _).2 ⟨⟨hbounded, hbounded⟩, rfl, rfl⟩⟩

theorem PointOf.encloses (h : i.PointOf x) :
    i.encloses (.singleton x) = true ∧ (singleton x).encloses i = true :=
  (same_iff_encloses _ _).1 h.same

theorem PointOf.wellFormed (h : i.PointOf x) : i.WellFormed :=
  (wellFormed_singleton h.finite).of_encloses h.encloses.1

/-- Operations do not tell intervals with equal bounds apart. -/
theorem same_onIntervals (op : Arithmetic) (hi : i.WellFormed) (hj : j.WellFormed)
    (hii : i.same i' = true) (hjj : j.same j' = true) :
    (op.onIntervals i j).same (op.onIntervals i' j') = true := by
  rw [same_iff_encloses] at hii hjj ⊢
  have hi' : i'.WellFormed := hi.of_encloses hii.2
  have hj' : j'.WellFormed := hj.of_encloses hjj.2
  exact ⟨encloses_onIntervals op hi' hj' hii.1 hjj.1, encloses_onIntervals op hi hj hii.2 hjj.2⟩

/-- Nor do comparisons. -/
theorem verdict_of_same (op : Comparison) (hi : i.WellFormed) (hj : j.WellFormed)
    (hii : i.same i' = true) (hjj : j.same j' = true) :
    op.onIntervals i j = op.onIntervals i' j' := by
  rw [same_iff_encloses] at hii hjj
  have hi' : i'.WellFormed := hi.of_encloses hii.2
  have hj' : j'.WellFormed := hj.of_encloses hjj.2
  exact BooleanSet.eq_of_encloses (encloses_verdict op hi' hj' hii.1 hjj.1)
    (encloses_verdict op hi hj hii.2 hjj.2)

/-! ### Arithmetic -/

theorem between_self (h : x.isFinite = true) : between x x = .singleton x := by
  have hnan := ((Number.isFinite_iff x).1 h).1
  obtain ⟨htop, hbot⟩ := Number.not_beq_infinity h
  unfold between
  rw [hnan, if_neg (by decide), if_neg htop, if_neg hbot]
  rfl

theorem hull_self (h : x.isFinite = true) : hull x x x x = .singleton x := by
  have hnan := ((Number.isFinite_iff x).1 h).1
  have hlesser : Number.lesser x x = x := ite_self x
  have hgreater : Number.greater x x = x := ite_self x
  unfold hull
  rw [hnan, if_neg (by decide), hlesser, hlesser, hgreater, hgreater, between_self h]

/-- A finite product of bounds is the product of the numbers, or the other zero. -/
theorem pointOf_boundProduct (hx : x.isNaN = false) (hy : y.isNaN = false)
    (h : (x * y).isFinite = true) : (singleton (boundProduct x y)).PointOf (x * y) := by
  obtain ⟨hnan, hinfinite⟩ := (Number.isFinite_iff _).1 h
  obtain ⟨hnan', hvalue⟩ := value_boundProduct hx hy
  have heq : (boundProduct x y).value = (x * y).value := by rw [hvalue, Number.value_mul hnan]
  exact ⟨h, (same_iff _ _).2 ⟨⟨⟨hnan', hnan'⟩, hnan, hnan⟩, heq, heq⟩⟩

theorem PointOf.isFinite_bound (h : (singleton y).PointOf x) : y.isFinite = true := by
  have hsame := (same_iff _ _).1 h.same
  obtain ⟨-, hinfinite⟩ := (Number.isFinite_iff x).1 h.finite
  refine (Number.isFinite_iff y).2 ⟨hsame.1.1.1, fun hy => hinfinite ?_⟩
  have hvalue : y.value = x.value := hsame.2.1
  unfold Number.Infinite at hy ⊢
  rw [← hvalue]
  exact hy

theorem PointOf.containsZero_iff (h : j.PointOf y) : j.containsZero = true ↔ y.isZero = true := by
  constructor
  · intro hzero
    obtain ⟨-, -, hlo, hhi⟩ := (contains_iff _ _).1 (contains_of_encloses h.encloses.2 hzero)
    rw [Number.value_zero] at hlo hhi
    exact (Number.isZero_iff y).2 ⟨((Number.isFinite_iff y).1 h.finite).1, le_antisymm hlo hhi⟩
  · intro hzero
    have hself : (singleton y).contains y = true := (wellFormed_singleton h.finite).contains_lo
    exact containsZero_of_isZero (contains_of_encloses h.encloses.1 hself) hzero

/-- An operation on the intervals of two finite numbers gives the point of its finite result. -/
theorem pointOf_onIntervals_singleton (op : Arithmetic) (hx : x.isFinite = true)
    (hy : y.isFinite = true) (hz : op.result? x y = some z) (hfinite : z.isFinite = true) :
    (op.onIntervals (.singleton x) (.singleton y)).PointOf z := by
  cases op with
  | add =>
    obtain rfl := Option.some.inj hz
    change (between (x + y) (x + y)).PointOf (x + y)
    rw [between_self hfinite]
    exact pointOf_singleton hfinite
  | sub =>
    obtain rfl := Option.some.inj hz
    change (between (x - y) (x - y)).PointOf (x - y)
    rw [between_self hfinite]
    exact pointOf_singleton hfinite
  | mul =>
    obtain rfl := Option.some.inj hz
    have hproduct := pointOf_boundProduct ((Number.isFinite_iff x).1 hx).1
      ((Number.isFinite_iff y).1 hy).1 hfinite
    change (hull (boundProduct x y) (boundProduct x y) (boundProduct x y)
      (boundProduct x y)).PointOf (x * y)
    rw [hull_self hproduct.isFinite_bound]
    exact hproduct
  | div =>
    obtain ⟨hzero, rfl⟩ := result?_div_eq_some.1 hz
    have hside : ¬ (singleton y).containsZero = true := by
      rw [(pointOf_singleton hy).containsZero_iff, hzero]
      exact Bool.false_ne_true
    change (div (.singleton x) (.singleton y)).PointOf (x / y)
    unfold div
    rw [if_neg hside]
    change (hull (x / y) (x / y) (x / y) (x / y)).PointOf (x / y)
    rw [hull_self hfinite]
    exact pointOf_singleton hfinite

/-- An operation on two points gives the point of its result, if that is finite. -/
theorem PointOf.onIntervals (op : Arithmetic) (hx : i.PointOf x) (hy : j.PointOf y)
    (hz : op.result? x y = some z) (hfinite : z.isFinite = true) :
    (op.onIntervals i j).PointOf z := by
  have hsame := same_onIntervals op hx.wellFormed hy.wellFormed hx.same hy.same
  have hpoint := pointOf_onIntervals_singleton op hx.finite hy.finite hz hfinite
  rw [same_iff] at hsame
  have hsame' := (same_iff _ _).1 hpoint.same
  exact ⟨hfinite, (same_iff _ _).2 ⟨⟨hsame.1.1, hsame'.1.2⟩, hsame.2.1.trans hsame'.2.1,
    hsame.2.2.trans hsame'.2.2⟩⟩

/-! ### Comparisons -/

theorem lt_singleton (hx : x.isNaN = false) (hy : y.isNaN = false) :
    lt (.singleton x) (.singleton y) = .singleton (decide (x < y)) := by
  change (if x < y then _ else if y ≤ x then _ else _) = _
  by_cases hlt : x < y
  · simp [hlt, BooleanSet.singleton]
  · have hle : y ≤ x := Number.le_of_not_lt hy hx hlt
    simp [hlt, hle, BooleanSet.singleton]

theorem le_singleton (hx : x.isNaN = false) (hy : y.isNaN = false) :
    le (.singleton x) (.singleton y) = .singleton (decide (x ≤ y)) := by
  change (if x ≤ y then _ else if y < x then _ else _) = _
  by_cases hle : x ≤ y
  · simp [hle, BooleanSet.singleton]
  · have hlt : y < x := Number.lt_of_not_le hy hx hle
    simp [hle, hlt, BooleanSet.singleton]

theorem eq_singleton (hx : x.isNaN = false) (hy : y.isNaN = false) :
    eq (.singleton x) (.singleton y) = .singleton (x == y) := by
  have hxx : (x == x) = true := (Number.beq_iff x x).2 ⟨⟨hx, hx⟩, rfl⟩
  have hyy : (y == y) = true := (Number.beq_iff y y).2 ⟨⟨hy, hy⟩, rfl⟩
  change (if (x == x) = true ∧ (y == y) = true ∧ (x == y) = true then _
    else if x < y ∨ y < x then _ else _) = _
  cases heq : x == y with
  | true => simp [hxx, hyy, BooleanSet.singleton]
  | false =>
    have hapart : x < y ∨ y < x := by
      rw [← Bool.not_eq_true, Number.beq_iff] at heq
      rw [Number.lt_iff, Number.lt_iff]
      have hne : x.value ≠ y.value := fun hvalue => heq ⟨⟨hx, hy⟩, hvalue⟩
      exact hne.lt_or_gt.imp (fun h => ⟨⟨hx, hy⟩, h⟩) fun h => ⟨⟨hy, hx⟩, h⟩
    simp [hapart, BooleanSet.singleton]

theorem not_singleton (b : Bool) : (BooleanSet.singleton b).not = .singleton !b := by
  cases b <;> rfl

/-- A comparison of two points has the verdict on their numbers. -/
theorem PointOf.verdict (op : Comparison) (hx : i.PointOf x) (hy : j.PointOf y) :
    op.onIntervals i j = .singleton (op.holds x y) := by
  have hnan := ((Number.isFinite_iff x).1 hx.finite).1
  have hnan' := ((Number.isFinite_iff y).1 hy.finite).1
  rw [verdict_of_same op hx.wellFormed hy.wellFormed hx.same hy.same]
  cases op with
  | lt => exact lt_singleton hnan hnan'
  | le => exact le_singleton hnan hnan'
  | gt => exact lt_singleton hnan' hnan
  | ge => exact le_singleton hnan' hnan
  | eq => exact eq_singleton hnan hnan'
  | ne =>
    change (eq (.singleton x) (.singleton y)).not = .singleton !(x == y)
    rw [eq_singleton hnan hnan', not_singleton]

end Interval

end RangeRules
