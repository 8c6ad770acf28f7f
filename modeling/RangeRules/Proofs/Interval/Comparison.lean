import RangeRules.Proofs.Interval.Inclusion

/-!
# What a comparison of intervals says

A comparison looks at bounds only. On well-formed intervals it leaves a verdict open exactly when
some pair of their numbers gives it, so that one verdict is certain and two are never too many.
The pair is always made of bounds: the least number of one interval with the greatest of the other,
or the greater lower bound taken twice.
-/
namespace RangeRules

/-- Some number of the first interval and some number of the second give the verdict. -/
def Comparison.Occurs (op : Comparison) (i j : Interval) (verdict : Bool) : Prop :=
  ∃ x y : Number, i.contains x = true ∧ j.contains y = true ∧ op.holds x y = verdict

namespace BooleanSet

theorem eq_onlyTrue_iff (s : BooleanSet) : s = .onlyTrue ↔ ¬ s.contains false = true := by
  cases s <;> decide

theorem eq_onlyFalse_iff (s : BooleanSet) : s = .onlyFalse ↔ ¬ s.contains true = true := by
  cases s <;> decide

theorem eq_both_iff (s : BooleanSet) :
    s = .both ↔ s.contains true = true ∧ s.contains false = true := by
  cases s <;> decide

theorem contains_not_iff (s : BooleanSet) (b : Bool) :
    s.not.contains b = true ↔ s.contains (!b) = true := by
  cases s <;> cases b <;> decide

end BooleanSet

namespace Number

theorem lt_of_not_le {x y : Number} (hx : x.isNaN = false) (hy : y.isNaN = false)
    (h : ¬ y ≤ x) : x < y := by
  rw [le_iff, not_and, not_le] at h
  exact (lt_iff x y).2 ⟨⟨hx, hy⟩, h ⟨hy, hx⟩⟩

theorem le_of_not_lt {x y : Number} (hx : x.isNaN = false) (hy : y.isNaN = false)
    (h : ¬ y < x) : x ≤ y := by
  rw [lt_iff, not_and, not_lt] at h
  exact (le_iff x y).2 ⟨⟨hx, hy⟩, h ⟨hy, hx⟩⟩

/-- Equal numbers are at most each other. -/
theorem beq_eq_false {x y : Number} (h : ¬ x ≤ y ∨ ¬ y ≤ x) : (x == y) = false := by
  rw [← Bool.not_eq_true, beq_iff]
  intro ⟨hnan, heq⟩
  have hle : x ≤ y := (le_iff x y).2 ⟨hnan, heq.le⟩
  have hge : y ≤ x := (le_iff y x).2 ⟨hnan.symm, heq.ge⟩
  exact h.elim (· hle) (· hge)

end Number

namespace Interval

variable {i j : Interval}

/-!
### What the bounds leave open

Each comparison excludes a verdict by one test. On well-formed intervals the tests for the two
verdicts exclude each other, so that the first does not hide the second.
-/

theorem contains_lt_true_iff (hi : i.WellFormed) (hj : j.WellFormed) :
    (i.lt j).contains true = true ↔ ¬ j.hi ≤ i.lo := by
  unfold lt
  by_cases hfalse : j.hi ≤ i.lo
  · have htrue : ¬ i.hi < j.lo := not_hi_lt_lo hi hj hfalse
    simp [htrue, hfalse, BooleanSet.contains]
  · by_cases htrue : i.hi < j.lo <;> simp [htrue, hfalse, BooleanSet.contains]

theorem contains_lt_false_iff (i j : Interval) :
    (i.lt j).contains false = true ↔ ¬ i.hi < j.lo := by
  unfold lt
  by_cases htrue : i.hi < j.lo
  · simp [htrue, BooleanSet.contains]
  · by_cases hfalse : j.hi ≤ i.lo <;> simp [htrue, hfalse, BooleanSet.contains]

theorem contains_le_true_iff (hi : i.WellFormed) (hj : j.WellFormed) :
    (i.le j).contains true = true ↔ ¬ j.hi < i.lo := by
  unfold le
  by_cases hfalse : j.hi < i.lo
  · have htrue : ¬ i.hi ≤ j.lo := not_hi_le_lo hi hj hfalse
    simp [htrue, hfalse, BooleanSet.contains]
  · by_cases htrue : i.hi ≤ j.lo <;> simp [htrue, hfalse, BooleanSet.contains]

theorem contains_le_false_iff (i j : Interval) :
    (i.le j).contains false = true ↔ ¬ i.hi ≤ j.lo := by
  unfold le
  by_cases htrue : i.hi ≤ j.lo
  · simp [htrue, BooleanSet.contains]
  · by_cases hfalse : j.hi < i.lo <;> simp [htrue, hfalse, BooleanSet.contains]

/-- Two intervals are one point exactly if each ends where the other has not begun. -/
theorem same_point_iff (hi : i.WellFormed) (hj : j.WellFormed) :
    (i.isSingleton = true ∧ j.isSingleton = true ∧ (i.lo == j.lo) = true) ↔
      i.hi ≤ j.lo ∧ j.hi ≤ i.lo := by
  rw [wellFormed_iff] at hi hj
  unfold isSingleton
  rw [Number.beq_iff, Number.beq_iff, Number.beq_iff, Number.le_iff, Number.le_iff]
  constructor
  · intro ⟨⟨_, hpoint⟩, ⟨_, hpoint'⟩, _, heq⟩
    have hij : i.hi.value ≤ j.lo.value := hpoint.ge.trans heq.le
    have hji : j.hi.value ≤ i.lo.value := hpoint'.ge.trans heq.ge
    exact ⟨⟨⟨hi.1.2, hj.1.1⟩, hij⟩, ⟨hj.1.2, hi.1.1⟩, hji⟩
  · intro ⟨⟨_, hij⟩, _, hji⟩
    have hpoint : i.lo.value = i.hi.value := le_antisymm hi.2.1 (hij.trans (hj.2.1.trans hji))
    have hpoint' : j.lo.value = j.hi.value := le_antisymm hj.2.1 (hji.trans (hi.2.1.trans hij))
    have heq : i.lo.value = j.lo.value := le_antisymm (hi.2.1.trans hij) (hj.2.1.trans hji)
    exact ⟨⟨hi.1, hpoint⟩, ⟨hj.1, hpoint'⟩, ⟨hi.1.1, hj.1.1⟩, heq⟩

theorem contains_eq_true_iff (hi : i.WellFormed) (hj : j.WellFormed) :
    (i.eq j).contains true = true ↔ ¬ (i.hi < j.lo ∨ j.hi < i.lo) := by
  unfold eq
  by_cases hsame : i.isSingleton = true ∧ j.isSingleton = true ∧ (i.lo == j.lo) = true
  · obtain ⟨hij, hji⟩ := (same_point_iff hi hj).1 hsame
    have hapart : ¬ (i.hi < j.lo ∨ j.hi < i.lo) :=
      not_or.2 ⟨not_hi_lt_lo hi hj hji, not_hi_lt_lo hj hi hij⟩
    rw [if_pos hsame]
    exact iff_of_true rfl hapart
  · rw [if_neg hsame]
    by_cases hapart : i.hi < j.lo ∨ j.hi < i.lo
    · rw [if_pos hapart]
      exact iff_of_false Bool.false_ne_true (not_not.2 hapart)
    · rw [if_neg hapart]
      exact iff_of_true rfl hapart

theorem contains_eq_false_iff (hi : i.WellFormed) (hj : j.WellFormed) :
    (i.eq j).contains false = true ↔ ¬ (i.hi ≤ j.lo ∧ j.hi ≤ i.lo) := by
  rw [← same_point_iff hi hj]
  unfold eq
  by_cases hsame : i.isSingleton = true ∧ j.isSingleton = true ∧ (i.lo == j.lo) = true
  · rw [if_pos hsame]
    exact iff_of_false Bool.false_ne_true (not_not.2 hsame)
  · rw [if_neg hsame]
    by_cases hapart : i.hi < j.lo ∨ j.hi < i.lo
    · rw [if_pos hapart]
      exact iff_of_true rfl hsame
    · rw [if_neg hapart]
      exact iff_of_true rfl hsame

/-! ### The pairs that give a verdict -/

theorem occurs_lt (hi : i.WellFormed) (hj : j.WellFormed) {verdict : Bool}
    (h : (i.lt j).contains verdict = true) : Comparison.lt.Occurs i j verdict := by
  cases verdict with
  | true =>
    rw [contains_lt_true_iff hi hj] at h
    have hlt : i.lo < j.hi :=
      Number.lt_of_not_le ((wellFormed_iff i).1 hi).1.1 ((wellFormed_iff j).1 hj).1.2 h
    exact ⟨i.lo, j.hi, hi.contains_lo, hj.contains_hi, decide_eq_true hlt⟩
  | false =>
    rw [contains_lt_false_iff] at h
    exact ⟨i.hi, j.lo, hi.contains_hi, hj.contains_lo, decide_eq_false h⟩

theorem occurs_le (hi : i.WellFormed) (hj : j.WellFormed) {verdict : Bool}
    (h : (i.le j).contains verdict = true) : Comparison.le.Occurs i j verdict := by
  cases verdict with
  | true =>
    rw [contains_le_true_iff hi hj] at h
    have hle : i.lo ≤ j.hi :=
      Number.le_of_not_lt ((wellFormed_iff i).1 hi).1.1 ((wellFormed_iff j).1 hj).1.2 h
    exact ⟨i.lo, j.hi, hi.contains_lo, hj.contains_hi, decide_eq_true hle⟩
  | false =>
    rw [contains_le_false_iff] at h
    exact ⟨i.hi, j.lo, hi.contains_hi, hj.contains_lo, decide_eq_false h⟩

/-- Two intervals that are not apart have the greater of their lower bounds in common. -/
theorem contains_greater_lo (hi : i.WellFormed) (hj : j.WellFormed) (hij : ¬ i.hi < j.lo)
    (hji : ¬ j.hi < i.lo) :
    i.contains (Number.greater i.lo j.lo) = true ∧
      j.contains (Number.greater i.lo j.lo) = true := by
  rw [wellFormed_iff] at hi hj
  rw [Number.lt_iff, not_and, not_lt] at hij hji
  have hjlo : j.lo.value ≤ i.hi.value := hij ⟨hi.1.2, hj.1.1⟩
  have hilo : i.lo.value ≤ j.hi.value := hji ⟨hj.1.2, hi.1.1⟩
  obtain ⟨hnan, hvalue⟩ := Number.value_greater hi.1.1 hj.1.1
  rw [contains_iff, contains_iff, hvalue]
  exact ⟨⟨hi.1, hnan, le_max_left _ _, max_le hi.2.1 hjlo⟩,
    ⟨hj.1, hnan, le_max_right _ _, max_le hilo hj.2.1⟩⟩

theorem occurs_eq (hi : i.WellFormed) (hj : j.WellFormed) {verdict : Bool}
    (h : (i.eq j).contains verdict = true) : Comparison.eq.Occurs i j verdict := by
  cases verdict with
  | true =>
    rw [contains_eq_true_iff hi hj, not_or] at h
    obtain ⟨hx, hy⟩ := contains_greater_lo hi hj h.1 h.2
    have hnan := ((contains_iff i _).1 hx).2.1
    exact ⟨_, _, hx, hy, (Number.beq_iff _ _).2 ⟨⟨hnan, hnan⟩, rfl⟩⟩
  | false =>
    rw [contains_eq_false_iff hi hj, not_and_or] at h
    rcases h with h | h
    · exact ⟨i.hi, j.lo, hi.contains_hi, hj.contains_lo, Number.beq_eq_false (.inl h)⟩
    · exact ⟨i.lo, j.hi, hi.contains_lo, hj.contains_hi, Number.beq_eq_false (.inr h)⟩

end Interval

namespace Comparison

theorem Occurs.swap {op op' : Comparison} {i j : Interval} {verdict : Bool}
    (hop : ∀ x y, op'.holds y x = op.holds x y) (h : op.Occurs i j verdict) :
    op'.Occurs j i verdict := by
  obtain ⟨x, y, hx, hy, hholds⟩ := h
  exact ⟨y, x, hy, hx, (hop x y).trans hholds⟩

variable {i j : Interval}

/-- What a comparison leaves open does occur. -/
theorem occurs_of_contains (op : Comparison) (hi : i.WellFormed) (hj : j.WellFormed)
    {verdict : Bool} (h : (op.onIntervals i j).contains verdict = true) :
    op.Occurs i j verdict := by
  cases op with
  | lt => exact Interval.occurs_lt hi hj h
  | le => exact Interval.occurs_le hi hj h
  | gt => exact (Interval.occurs_lt hj hi h).swap fun _ _ => rfl
  | ge => exact (Interval.occurs_le hj hi h).swap fun _ _ => rfl
  | eq => exact Interval.occurs_eq hi hj h
  | ne =>
    change (i.eq j).not.contains verdict = true at h
    rw [BooleanSet.contains_not_iff] at h
    obtain ⟨x, y, hx, hy, hholds⟩ := Interval.occurs_eq hi hj h
    have hne : Comparison.ne.holds x y = !(x == y) := rfl
    change (x == y) = !verdict at hholds
    exact ⟨x, y, hx, hy, by rw [hne, hholds, Bool.not_not]⟩

theorem contains_iff_occurs (op : Comparison) (hi : i.WellFormed) (hj : j.WellFormed)
    (verdict : Bool) :
    (op.onIntervals i j).contains verdict = true ↔ op.Occurs i j verdict := by
  constructor
  · exact op.occurs_of_contains hi hj
  · rintro ⟨x, y, hx, hy, rfl⟩
    exact Interval.contains_verdict op hx hy

theorem not_occurs_iff (op : Comparison) (i j : Interval) (verdict : Bool) :
    ¬ op.Occurs i j (!verdict) ↔ ∀ x y : Number, i.contains x = true → j.contains y = true →
      op.holds x y = verdict := by
  constructor
  · intro h x y hx hy
    by_contra hne
    exact h ⟨x, y, hx, hy, Bool.eq_not.2 hne⟩
  · rintro h ⟨x, y, hx, hy, hholds⟩
    exact Bool.eq_not.1 hholds (h x y hx hy)

/--
A comparison of well-formed intervals leaves open the verdicts on pairs of their numbers and no
other: it is certain of what every pair has, and open where both verdicts occur.
-/
theorem onIntervals_exact (op : Comparison) (i j : Interval) (hi : i.WellFormed)
    (hj : j.WellFormed) :
    (∀ verdict, (op.onIntervals i j).contains verdict = true ↔ op.Occurs i j verdict) ∧
    (op.onIntervals i j = .onlyTrue ↔
      ∀ x y : Number, i.contains x = true → j.contains y = true → op.holds x y = true) ∧
    (op.onIntervals i j = .onlyFalse ↔
      ∀ x y : Number, i.contains x = true → j.contains y = true → op.holds x y = false) ∧
    (op.onIntervals i j = .both ↔ op.Occurs i j true ∧ op.Occurs i j false) := by
  have hexact := op.contains_iff_occurs hi hj
  refine ⟨hexact, ?_, ?_, ?_⟩
  · rw [BooleanSet.eq_onlyTrue_iff, hexact]
    exact op.not_occurs_iff i j true
  · rw [BooleanSet.eq_onlyFalse_iff, hexact]
    exact op.not_occurs_iff i j false
  · rw [BooleanSet.eq_both_iff, hexact, hexact]

/-- Two intervals that share one number only, one of them unbounded, may be equal and may differ. -/
theorem onIntervals_exact_touching :
    let i : Interval := ⟨0, 3⟩
    let j : Interval := ⟨3, Number.infinity⟩
    i.WellFormed ∧ j.WellFormed ∧ i.eq j = .both ∧
      Comparison.eq.Occurs i j true ∧ Comparison.eq.Occurs i j false := by
  intro i j
  have hi : i.WellFormed := ⟨by decide +kernel, by decide +kernel, by decide +kernel⟩
  have hj : j.WellFormed := ⟨by decide +kernel, by decide +kernel, by decide +kernel⟩
  have hboth : i.eq j = .both := by decide +kernel
  exact ⟨hi, hj, hboth, (onIntervals_exact .eq i j hi hj).2.2.2.1 hboth⟩

end Comparison

end RangeRules
