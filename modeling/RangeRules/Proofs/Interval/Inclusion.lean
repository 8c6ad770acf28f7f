import RangeRules.Proofs.Interval.Absorption

/-!
# Intervals within intervals

What every operation makes of wider intervals encloses what it makes of narrower ones, and a
comparison of wider ones leaves at least the same verdicts open. The corners of the narrower result
are numbers computed within the wider intervals, so most of this follows from what intervals
contain; a corner that is not a number has widened the wider result to all numbers already.
-/
namespace RangeRules

open Rounding

namespace Interval

variable {i j k l w : Interval} {x y : Number}

theorem encloses_iff (i j : Interval) :
    i.encloses j = true ↔
      (i.Bounded ∧ j.Bounded) ∧ i.lo.value ≤ j.lo.value ∧ j.hi.value ≤ i.hi.value := by
  unfold encloses Bounded
  rw [decide_eq_true_iff, Number.le_iff, Number.le_iff]
  tauto

theorem encloses_refl (h : i.Bounded) : i.encloses i = true :=
  (encloses_iff i i).2 ⟨⟨h, h⟩, le_rfl, le_rfl⟩

theorem same_iff (i j : Interval) :
    i.same j = true ↔
      (i.Bounded ∧ j.Bounded) ∧ i.lo.value = j.lo.value ∧ i.hi.value = j.hi.value := by
  unfold same Bounded
  rw [decide_eq_true_iff, Number.beq_iff, Number.beq_iff]
  tauto

/-- Two intervals have equal bounds if each lies within the other. -/
theorem same_iff_encloses (i j : Interval) :
    i.same j = true ↔ i.encloses j = true ∧ j.encloses i = true := by
  rw [same_iff, encloses_iff, encloses_iff, le_antisymm_iff, le_antisymm_iff]
  tauto

theorem contains_of_encloses (h : i.encloses j = true) (hx : j.contains x = true) :
    i.contains x = true := by
  rw [encloses_iff] at h
  rw [contains_iff] at hx ⊢
  exact ⟨h.1.1, hx.2.1, h.2.1.trans hx.2.2.1, hx.2.2.2.trans h.2.2⟩

theorem WellFormed.contains_lo (h : i.WellFormed) : i.contains i.lo = true := by
  rw [wellFormed_iff] at h
  exact (contains_iff i i.lo).2 ⟨h.1, h.1.1, le_rfl, h.2.1⟩

theorem WellFormed.contains_hi (h : i.WellFormed) : i.contains i.hi = true := by
  rw [wellFormed_iff] at h
  exact (contains_iff i i.hi).2 ⟨h.1, h.1.2, h.2.1, le_rfl⟩

/-- What encloses a well-formed interval is well-formed. -/
theorem WellFormed.of_encloses (hj : j.WellFormed) (h : i.encloses j = true) : i.WellFormed := by
  rw [wellFormed_iff] at hj ⊢
  rw [encloses_iff] at h
  exact ⟨h.1.1, h.2.1.trans (hj.2.1.trans h.2.2), h.2.1.trans_lt hj.2.2.1,
    hj.2.2.2.trans_le h.2.2⟩

theorem encloses_of_same_entire (hi : i.same entire = true) (hj : j.Bounded) :
    i.encloses j = true := by
  rw [same_entire_iff] at hi
  rw [encloses_iff, hi.2.1, hi.2.2]
  exact ⟨⟨hi.1, hj⟩, bot_le, le_top⟩

/-- An interval that the computed bounds belong to encloses the interval between them. -/
theorem encloses_between {lo hi : Number} (hw : w.WellFormed) (hlo : Belongs w lo)
    (hhi : Belongs w hi) : w.encloses (between lo hi) = true := by
  by_cases hnan : lo.isNaN = true ∨ hi.isNaN = true
  · have hentire : w.same entire = true := hnan.elim hlo.same_entire hhi.same_entire
    exact encloses_of_same_entire hentire (bounded_between lo hi)
  · have hbounded := bounded_between lo hi
    rw [wellFormed_iff] at hw
    unfold between at hbounded ⊢
    rw [if_neg hnan] at hbounded ⊢
    rw [not_or, Bool.not_eq_true, Bool.not_eq_true] at hnan
    have hlo' := (contains_iff w lo).1 (hlo.of_not_isNaN hnan.1)
    have hhi' := (contains_iff w hi).1 (hhi.of_not_isNaN hnan.2)
    rw [encloses_iff]
    refine ⟨⟨hw.1, hbounded⟩, ?_, ?_⟩
    · -- an infinite lower bound is replaced, but that of `w` is less already
      dsimp only
      split
      · exact Number.value_le_largest hw.2.2.1.ne
      · exact hlo'.2.2.1
    · dsimp only
      split
      · exact Number.value_neg_largest_le hw.2.2.2.ne'
      · exact hhi'.2.2.2

theorem belongs_lesser (hx : Belongs w x) (hy : Belongs w y) :
    Belongs w (Number.lesser x y) := by
  unfold Number.lesser
  split
  · exact hx
  · exact hy

theorem belongs_greater (hx : Belongs w x) (hy : Belongs w y) :
    Belongs w (Number.greater x y) := by
  unfold Number.greater
  split
  · exact hx
  · exact hy

theorem encloses_hull {a b c d : Number} (hw : w.WellFormed) (ha : Belongs w a)
    (hb : Belongs w b) (hc : Belongs w c) (hd : Belongs w d) :
    w.encloses (hull a b c d) = true := by
  unfold hull
  split
  · next hnan =>
    have hentire : w.same entire = true :=
      hnan.elim ha.same_entire (·.elim hb.same_entire (·.elim hc.same_entire hd.same_entire))
    exact encloses_of_same_entire hentire bounded_entire
  · exact encloses_between hw (belongs_lesser (belongs_lesser ha hb) (belongs_lesser hc hd))
      (belongs_greater (belongs_greater ha hb) (belongs_greater hc hd))

/-- A product of bounds within two intervals is within their product, also where zero meets an
infinite bound. -/
theorem contains_boundProduct (hx : i.contains x = true) (hy : j.contains y = true) :
    (i.mul j).contains (boundProduct x y) = true := by
  rw [contains_iff] at hx hy
  obtain ⟨⟨hilo, hihi⟩, hx, hle, hge⟩ := hx
  obtain ⟨⟨hjlo, hjhi⟩, hy, hle', hge'⟩ := hy
  obtain ⟨hnan, hvalue⟩ := value_boundProduct hx hy
  refine contains_hull hnan fun _ _ _ _ => ?_
  rw [hvalue, (value_boundProduct hilo hjlo).2, (value_boundProduct hilo hjhi).2,
    (value_boundProduct hihi hjlo).2, (value_boundProduct hihi hjhi).2]
  exact rounded_corners (mul_four_corners hle hge hle' hge')

/-- Operations on wider intervals enclose those on narrower ones. -/
theorem encloses_onIntervals (op : Arithmetic) (hj : j.WellFormed) (hl : l.WellFormed)
    (hij : i.encloses j = true) (hkl : k.encloses l = true) :
    (op.onIntervals i k).encloses (op.onIntervals j l) = true := by
  have hi := hj.of_encloses hij
  have hk := hl.of_encloses hkl
  have hw := wellFormed_onIntervals op hi hk
  have hjlo := contains_of_encloses hij hj.contains_lo
  have hjhi := contains_of_encloses hij hj.contains_hi
  have hllo := contains_of_encloses hkl hl.contains_lo
  have hlhi := contains_of_encloses hkl hl.contains_hi
  cases op with
  | add =>
    have hcorner : ∀ {x y : Number}, i.contains x = true → k.contains y = true →
        Belongs (i.add k) (x + y) := fun hx hy =>
      belongs_onIntervals .add hi hk (.inl hx) (.inl hy) rfl nofun
    exact encloses_between hw (hcorner hjlo hllo) (hcorner hjhi hlhi)
  | sub =>
    have hcorner : ∀ {x y : Number}, i.contains x = true → k.contains y = true →
        Belongs (i.sub k) (x - y) := fun hx hy =>
      belongs_onIntervals .sub hi hk (.inl hx) (.inl hy) rfl nofun
    exact encloses_between hw (hcorner hjlo hlhi) (hcorner hjhi hllo)
  | mul =>
    exact encloses_hull hw (.inl (contains_boundProduct hjlo hllo))
      (.inl (contains_boundProduct hjlo hlhi)) (.inl (contains_boundProduct hjhi hllo))
      (.inl (contains_boundProduct hjhi hlhi))
  | div =>
    change (i.div k).encloses (j.div l) = true
    by_cases hzero : k.containsZero = true
    · have hentire : (i.div k).same entire = true := by
        unfold div
        rw [if_pos hzero]
        rfl
      exact encloses_of_same_entire hentire (bounded_onIntervals .div j l)
    · have hside : ∀ {y : Number}, k.contains y = true → y.isZero = false := fun hy => by
        rw [← Bool.not_eq_true]
        exact fun h => hzero (containsZero_of_isZero hy h)
      have hcorner : ∀ {x y : Number}, i.contains x = true → k.contains y = true →
          Belongs (i.div k) (x / y) := fun hx hy =>
        belongs_onIntervals .div hi hk (.inl hx) (.inl hy)
          (result?_div_eq_some.2 ⟨hside hy, rfl⟩) nofun
      have hnarrow : ¬ l.containsZero = true := fun h => hzero (contains_of_encloses hkl h)
      have heq : j.div l = hull (j.lo / l.lo) (j.lo / l.hi) (j.hi / l.lo) (j.hi / l.hi) :=
        if_neg hnarrow
      rw [heq]
      exact encloses_hull hw (hcorner hjlo hllo) (hcorner hjlo hlhi) (hcorner hjhi hllo)
        (hcorner hjhi hlhi)

theorem encloses_union (hij : i.encloses j = true) (hkl : k.encloses l = true) :
    (i.union k).encloses (j.union l) = true := by
  rw [encloses_iff] at hij hkl ⊢
  obtain ⟨⟨hi, hj⟩, hlo, hhi⟩ := hij
  obtain ⟨⟨hk, hl⟩, hlo', hhi'⟩ := hkl
  refine ⟨⟨bounded_union hi hk, bounded_union hj hl⟩, ?_⟩
  unfold union
  dsimp only
  rw [(Number.value_lesser hi.1 hk.1).2, (Number.value_lesser hj.1 hl.1).2,
    (Number.value_greater hi.2 hk.2).2, (Number.value_greater hj.2 hl.2).2]
  exact ⟨min_le_min hlo hlo', max_le_max hhi hhi'⟩

/-- One more interval united to the wider one only widens it. -/
theorem encloses_union_left (hij : i.encloses j = true) (hk : k.Bounded) :
    (i.union k).encloses j = true := by
  rw [encloses_iff] at hij ⊢
  obtain ⟨⟨hi, hj⟩, hlo, hhi⟩ := hij
  refine ⟨⟨bounded_union hi hk, hj⟩, ?_⟩
  unfold union
  dsimp only
  rw [(Number.value_lesser hi.1 hk.1).2, (Number.value_greater hi.2 hk.2).2]
  exact ⟨min_le_of_left_le hlo, le_max_of_le_left hhi⟩

end Interval

namespace BooleanSet

theorem encloses_both (s : BooleanSet) : BooleanSet.both.encloses s = true := by
  cases s <;> rfl

theorem encloses_self (s : BooleanSet) : s.encloses s = true := by
  cases s <;> rfl

theorem encloses_not {s t : BooleanSet} (h : s.encloses t = true) :
    s.not.encloses t.not = true := by
  revert h
  cases s <;> cases t <;> decide

theorem contains_of_encloses {s t : BooleanSet} {b : Bool} (h : s.encloses t = true)
    (hb : t.contains b = true) : s.contains b = true := by
  revert h hb
  cases s <;> cases t <;> cases b <;> decide

theorem encloses_union {s t u v : BooleanSet} (h : s.encloses t = true)
    (h' : u.encloses v = true) : (s.union u).encloses (t.union v) = true := by
  revert h h'
  cases s <;> cases t <;> cases u <;> cases v <;> decide

theorem encloses_union_left {s t : BooleanSet} (h : s.encloses t = true) (u : BooleanSet) :
    (s.union u).encloses t = true := by
  revert h
  cases s <;> cases t <;> cases u <;> decide

end BooleanSet

namespace Interval

variable {i j k l : Interval}

/-- What lies on one side of another interval does so when both are narrowed. -/
theorem hi_lt_lo_of_encloses (hij : i.encloses j = true) (hkl : k.encloses l = true)
    (h : i.hi < k.lo) : j.hi < l.lo := by
  rw [encloses_iff] at hij hkl
  rw [Number.lt_iff] at h ⊢
  exact ⟨⟨hij.1.2.2, hkl.1.2.1⟩, hij.2.2.trans_lt (h.2.trans_le hkl.2.1)⟩

theorem hi_le_lo_of_encloses (hij : i.encloses j = true) (hkl : k.encloses l = true)
    (h : i.hi ≤ k.lo) : j.hi ≤ l.lo := by
  rw [encloses_iff] at hij hkl
  rw [Number.le_iff] at h ⊢
  exact ⟨⟨hij.1.2.2, hkl.1.2.1⟩, hij.2.2.trans (h.2.trans hkl.2.1)⟩

theorem not_hi_lt_lo (hi : i.WellFormed) (hk : k.WellFormed) (h : k.hi ≤ i.lo) :
    ¬ i.hi < k.lo := by
  rw [wellFormed_iff] at hi hk
  rw [Number.le_iff] at h
  rw [Number.lt_iff, not_and, not_lt]
  exact fun _ => hk.2.1.trans (h.2.trans hi.2.1)

theorem not_hi_le_lo (hi : i.WellFormed) (hk : k.WellFormed) (h : k.hi < i.lo) :
    ¬ i.hi ≤ k.lo := by
  rw [wellFormed_iff] at hi hk
  rw [Number.lt_iff] at h
  rw [Number.le_iff, not_and, not_le]
  exact fun _ => hk.2.1.trans_lt (h.2.trans_le hi.2.1)

theorem encloses_lt (hj : j.WellFormed) (hl : l.WellFormed) (hij : i.encloses j = true)
    (hkl : k.encloses l = true) : (i.lt k).encloses (j.lt l) = true := by
  unfold lt
  by_cases htrue : i.hi < k.lo
  · rw [if_pos htrue, if_pos (hi_lt_lo_of_encloses hij hkl htrue)]
    rfl
  · by_cases hfalse : k.hi ≤ i.lo
    · have hfalse' := hi_le_lo_of_encloses hkl hij hfalse
      rw [if_neg htrue, if_pos hfalse, if_neg (not_hi_lt_lo hj hl hfalse'), if_pos hfalse']
      rfl
    · rw [if_neg htrue, if_neg hfalse]
      exact BooleanSet.encloses_both _

theorem encloses_le (hj : j.WellFormed) (hl : l.WellFormed) (hij : i.encloses j = true)
    (hkl : k.encloses l = true) : (i.le k).encloses (j.le l) = true := by
  unfold le
  by_cases htrue : i.hi ≤ k.lo
  · rw [if_pos htrue, if_pos (hi_le_lo_of_encloses hij hkl htrue)]
    rfl
  · by_cases hfalse : k.hi < i.lo
    · have hfalse' := hi_lt_lo_of_encloses hkl hij hfalse
      rw [if_neg htrue, if_pos hfalse, if_neg (not_hi_le_lo hj hl hfalse'), if_pos hfalse']
      rfl
    · rw [if_neg htrue, if_neg hfalse]
      exact BooleanSet.encloses_both _

/-- A well-formed interval within a point is that point. -/
theorem isSingleton_of_encloses (hj : j.WellFormed) (hij : i.encloses j = true)
    (h : i.isSingleton = true) : j.isSingleton = true ∧ j.lo.value = i.lo.value := by
  rw [encloses_iff] at hij
  rw [wellFormed_iff] at hj
  unfold isSingleton at h ⊢
  rw [Number.beq_iff] at h ⊢
  have hlo : j.lo.value = i.lo.value :=
    le_antisymm (hj.2.1.trans (hij.2.2.trans h.2.ge)) hij.2.1
  have hhi : j.hi.value = i.lo.value :=
    le_antisymm (hij.2.2.trans h.2.ge) (hij.2.1.trans hj.2.1)
  exact ⟨⟨hj.1, hlo.trans hhi.symm⟩, hlo⟩

theorem encloses_eq (hj : j.WellFormed) (hl : l.WellFormed) (hij : i.encloses j = true)
    (hkl : k.encloses l = true) : (i.eq k).encloses (j.eq l) = true := by
  unfold eq
  by_cases htrue : i.isSingleton = true ∧ k.isSingleton = true ∧ (i.lo == k.lo) = true
  · obtain ⟨hi, hk, hik⟩ := htrue
    obtain ⟨hj', hjlo⟩ := isSingleton_of_encloses hj hij hi
    obtain ⟨hl', hllo⟩ := isSingleton_of_encloses hl hkl hk
    have hjl : (j.lo == l.lo) = true := by
      rw [Number.beq_iff] at hik ⊢
      rw [wellFormed_iff] at hj hl
      exact ⟨⟨hj.1.1, hl.1.1⟩, hjlo.trans (hik.2.trans hllo.symm)⟩
    rw [if_pos ⟨hi, hk, hik⟩, if_pos ⟨hj', hl', hjl⟩]
    rfl
  · by_cases hfalse : i.hi < k.lo ∨ k.hi < i.lo
    · have hfalse' : j.hi < l.lo ∨ l.hi < j.lo :=
        hfalse.imp (hi_lt_lo_of_encloses hij hkl) (hi_lt_lo_of_encloses hkl hij)
      have hne : ¬ (j.isSingleton = true ∧ l.isSingleton = true ∧ (j.lo == l.lo) = true) := by
        rintro ⟨hj', hl', hjl⟩
        unfold isSingleton at hj' hl'
        rw [Number.beq_iff] at hj' hl' hjl
        rw [Number.lt_iff, Number.lt_iff] at hfalse'
        rcases hfalse' with h | h
        · exact h.2.ne (hj'.2.symm.trans hjl.2)
        · exact h.2.ne (hl'.2.symm.trans hjl.2.symm)
      rw [if_neg htrue, if_pos hfalse, if_neg hne, if_pos hfalse']
      rfl
    · rw [if_neg htrue, if_neg hfalse]
      exact BooleanSet.encloses_both _

/-- A comparison of wider intervals leaves open what one of narrower intervals does. -/
theorem encloses_verdict (op : Comparison) (hj : j.WellFormed) (hl : l.WellFormed)
    (hij : i.encloses j = true) (hkl : k.encloses l = true) :
    (op.onIntervals i k).encloses (op.onIntervals j l) = true := by
  cases op with
  | lt => exact encloses_lt hj hl hij hkl
  | le => exact encloses_le hj hl hij hkl
  | gt => exact encloses_lt hl hj hkl hij
  | ge => exact encloses_le hl hj hkl hij
  | eq => exact encloses_eq hj hl hij hkl
  | ne => exact BooleanSet.encloses_not (encloses_eq hj hl hij hkl)

end Interval

end RangeRules
