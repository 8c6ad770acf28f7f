import RangeRules.Proofs.Interval.Containment

/-!
# Bounds of computed intervals

The bounds of every computed interval are numbers, whatever the operands, and operations on
well-formed intervals give well-formed intervals. An interval that a literal makes is the point of a
finite number.
-/
namespace RangeRules

open Rounding

namespace Interval

theorem make?_eq_ok {lo hi : Number} {i : Interval} :
    make? lo hi = .ok i ↔ (lo.isNaN = false ∧ hi.isNaN = false) ∧ lo.value ≤ hi.value ∧
      lo.value ≠ ⊤ ∧ hi.value ≠ ⊥ ∧ i = ⟨lo, hi⟩ := by
  unfold make?
  split
  · next h =>
    refine ⟨nofun, fun ⟨⟨hlo, hhi⟩, _⟩ => ?_⟩
    rw [hlo, hhi] at h
    simp at h
  · next h =>
    rw [not_or, Bool.not_eq_true, Bool.not_eq_true] at h
    split
    · next hlt =>
      refine ⟨nofun, fun ⟨_, hle, _⟩ => absurd ((Number.lt_iff hi lo).1 hlt).2 (not_lt.2 hle)⟩
    · next hlt =>
      rw [Number.lt_iff, not_and] at hlt
      have hle : lo.value ≤ hi.value := not_lt.1 (hlt h.symm)
      simp only [Number.beq_infinity_iff, Number.beq_neg_infinity_iff, h.1, h.2, true_and]
      split
      · next hinf => exact ⟨nofun, fun ⟨_, htop, hbot, _⟩ => (hinf.elim htop hbot).elim⟩
      · next hinf =>
        rw [not_or] at hinf
        constructor
        · intro hok
          exact ⟨hle, hinf.1, hinf.2, (Except.ok.inj hok).symm⟩
        · rintro ⟨-, -, -, rfl⟩
          rfl

theorem make?_of_isFinite {x : Number} (h : x.isFinite = true) :
    make? x x = .ok (.singleton x) := by
  obtain ⟨hnan, hinfinite⟩ := (Number.isFinite_iff x).1 h
  exact make?_eq_ok.2 ⟨⟨hnan, hnan⟩, le_rfl, fun h => hinfinite (.inl h),
    fun h => hinfinite (.inr h), rfl⟩

theorem bounded_entire : entire.Bounded :=
  ⟨Number.isNaN_neg_infinity, Number.isNaN_infinity⟩

theorem bounded_between (lo hi : Number) : (between lo hi).Bounded := by
  unfold between
  split
  · exact bounded_entire
  · next h =>
    rw [not_or, Bool.not_eq_true, Bool.not_eq_true] at h
    constructor
    · dsimp only
      split
      · exact Number.isNaN_largest
      · exact h.1
    · dsimp only
      split
      · exact Number.isNaN_neg_largest
      · exact h.2

theorem bounded_hull (a b c d : Number) : (hull a b c d).Bounded := by
  unfold hull
  split
  · exact bounded_entire
  · exact bounded_between _ _

theorem bounded_onIntervals (op : Arithmetic) (i j : Interval) : (op.onIntervals i j).Bounded := by
  cases op with
  | add => exact bounded_between _ _
  | sub => exact bounded_between _ _
  | mul => exact bounded_hull _ _ _ _
  | div =>
    change (div i j).Bounded
    unfold div
    split
    · exact bounded_entire
    · exact bounded_hull _ _ _ _

theorem bounded_union {i j : Interval} (hi : i.Bounded) (hj : j.Bounded) : (i.union j).Bounded :=
  ⟨(Number.value_lesser hi.1 hj.1).1, (Number.value_greater hi.2 hj.2).1⟩

theorem wellFormed_iff (i : Interval) :
    i.WellFormed ↔ i.Bounded ∧ i.lo.value ≤ i.hi.value ∧ i.lo.value < ⊤ ∧ ⊥ < i.hi.value := by
  unfold Bounded
  constructor
  · rintro ⟨hordered, hlo, hhi⟩
    rw [Number.le_iff] at hordered
    rw [Number.lt_iff, Number.value_infinity] at hlo
    rw [Number.lt_iff, Number.value_neg_infinity] at hhi
    exact ⟨hordered.1, hordered.2, hlo.2, hhi.2⟩
  · rintro ⟨hbounded, hordered, hlo, hhi⟩
    refine ⟨(Number.le_iff _ _).2 ⟨hbounded, hordered⟩, (Number.lt_iff _ _).2 ?_,
      (Number.lt_iff _ _).2 ?_⟩
    · rw [Number.value_infinity]
      exact ⟨⟨hbounded.1, Number.isNaN_infinity⟩, hlo⟩
    · rw [Number.value_neg_infinity]
      exact ⟨⟨Number.isNaN_neg_infinity, hbounded.2⟩, hhi⟩

/-- What a literal or a caller makes is well-formed. -/
theorem wellFormed_of_make? {lo hi : Number} {i : Interval} (h : make? lo hi = .ok i) :
    i.WellFormed := by
  obtain ⟨hnan, hle, hlo, hhi, rfl⟩ := make?_eq_ok.1 h
  exact (wellFormed_iff _).2 ⟨hnan, hle, lt_top_iff_ne_top.2 hlo, bot_lt_iff_ne_bot.2 hhi⟩

/-- An interval with a finite number in it is well-formed. -/
theorem WellFormed.of_contains {i : Interval} {x : Number} (h : i.contains x = true)
    (hx : x.isFinite = true) : i.WellFormed := by
  obtain ⟨hbounded, -, hlo, hhi⟩ := (contains_iff i x).1 h
  have hinfinite := ((Number.isFinite_iff x).1 hx).2
  have htop : x.value < ⊤ := lt_top_iff_ne_top.2 fun h => hinfinite (.inl h)
  have hbot : ⊥ < x.value := bot_lt_iff_ne_bot.2 fun h => hinfinite (.inr h)
  exact (wellFormed_iff i).2 ⟨hbounded, hlo.trans hhi, hlo.trans_lt htop, hbot.trans_le hhi⟩

theorem wellFormed_entire : entire.WellFormed := by
  rw [wellFormed_iff]
  unfold entire
  rw [Number.value_neg_infinity, Number.value_infinity]
  exact ⟨bounded_entire, bot_le, bot_lt_top, bot_lt_top⟩

theorem wellFormed_between {lo hi : Number}
    (h : lo.isNaN = false → hi.isNaN = false → lo.value ≤ hi.value) :
    (between lo hi).WellFormed := by
  rw [wellFormed_iff]
  refine ⟨bounded_between lo hi, ?_⟩
  unfold between
  split
  · have := (wellFormed_iff entire).1 wellFormed_entire
    exact this.2
  · next hnan =>
    rw [not_or, Bool.not_eq_true, Bool.not_eq_true] at hnan
    have hle := h hnan.1 hnan.2
    dsimp only
    simp only [Number.beq_infinity_iff, Number.beq_neg_infinity_iff, hnan.1, hnan.2, true_and]
    split
    · next hlo =>
      rw [hlo, top_le_iff] at hle
      rw [hle, if_neg top_ne_bot, hle]
      exact ⟨le_top, Number.value_largest_lt, bot_lt_top⟩
    · next hlo =>
      have hlo' : lo.value < ⊤ := lt_top_iff_ne_top.2 hlo
      split
      · next hhi =>
        rw [hhi, le_bot_iff] at hle
        rw [hle]
        exact ⟨bot_le, bot_lt_top, Number.bot_lt_value_neg_largest⟩
      · next hhi => exact ⟨hle, hlo', bot_lt_iff_ne_bot.2 hhi⟩

theorem wellFormed_hull (a b c d : Number) : (hull a b c d).WellFormed := by
  unfold hull
  split
  · exact wellFormed_entire
  · next h =>
    simp only [not_or, Bool.not_eq_true] at h
    obtain ⟨ha, hb, hc, hd⟩ := h
    have hab := Number.value_lesser ha hb
    have hcd := Number.value_lesser hc hd
    have hab' := Number.value_greater ha hb
    have hcd' := Number.value_greater hc hd
    refine wellFormed_between fun _ _ => ?_
    rw [(Number.value_lesser hab.1 hcd.1).2, (Number.value_greater hab'.1 hcd'.1).2, hab.2, hab'.2]
    exact (min_le_left _ _).trans ((min_le_left _ _).trans ((le_max_left _ _).trans
      (le_max_left _ _)))

theorem wellFormed_onIntervals (op : Arithmetic) {i j : Interval} (hi : i.WellFormed)
    (hj : j.WellFormed) : (op.onIntervals i j).WellFormed := by
  rw [wellFormed_iff] at hi hj
  cases op with
  | add =>
    refine wellFormed_between fun hlo hhi => ?_
    rw [Number.value_add hlo, Number.value_add hhi]
    exact rounded_mono (add_le_add hi.2.1 hj.2.1)
  | sub =>
    refine wellFormed_between fun hlo hhi => ?_
    rw [Number.value_sub hlo, Number.value_sub hhi]
    exact rounded_mono (EReal.sub_le_sub hi.2.1 hj.2.1)
  | mul => exact wellFormed_hull _ _ _ _
  | div =>
    change (div i j).WellFormed
    unfold div
    split
    · exact wellFormed_entire
    · exact wellFormed_hull _ _ _ _

theorem wellFormed_union {i j : Interval} (hi : i.WellFormed) (hj : j.WellFormed) :
    (i.union j).WellFormed := by
  rw [wellFormed_iff] at hi hj ⊢
  have hlo := Number.value_lesser hi.1.1 hj.1.1
  have hhi := Number.value_greater hi.1.2 hj.1.2
  refine ⟨bounded_union hi.1 hj.1, ?_⟩
  unfold union
  dsimp only
  rw [hlo.2, hhi.2]
  exact ⟨(min_le_left _ _).trans (hi.2.1.trans (le_max_left _ _)), min_lt_of_left_lt hi.2.2.1,
    lt_max_of_lt_left hi.2.2.2⟩

end Interval

end RangeRules
