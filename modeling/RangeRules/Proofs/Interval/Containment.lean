import RangeRules.Evaluation.Abstract
import RangeRules.Evaluation.Concrete
import RangeRules.Proofs.Number.Value

/-!
# Intervals contain what is computed in them

An operation on two intervals contains the result of the operation on any two of their numbers,
whenever that is a number, and a comparison of intervals contains the verdict on them. No interval
need be well-formed. What happens to a result that is not a number is not told here.
-/
namespace RangeRules

open Rounding

theorem Number.value_lesser {x y : Number} (hx : x.isNaN = false) (hy : y.isNaN = false) :
    (Number.lesser x y).isNaN = false ∧ (Number.lesser x y).value = min x.value y.value := by
  unfold Number.lesser
  split
  · next h => exact ⟨hx, (min_eq_left ((Number.le_iff x y).1 h).2).symm⟩
  · next h =>
    rw [Number.le_iff] at h
    have hle : y.value ≤ x.value := le_of_not_ge fun hle => h ⟨⟨hx, hy⟩, hle⟩
    exact ⟨hy, (min_eq_right hle).symm⟩

theorem Number.value_greater {x y : Number} (hx : x.isNaN = false) (hy : y.isNaN = false) :
    (Number.greater x y).isNaN = false ∧ (Number.greater x y).value = max x.value y.value := by
  unfold Number.greater
  split
  · next h => exact ⟨hx, (max_eq_left ((Number.le_iff y x).1 h).2).symm⟩
  · next h =>
    rw [Number.le_iff] at h
    have hle : x.value ≤ y.value := le_of_not_ge fun hle => h ⟨⟨hy, hx⟩, hle⟩
    exact ⟨hy, (max_eq_right hle).symm⟩

namespace Interval

/-- The bounds of the interval are numbers. -/
def Bounded (i : Interval) : Prop := i.lo.isNaN = false ∧ i.hi.isNaN = false

theorem contains_iff (i : Interval) (x : Number) :
    i.contains x = true ↔
      i.Bounded ∧ x.isNaN = false ∧ i.lo.value ≤ x.value ∧ x.value ≤ i.hi.value := by
  unfold contains Bounded
  rw [decide_eq_true_iff, Number.le_iff, Number.le_iff]
  tauto

theorem Bounded.of_contains {i : Interval} {x : Number} (h : i.contains x = true) : i.Bounded :=
  ((contains_iff i x).1 h).1

theorem contains_entire {x : Number} (h : x.isNaN = false) : entire.contains x = true := by
  rw [contains_iff]
  unfold entire Bounded
  rw [Number.value_neg_infinity, Number.value_infinity]
  exact ⟨⟨Number.isNaN_neg_infinity, Number.isNaN_infinity⟩, h, bot_le, le_top⟩

/-- A number between two computed bounds is in the interval made of them. -/
theorem contains_between {lo hi x : Number} (hx : x.isNaN = false)
    (hbounds : lo.isNaN = false → hi.isNaN = false → lo.value ≤ x.value ∧ x.value ≤ hi.value) :
    (between lo hi).contains x = true := by
  unfold between
  split
  · exact contains_entire hx
  · next h =>
    rw [not_or, Bool.not_eq_true, Bool.not_eq_true] at h
    obtain ⟨hlo, hhi⟩ := h
    obtain ⟨hle, hge⟩ := hbounds hlo hhi
    rw [contains_iff]
    unfold Bounded
    dsimp only
    have hlow : (if lo == Number.infinity then Number.largest else lo).isNaN = false ∧
        (if lo == Number.infinity then Number.largest else lo).value ≤ x.value := by
      split
      · next heq =>
        rw [Number.beq_infinity_iff] at heq
        rw [heq.2, top_le_iff] at hle
        exact ⟨Number.isNaN_largest, hle ▸ le_top⟩
      · exact ⟨hlo, hle⟩
    have hhigh : (if hi == -Number.infinity then -Number.largest else hi).isNaN = false ∧
        x.value ≤ (if hi == -Number.infinity then -Number.largest else hi).value := by
      split
      · next heq =>
        rw [Number.beq_neg_infinity_iff] at heq
        rw [heq.2, le_bot_iff] at hge
        exact ⟨Number.isNaN_neg_largest, hge ▸ bot_le⟩
      · exact ⟨hhi, hge⟩
    exact ⟨⟨hlow.1, hhigh.1⟩, hx, hlow.2, hhigh.2⟩

/-- A number between the least and the greatest of four computed ones is in their hull. -/
theorem contains_hull {a b c d x : Number} (hx : x.isNaN = false)
    (hcorners : a.isNaN = false → b.isNaN = false → c.isNaN = false → d.isNaN = false →
      min (min a.value b.value) (min c.value d.value) ≤ x.value ∧
        x.value ≤ max (max a.value b.value) (max c.value d.value)) :
    (hull a b c d).contains x = true := by
  unfold hull
  split
  · exact contains_entire hx
  · next h =>
    simp only [not_or, Bool.not_eq_true] at h
    obtain ⟨ha, hb, hc, hd⟩ := h
    obtain ⟨hle, hge⟩ := hcorners ha hb hc hd
    have hab := Number.value_lesser ha hb
    have hcd := Number.value_lesser hc hd
    have hab' := Number.value_greater ha hb
    have hcd' := Number.value_greater hc hd
    refine contains_between hx fun _ _ => ⟨?_, ?_⟩
    · rw [(Number.value_lesser hab.1 hcd.1).2, hab.2, hcd.2]
      exact hle
    · rw [(Number.value_greater hab'.1 hcd'.1).2, hab'.2, hcd'.2]
      exact hge

variable {i j : Interval} {x y : Number}

theorem contains_add (hx : i.contains x = true) (hy : j.contains y = true)
    (h : (x + y).isNaN = false) : (i.add j).contains (x + y) = true := by
  rw [contains_iff] at hx hy
  refine contains_between h fun hlo hhi => ?_
  rw [Number.value_add h, Number.value_add hlo, Number.value_add hhi]
  exact ⟨rounded_mono (add_le_add hx.2.2.1 hy.2.2.1), rounded_mono (add_le_add hx.2.2.2 hy.2.2.2)⟩

theorem contains_sub (hx : i.contains x = true) (hy : j.contains y = true)
    (h : (x - y).isNaN = false) : (i.sub j).contains (x - y) = true := by
  rw [contains_iff] at hx hy
  refine contains_between h fun hlo hhi => ?_
  rw [Number.value_sub h, Number.value_sub hlo, Number.value_sub hhi]
  exact ⟨rounded_mono (EReal.sub_le_sub hx.2.2.1 hy.2.2.2),
    rounded_mono (EReal.sub_le_sub hx.2.2.2 hy.2.2.1)⟩

/-- A product of bounds is always a number, and the exact product rounded. -/
theorem value_boundProduct (hx : x.isNaN = false) (hy : y.isNaN = false) :
    (boundProduct x y).isNaN = false ∧
      (boundProduct x y).value = rounded (x.value * y.value) := by
  unfold boundProduct
  split
  · next h =>
    rw [Number.isZero_iff, Number.isZero_iff] at h
    have hzero : x.value * y.value = 0 := by
      rcases h with h | h <;> simp [h.2]
    rw [Number.value_zero, hzero, rounded_zero]
    exact ⟨Number.isNaN_zero, rfl⟩
  · next h =>
    rw [Number.isZero_iff, Number.isZero_iff, not_or] at h
    have hnan : (x * y).isNaN = false := by
      rw [← Bool.not_eq_true, Number.isNaN_mul]
      simp_all
    exact ⟨hnan, Number.value_mul hnan⟩

/-- A factor between two bounds gives a product between the products of the bounds. -/
theorem mul_corners {a b x : EReal} (y : EReal) (ha : a ≤ x) (hb : x ≤ b) :
    min (a * y) (b * y) ≤ x * y ∧ x * y ≤ max (a * y) (b * y) := by
  rcases le_total 0 y with hy | hy
  · exact ⟨min_le_of_left_le (mul_le_mul_of_nonneg_right ha hy),
      le_max_of_le_right (mul_le_mul_of_nonneg_right hb hy)⟩
  · exact ⟨min_le_of_right_le (EReal.mul_le_mul_of_nonpos_right hb hy),
      le_max_of_le_left (EReal.mul_le_mul_of_nonpos_right ha hy)⟩

/-- The exact product of two factors between bounds is between those of the bounds. -/
theorem mul_four_corners {a b c d x y : EReal} (ha : a ≤ x) (hb : x ≤ b) (hc : c ≤ y)
    (hd : y ≤ d) :
    min (min (a * c) (a * d)) (min (b * c) (b * d)) ≤ x * y ∧
      x * y ≤ max (max (a * c) (a * d)) (max (b * c) (b * d)) := by
  have hx := mul_corners y ha hb
  have hay := mul_corners a hc hd
  have hby := mul_corners b hc hd
  rw [mul_comm c a, mul_comm d a, mul_comm y a] at hay
  rw [mul_comm c b, mul_comm d b, mul_comm y b] at hby
  exact ⟨(min_le_min hay.1 hby.1).trans hx.1, hx.2.trans (max_le_max hay.2 hby.2)⟩

/-- Rounding keeps a value between the least and the greatest of four. -/
theorem rounded_corners {a b c d x : EReal} (h : min (min a b) (min c d) ≤ x ∧
      x ≤ max (max a b) (max c d)) :
    min (min (rounded a) (rounded b)) (min (rounded c) (rounded d)) ≤ rounded x ∧
      rounded x ≤ max (max (rounded a) (rounded b)) (max (rounded c) (rounded d)) := by
  rw [← rounded_mono.map_min, ← rounded_mono.map_min, ← rounded_mono.map_min,
    ← rounded_mono.map_max, ← rounded_mono.map_max, ← rounded_mono.map_max]
  exact ⟨rounded_mono h.1, rounded_mono h.2⟩

theorem contains_mul (hx : i.contains x = true) (hy : j.contains y = true)
    (h : (x * y).isNaN = false) : (i.mul j).contains (x * y) = true := by
  rw [contains_iff] at hx hy
  obtain ⟨⟨hilo, hihi⟩, -, hle, hge⟩ := hx
  obtain ⟨⟨hjlo, hjhi⟩, -, hle', hge'⟩ := hy
  refine contains_hull h fun _ _ _ _ => ?_
  rw [Number.value_mul h, (value_boundProduct hilo hjlo).2, (value_boundProduct hilo hjhi).2,
    (value_boundProduct hihi hjlo).2, (value_boundProduct hihi hjhi).2]
  exact rounded_corners (mul_four_corners hle hge hle' hge')

/-- Bounds on one side of zero are bounds of the inverse, the other way around. -/
theorem inv_bounds {c d y : EReal} (hc : c ≤ y) (hd : y ≤ d) (h : ¬ (c ≤ 0 ∧ 0 ≤ d)) :
    d⁻¹ ≤ y⁻¹ ∧ y⁻¹ ≤ c⁻¹ := by
  have hanti := EReal.inv_strictAntiOn.antitoneOn
  rcases lt_or_ge 0 c with hpos | hneg
  · have hy : 0 < y := hpos.trans_le hc
    exact ⟨hanti hy (hy.trans_le hd) hd, hanti hpos hy hc⟩
  · have hd' : d < 0 := not_le.1 fun hd' => h ⟨hneg, hd'⟩
    have hy : y < 0 := hd.trans_lt hd'
    have hflip : ∀ {x z : EReal}, x ≤ z → z < 0 → z⁻¹ ≤ x⁻¹ := fun hxz hz => by
      have hz' := EReal.neg_pos.2 hz
      have hxz' := EReal.neg_le_neg_iff.2 hxz
      have := hanti hz' (hz'.trans_le hxz') hxz'
      dsimp only at this
      rwa [EReal.inv_neg, EReal.inv_neg, EReal.neg_le_neg_iff] at this
    exact ⟨hflip hd hd', hflip hc hy⟩

theorem not_containsZero (hj : j.Bounded) (h : j.containsZero = false) :
    ¬ (j.lo.value ≤ 0 ∧ 0 ≤ j.hi.value) := by
  intro hzero
  have : j.contains 0.0 = true := by
    rw [contains_iff, Number.value_zero]
    exact ⟨hj, Number.isNaN_zero, hzero.1, hzero.2⟩
  unfold containsZero at h
  rw [this] at h
  exact Bool.noConfusion h

theorem containsZero_of_isZero (hy : j.contains y = true)
    (hzero : y.isZero = true) : j.containsZero = true := by
  rw [contains_iff] at hy
  rw [Number.isZero_iff] at hzero
  unfold containsZero
  rw [contains_iff, Number.value_zero]
  exact ⟨hy.1, Number.isNaN_zero, hzero.2 ▸ hy.2.2⟩

theorem contains_div (hx : i.contains x = true) (hy : j.contains y = true)
    (h : (x / y).isNaN = false) : (i.div j).contains (x / y) = true := by
  unfold div
  split
  · exact contains_entire h
  · next hzero =>
    rw [Bool.not_eq_true] at hzero
    have hside := not_containsZero (.of_contains hy) hzero
    rw [contains_iff] at hx hy
    obtain ⟨-, -, hle, hge⟩ := hx
    obtain ⟨-, -, hle', hge'⟩ := hy
    have hne : ∀ z : EReal, j.lo.value ≤ z → z ≤ j.hi.value → z ≠ 0 := by
      rintro z hlow hhigh rfl
      exact hside ⟨hlow, hhigh⟩
    have hlo := hne _ le_rfl (hle'.trans hge')
    have hhi := hne _ (hle'.trans hge') le_rfl
    obtain ⟨hinv, hinv'⟩ := inv_bounds hle' hge' hside
    refine contains_hull h fun ha hb hc hd => ?_
    rw [Number.value_div (hne _ hle' hge') h, Number.value_div hlo ha, Number.value_div hhi hb,
      Number.value_div hlo hc, Number.value_div hhi hd]
    have hcorners := mul_four_corners hle hge hinv hinv'
    rw [min_comm (i.lo.value * _), min_comm (i.hi.value * _), max_comm (i.lo.value * _),
      max_comm (i.hi.value * _)] at hcorners
    exact rounded_corners hcorners

/-- There is a quotient only by what is not zero. -/
theorem result?_div_eq_some {x y z : Number} :
    Arithmetic.div.result? x y = some z ↔ y.isZero = false ∧ x / y = z := by
  unfold Arithmetic.result?
  cases y.isZero <;> simp

/-- What an operation makes of two numbers, if a number, is in what it makes of their intervals. -/
theorem contains_onIntervals (op : Arithmetic) {z : Number} (hx : i.contains x = true)
    (hy : j.contains y = true) (hz : op.result? x y = some z) (h : z.isNaN = false) :
    (op.onIntervals i j).contains z = true := by
  cases op with
  | add =>
    obtain rfl := Option.some.inj hz
    exact contains_add hx hy h
  | sub =>
    obtain rfl := Option.some.inj hz
    exact contains_sub hx hy h
  | mul =>
    obtain rfl := Option.some.inj hz
    exact contains_mul hx hy h
  | div =>
    obtain ⟨-, rfl⟩ := result?_div_eq_some.1 hz
    exact contains_div hx hy h

theorem contains_lt (hx : i.contains x = true) (hy : j.contains y = true) :
    (i.lt j).contains (decide (x < y)) = true := by
  rw [contains_iff] at hx hy
  obtain ⟨⟨hilo, hihi⟩, hx, hle, hge⟩ := hx
  obtain ⟨⟨hjlo, hjhi⟩, hy, hle', hge'⟩ := hy
  unfold lt
  split
  · next h =>
    rw [Number.lt_iff] at h
    have : x < y := (Number.lt_iff x y).2 ⟨⟨hx, hy⟩, hge.trans_lt (h.2.trans_le hle')⟩
    simpa [BooleanSet.contains] using this
  · split
    · next h =>
      rw [Number.le_iff] at h
      have : ¬ x < y := fun hlt =>
        absurd ((Number.lt_iff x y).1 hlt).2 (not_lt.2 (hge'.trans (h.2.trans hle)))
      simpa [BooleanSet.contains] using this
    · rfl

theorem contains_le (hx : i.contains x = true) (hy : j.contains y = true) :
    (i.le j).contains (decide (x ≤ y)) = true := by
  rw [contains_iff] at hx hy
  obtain ⟨⟨hilo, hihi⟩, hx, hle, hge⟩ := hx
  obtain ⟨⟨hjlo, hjhi⟩, hy, hle', hge'⟩ := hy
  unfold le
  split
  · next h =>
    rw [Number.le_iff] at h
    have : x ≤ y := (Number.le_iff x y).2 ⟨⟨hx, hy⟩, hge.trans (h.2.trans hle')⟩
    simpa [BooleanSet.contains] using this
  · split
    · next h =>
      rw [Number.lt_iff] at h
      have : ¬ x ≤ y := fun hxy =>
        absurd ((Number.le_iff x y).1 hxy).2 (not_le.2 (hge'.trans_lt (h.2.trans_le hle)))
      simpa [BooleanSet.contains] using this
    · rfl

theorem contains_eq (hx : i.contains x = true) (hy : j.contains y = true) :
    (i.eq j).contains (x == y) = true := by
  rw [contains_iff] at hx hy
  obtain ⟨⟨hilo, hihi⟩, hx, hle, hge⟩ := hx
  obtain ⟨⟨hjlo, hjhi⟩, hy, hle', hge'⟩ := hy
  unfold eq isSingleton
  split
  · next h =>
    simp only [Number.beq_iff] at h
    obtain ⟨⟨-, hi⟩, ⟨-, hj⟩, -, hij⟩ := h
    rw [← hi] at hge
    rw [← hj] at hge'
    have hvalue : x.value = y.value := by
      rw [← le_antisymm hle hge, ← le_antisymm hle' hge', hij]
    exact (Number.beq_iff x y).2 ⟨⟨hx, hy⟩, hvalue⟩
  · split
    · next h =>
      rw [Number.lt_iff, Number.lt_iff] at h
      have hne : x.value ≠ y.value := by
        rcases h with h | h
        · exact (hge.trans_lt (h.2.trans_le hle')).ne
        · exact (hge'.trans_lt (h.2.trans_le hle)).ne'
      have : (x == y) = false := by
        rw [← Bool.not_eq_true, Number.beq_iff]
        exact fun heq => hne heq.2
      rw [this]
      rfl
    · rfl

end Interval

theorem BooleanSet.contains_not {s : BooleanSet} {b : Bool} (h : s.contains b = true) :
    s.not.contains (!b) = true := by
  cases s <;> cases b <;> first | rfl | exact h

namespace Interval

/-- The verdict on two numbers is among the verdicts on their intervals. -/
theorem contains_verdict (op : Comparison) {i j : Interval} {x y : Number}
    (hx : i.contains x = true) (hy : j.contains y = true) :
    (op.onIntervals i j).contains (op.holds x y) = true := by
  cases op with
  | lt => exact contains_lt hx hy
  | le => exact contains_le hx hy
  | gt => exact contains_lt hy hx
  | ge => exact contains_le hy hx
  | eq => exact contains_eq hx hy
  | ne => exact BooleanSet.contains_not (contains_eq hx hy)

theorem contains_union {i j : Interval} {x : Number} (hi : i.Bounded) (hj : j.Bounded)
    (h : i.contains x = true ∨ j.contains x = true) : (i.union j).contains x = true := by
  have hlo := Number.value_lesser hi.1 hj.1
  have hhi := Number.value_greater hi.2 hj.2
  rw [contains_iff, contains_iff] at h
  rw [contains_iff]
  unfold union Bounded
  dsimp only
  rw [hlo.2, hhi.2]
  rcases h with ⟨-, hx, hle, hge⟩ | ⟨-, hx, hle, hge⟩
  · exact ⟨⟨hlo.1, hhi.1⟩, hx, min_le_of_left_le hle, le_max_of_le_left hge⟩
  · exact ⟨⟨hlo.1, hhi.1⟩, hx, min_le_of_right_le hle, le_max_of_le_right hge⟩

end Interval

end RangeRules
