import RangeRules.Proofs.Interval.Inclusion

/-!
# Intervals no wider than they need be

Interval arithmetic contains what it must and nothing avoidable: the result is the least well-formed
interval with every number computed from numbers of the operands, where infinite bounds count as
numbers of their intervals. Containment is shown elsewhere. For the rest it is enough that the
corners that bound the result are such numbers themselves. The exception is division by an interval
with zero in it, or of one unbounded interval by another; then the result is all numbers.
-/
namespace RangeRules

open Rounding

/-- A number that the operation computes from a number of each interval. -/
def Arithmetic.Yields (op : Arithmetic) (i j : Interval) (z : Number) : Prop :=
  z.isNaN = false ∧
    ∃ x y : Number, i.contains x = true ∧ j.contains y = true ∧ op.result? x y = some z

namespace Interval

/-- A bound of the interval is infinite. -/
def Unbounded (i : Interval) : Prop := i.lo.isFinite = false ∨ i.hi.isFinite = false

/-- The interval is the least with every number that the operation computes. -/
structure Tightest (result : Interval) (op : Arithmetic) (i j : Interval) : Prop where
  wellFormed : result.WellFormed
  contains : ∀ z, op.Yields i j z → result.contains z = true
  least : ∀ other : Interval, other.WellFormed →
    (∀ z, op.Yields i j z → other.contains z = true) → other.encloses result = true

end Interval

/-- Division that says nothing of the quotient. -/
def Arithmetic.Uninformative (op : Arithmetic) (i j : Interval) : Prop :=
  op = .div ∧ (j.containsZero = true ∨ i.Unbounded ∧ j.Unbounded)

namespace Interval

variable {i j w : Interval} {x y : Number}

/-- A well-formed interval has a finite number in it: a bound, or zero if neither is finite. -/
theorem WellFormed.exists_finite (h : i.WellFormed) :
    ∃ x : Number, i.contains x = true ∧ x.isFinite = true := by
  by_cases hlo : i.lo.isFinite = true
  · exact ⟨i.lo, h.contains_lo, hlo⟩
  by_cases hhi : i.hi.isFinite = true
  · exact ⟨i.hi, h.contains_hi, hhi⟩
  rw [wellFormed_iff] at h
  obtain ⟨hbounded, -, hlt, hgt⟩ := h
  rw [Bool.not_eq_true, Number.isFinite_eq_false_iff] at hlo hhi
  have hbot : i.lo.value = ⊥ := by
    rcases hlo with hnan | htop | hbot
    · rw [hbounded.1] at hnan
      exact Bool.noConfusion hnan
    · exact absurd htop hlt.ne
    · exact hbot
  have htop : i.hi.value = ⊤ := by
    rcases hhi with hnan | htop | hbot
    · rw [hbounded.2] at hnan
      exact Bool.noConfusion hnan
    · exact htop
    · exact absurd hbot hgt.ne'
  refine ⟨0.0, (contains_iff i 0.0).2 ⟨hbounded, rfl, ?_, ?_⟩, rfl⟩
  · rw [hbot]
    exact bot_le
  · rw [htop]
    exact le_top

/-!
### Corners are computed

The bounds of a result are made of corners, and each corner is a number that the operation computes
from numbers of the operands. Only the product of zero and an infinite bound is not, but there zero
times a finite number is.
-/

/-- Whether a result is a number is a question of infinities and zeros alone. -/
theorem isNaN_or_iff (hx : i.contains x = true) (hy : j.contains y = true) (p : Prop) :
    (x.isNaN = true ∨ y.isNaN = true ∨ p) ↔ p := by
  have hx' := ((contains_iff i x).1 hx).2.1
  have hy' := ((contains_iff j y).1 hy).2.1
  simp only [hx', hy', Bool.false_eq_true, false_or]

theorem yields_add (hx : i.contains x = true) (hy : j.contains y = true)
    (htop : x.value = ⊤ → y.value ≠ ⊥) (hbot : x.value = ⊥ → y.value ≠ ⊤) :
    Arithmetic.add.Yields i j (x + y) := by
  have hnan : (x + y).isNaN = false := by
    rw [← Bool.not_eq_true, Number.isNaN_add, isNaN_or_iff hx hy]
    rintro (h | h)
    · exact htop h.1 h.2
    · exact hbot h.1 h.2
  exact ⟨hnan, x, y, hx, hy, rfl⟩

theorem yields_sub (hx : i.contains x = true) (hy : j.contains y = true)
    (htop : x.value = ⊤ → y.value ≠ ⊤) (hbot : x.value = ⊥ → y.value ≠ ⊥) :
    Arithmetic.sub.Yields i j (x - y) := by
  have hnan : (x - y).isNaN = false := by
    rw [← Bool.not_eq_true, Number.isNaN_sub, isNaN_or_iff hx hy]
    rintro (h | h)
    · exact htop h.1 h.2
    · exact hbot h.1 h.2
  exact ⟨hnan, x, y, hx, hy, rfl⟩

/-- Of the two zeros, and of equal numbers in general, an interval contains both or neither. -/
theorem contains_of_value_eq (hx : w.contains x = true) (hy : y.isNaN = false)
    (h : y.value = x.value) : w.contains y = true := by
  rw [contains_iff] at hx ⊢
  exact ⟨hx.1, hy, h ▸ hx.2.2.1, h ▸ hx.2.2.2⟩

theorem yields_mul (hx : i.contains x = true) (hy : j.contains y = true)
    (hxy : Number.Infinite x → y.value ≠ 0) (hyx : Number.Infinite y → x.value ≠ 0) :
    Arithmetic.mul.Yields i j (x * y) := by
  have hnan : (x * y).isNaN = false := by
    rw [← Bool.not_eq_true, Number.isNaN_mul, isNaN_or_iff hx hy]
    rintro (h | h)
    · exact hxy h.1 h.2
    · exact hyx h.2 h.1
  exact ⟨hnan, x, y, hx, hy, rfl⟩

theorem not_infinite_of_value_eq_zero (h : x.value = 0) : ¬ Number.Infinite x := by
  rintro (htop | hbot)
  · exact EReal.zero_ne_top (h.symm.trans htop)
  · exact EReal.zero_ne_bot (h.symm.trans hbot)

/-- Some product is zero if a factor may be. -/
theorem exists_yields_zero (hi : i.WellFormed) (hj : j.WellFormed) (hx : i.contains x = true)
    (hy : j.contains y = true) (h : x.value = 0 ∨ y.value = 0) :
    ∃ z : Number, Arithmetic.mul.Yields i j z ∧ z.value = 0 := by
  rcases h with h | h
  · obtain ⟨y', hy', hfinite⟩ := hj.exists_finite
    have hyields : Arithmetic.mul.Yields i j (x * y') := by
      refine yields_mul hx hy' (fun hinf => ?_) fun hinf => ?_
      · exact absurd hinf (not_infinite_of_value_eq_zero h)
      · exact absurd hinf ((Number.isFinite_iff y').1 hfinite).2
    refine ⟨_, hyields, ?_⟩
    rw [Number.value_mul hyields.1, h, zero_mul, rounded_zero]
  · obtain ⟨x', hx', hfinite⟩ := hi.exists_finite
    have hyields : Arithmetic.mul.Yields i j (x' * y) := by
      refine yields_mul hx' hy (fun hinf => ?_) fun hinf => ?_
      · exact absurd hinf ((Number.isFinite_iff x').1 hfinite).2
      · exact absurd hinf (not_infinite_of_value_eq_zero h)
    refine ⟨_, hyields, ?_⟩
    rw [Number.value_mul hyields.1, h, mul_zero, rounded_zero]

/-- What contains all products contains the products of bounds too. -/
theorem contains_corner (hi : i.WellFormed) (hj : j.WellFormed)
    (hw : ∀ z, Arithmetic.mul.Yields i j z → w.contains z = true) (hx : i.contains x = true)
    (hy : j.contains y = true) : w.contains (boundProduct x y) = true := by
  unfold boundProduct
  by_cases hzero : x.isZero = true ∨ y.isZero = true
  · rw [if_pos hzero]
    rw [Number.isZero_iff, Number.isZero_iff] at hzero
    obtain ⟨z, hyields, hz⟩ := exists_yields_zero hi hj hx hy (hzero.imp And.right And.right)
    exact contains_of_value_eq (hw z hyields) Number.isNaN_zero (Number.value_zero.trans hz.symm)
  · rw [if_neg hzero]
    rw [Number.isZero_iff, Number.isZero_iff, not_or] at hzero
    have hx' : x.value ≠ 0 := fun h => hzero.1 ⟨((contains_iff i x).1 hx).2.1, h⟩
    have hy' : y.value ≠ 0 := fun h => hzero.2 ⟨((contains_iff j y).1 hy).2.1, h⟩
    exact hw _ (yields_mul hx hy (fun _ => hy') fun _ => hx')

/-- An infinite number of an interval is a bound of it. -/
theorem Unbounded.of_contains (hx : i.contains x = true) (h : Number.Infinite x) :
    i.Unbounded := by
  obtain ⟨-, -, hlo, hhi⟩ := (contains_iff i x).1 hx
  unfold Unbounded
  rw [Number.isFinite_eq_false_iff, Number.isFinite_eq_false_iff]
  rcases h with h | h
  · exact .inr (.inr (.inl (top_le_iff.1 (h ▸ hhi))))
  · exact .inl (.inr (.inr (le_bot_iff.1 (h ▸ hlo))))

theorem yields_div (hx : i.contains x = true) (hy : j.contains y = true)
    (hzero : ¬ j.containsZero = true) (hbounded : ¬ (i.Unbounded ∧ j.Unbounded)) :
    Arithmetic.div.Yields i j (x / y) := by
  have hdivisor : y.isZero = false := by
    rw [← Bool.not_eq_true]
    exact fun h => hzero (containsZero_of_isZero hy h)
  have hnan : (x / y).isNaN = false := by
    rw [← Bool.not_eq_true, Number.isNaN_div, isNaN_or_iff hx hy]
    rintro (h | h)
    · exact hbounded ⟨.of_contains hx h.1, .of_contains hy h.2⟩
    · have hy' := ((contains_iff j y).1 hy).2.1
      rw [(Number.isZero_iff y).2 ⟨hy', h.2⟩] at hdivisor
      exact Bool.noConfusion hdivisor
  exact ⟨hnan, x, y, hx, hy, result?_div_eq_some.2 ⟨hdivisor, rfl⟩⟩

/-!
### The least interval
-/

theorem least_add (hi : i.WellFormed) (hj : j.WellFormed) (hwf : w.WellFormed)
    (hw : ∀ z, Arithmetic.add.Yields i j z → w.contains z = true) :
    w.encloses (i.add j) = true := by
  obtain ⟨-, -, hilo, hihi⟩ := (wellFormed_iff i).1 hi
  obtain ⟨-, -, hjlo, hjhi⟩ := (wellFormed_iff j).1 hj
  have hlo := yields_add hi.contains_lo hj.contains_lo (fun h => absurd h hilo.ne)
    fun _ => hjlo.ne
  have hhi := yields_add hi.contains_hi hj.contains_hi (fun _ => hjhi.ne')
    fun h => absurd h hihi.ne'
  exact encloses_between hwf (.inl (hw _ hlo)) (.inl (hw _ hhi))

theorem least_sub (hi : i.WellFormed) (hj : j.WellFormed) (hwf : w.WellFormed)
    (hw : ∀ z, Arithmetic.sub.Yields i j z → w.contains z = true) :
    w.encloses (i.sub j) = true := by
  obtain ⟨-, -, hilo, hihi⟩ := (wellFormed_iff i).1 hi
  obtain ⟨-, -, hjlo, hjhi⟩ := (wellFormed_iff j).1 hj
  have hlo := yields_sub hi.contains_lo hj.contains_hi (fun h => absurd h hilo.ne)
    fun _ => hjhi.ne'
  have hhi := yields_sub hi.contains_hi hj.contains_lo (fun _ => hjlo.ne)
    fun h => absurd h hihi.ne'
  exact encloses_between hwf (.inl (hw _ hlo)) (.inl (hw _ hhi))

theorem least_mul (hi : i.WellFormed) (hj : j.WellFormed) (hwf : w.WellFormed)
    (hw : ∀ z, Arithmetic.mul.Yields i j z → w.contains z = true) :
    w.encloses (i.mul j) = true := by
  have hcorner : ∀ {x y : Number}, i.contains x = true → j.contains y = true →
      Belongs w (boundProduct x y) := fun hx hy => .inl (contains_corner hi hj hw hx hy)
  exact encloses_hull hwf (hcorner hi.contains_lo hj.contains_lo)
    (hcorner hi.contains_lo hj.contains_hi) (hcorner hi.contains_hi hj.contains_lo)
    (hcorner hi.contains_hi hj.contains_hi)

theorem least_div (hi : i.WellFormed) (hj : j.WellFormed) (hzero : ¬ j.containsZero = true)
    (hbounded : ¬ (i.Unbounded ∧ j.Unbounded)) (hwf : w.WellFormed)
    (hw : ∀ z, Arithmetic.div.Yields i j z → w.contains z = true) :
    w.encloses (i.div j) = true := by
  have hcorner : ∀ {x y : Number}, i.contains x = true → j.contains y = true →
      Belongs w (x / y) := fun hx hy => .inl (hw _ (yields_div hx hy hzero hbounded))
  unfold div
  rw [if_neg hzero]
  exact encloses_hull hwf (hcorner hi.contains_lo hj.contains_lo)
    (hcorner hi.contains_lo hj.contains_hi) (hcorner hi.contains_hi hj.contains_lo)
    (hcorner hi.contains_hi hj.contains_hi)

theorem Unbounded.exists_infinite (hi : i.WellFormed) (h : i.Unbounded) :
    Number.Infinite i.lo ∨ Number.Infinite i.hi := by
  have hbounded := ((wellFormed_iff i).1 hi).1
  unfold Unbounded at h
  rw [Number.isFinite_eq_false_iff, Number.isFinite_eq_false_iff, hbounded.1, hbounded.2] at h
  simpa using h

/-- Infinity by infinity is not a number, and such a corner widens the quotient to all numbers. -/
theorem div_eq_entire (hi : i.WellFormed) (hj : j.WellFormed)
    (h : j.containsZero = true ∨ i.Unbounded ∧ j.Unbounded) : i.div j = entire := by
  unfold div
  by_cases hzero : j.containsZero = true
  · rw [if_pos hzero]
  · obtain ⟨hiInf, hjInf⟩ := h.resolve_left hzero
    have hnan : ∀ {x y : Number}, Number.Infinite x → Number.Infinite y → (x / y).isNaN = true :=
      fun hx hy => (Number.isNaN_div _ _).2 (.inr (.inr (.inl ⟨hx, hy⟩)))
    rw [if_neg hzero]
    unfold hull
    rw [if_pos]
    rcases hiInf.exists_infinite hi with hx | hx <;> rcases hjInf.exists_infinite hj with hy | hy
    · exact .inl (hnan hx hy)
    · exact .inr (.inl (hnan hx hy))
    · exact .inr (.inr (.inl (hnan hx hy)))
    · exact .inr (.inr (.inr (hnan hx hy)))

end Interval

namespace Arithmetic

/--
The result of an operation on well-formed intervals is the least well-formed interval with every
number computed from theirs, and all numbers where a division says nothing of the quotient.
-/
theorem onIntervals_tightest (op : Arithmetic) (i j : Interval) (hi : i.WellFormed)
    (hj : j.WellFormed) :
    (¬ op.Uninformative i j → Interval.Tightest (op.onIntervals i j) op i j) ∧
      (op.Uninformative i j → op.onIntervals i j = .entire) := by
  constructor
  · intro hinformative
    refine ⟨Interval.wellFormed_onIntervals op hi hj, ?_, ?_⟩
    · rintro z ⟨hz, x, y, hx, hy, hresult⟩
      exact Interval.contains_onIntervals op hx hy hresult hz
    · intro w hwf hw
      cases op with
      | add => exact Interval.least_add hi hj hwf hw
      | sub => exact Interval.least_sub hi hj hwf hw
      | mul => exact Interval.least_mul hi hj hwf hw
      | div =>
        have hnot := not_or.1 fun h => hinformative ⟨rfl, h⟩
        exact Interval.least_div hi hj hnot.1 hnot.2 hwf hw
  · rintro ⟨rfl, h⟩
    exact Interval.div_eq_entire hi hj h

/-- An infinite factor leaves the product with a number between zero and three bounded by zero, and
two unbounded intervals divided by one another are all numbers. -/
theorem onIntervals_tightest_unbounded :
    let i : Interval := ⟨0, 3⟩
    let j : Interval := ⟨2, Number.infinity⟩
    i.WellFormed ∧ j.WellFormed ∧ (i.mul j).same ⟨0, Number.infinity⟩ = true ∧
      (i.mul j).Tightest .mul i j ∧ j.div j = .entire := by
  intro i j
  have hi : i.WellFormed := ⟨by decide +kernel, by decide +kernel, by decide +kernel⟩
  have hj : j.WellFormed := ⟨by decide +kernel, by decide +kernel, by decide +kernel⟩
  have hinformative : ¬ Arithmetic.mul.Uninformative i j := nofun
  have hunbounded : j.Unbounded := .inr (by decide +kernel)
  exact ⟨hi, hj, by decide +kernel, (onIntervals_tightest .mul i j hi hj).1 hinformative,
    (onIntervals_tightest .div j j hj hj).2 ⟨rfl, .inr ⟨hunbounded, hunbounded⟩⟩⟩

end Arithmetic

end RangeRules
