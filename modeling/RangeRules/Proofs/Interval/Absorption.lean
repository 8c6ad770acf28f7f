import RangeRules.Proofs.Interval.WellFormed

/-!
# What is not a number, in all numbers

The interval of all numbers stands for every result, also for one that is not a number. Operations
on well-formed intervals keep to that, with one exception: a product of zero and of what is not
finite may fall in a narrower interval. A comparison of all numbers with anything is never definite.
-/
namespace RangeRules

open Rounding

namespace Interval

variable {i j : Interval} {x y z : Number}

theorem same_entire_iff (i : Interval) :
    i.same entire = true ↔ i.Bounded ∧ i.lo.value = ⊥ ∧ i.hi.value = ⊤ := by
  unfold same entire Bounded
  rw [decide_eq_true_iff, Number.beq_infinity_iff, Number.beq_neg_infinity_iff]
  tauto

theorem same_entire_between {lo hi : Number} (hlo : lo.isNaN = true ∨ lo.value = ⊥)
    (hhi : hi.isNaN = true ∨ hi.value = ⊤) : (between lo hi).same entire = true := by
  rw [same_entire_iff]
  refine ⟨bounded_between lo hi, ?_⟩
  unfold between
  split
  · exact ((same_entire_iff entire).1 rfl).2
  · next h =>
    rw [not_or] at h
    have hlo' := hlo.resolve_left h.1
    have hhi' := hhi.resolve_left h.2
    simp only [Number.beq_infinity_iff, Number.beq_neg_infinity_iff, hlo', hhi']
    simp [hlo', hhi']

theorem same_entire_hull {a b c d : Number}
    (h : (a.isNaN = true ∨ b.isNaN = true ∨ c.isNaN = true ∨ d.isNaN = true) ∨
      (a.value = ⊥ ∨ b.value = ⊥ ∨ c.value = ⊥ ∨ d.value = ⊥) ∧
        (a.value = ⊤ ∨ b.value = ⊤ ∨ c.value = ⊤ ∨ d.value = ⊤)) :
    (hull a b c d).same entire = true := by
  unfold hull
  split
  · rfl
  · next hnan =>
    obtain ⟨hbot, htop⟩ := h.resolve_left hnan
    simp only [not_or, Bool.not_eq_true] at hnan
    obtain ⟨ha, hb, hc, hd⟩ := hnan
    have hab := Number.value_lesser ha hb
    have hcd := Number.value_lesser hc hd
    have hab' := Number.value_greater ha hb
    have hcd' := Number.value_greater hc hd
    refine same_entire_between (.inr ?_) (.inr ?_)
    · rw [(Number.value_lesser hab.1 hcd.1).2, hab.2, hcd.2]
      rcases hbot with h | h | h | h <;> simp [h]
    · rw [(Number.value_greater hab'.1 hcd'.1).2, hab'.2, hcd'.2]
      rcases htop with h | h | h | h <;> simp [h]

theorem value_add_eq_bot (h : x.value = ⊥ ∨ y.value = ⊥) :
    (x + y).isNaN = true ∨ (x + y).value = ⊥ := by
  rcases hnan : (x + y).isNaN
  · refine .inr ?_
    rw [Number.value_add hnan]
    rcases h with h | h <;> simp [h]
  · exact .inl rfl

theorem value_add_eq_top (h : x.value = ⊤ ∨ y.value = ⊤) :
    (x + y).isNaN = true ∨ (x + y).value = ⊤ := by
  rcases hnan : (x + y).isNaN
  · refine .inr ?_
    rw [Number.value_add hnan]
    rw [← Bool.not_eq_true, Number.isNaN_add] at hnan
    have hne : x.value ≠ ⊥ ∧ y.value ≠ ⊥ := by
      refine ⟨fun hx => hnan (.inr (.inr (.inr ⟨hx, ?_⟩))),
        fun hy => hnan (.inr (.inr (.inl ⟨?_, hy⟩)))⟩
      · exact h.resolve_left (hx ▸ bot_ne_top)
      · exact h.resolve_right (hy ▸ bot_ne_top)
    rcases h with h | h
    · rw [h, EReal.top_add_of_ne_bot hne.2, rounded_top]
    · rw [h, EReal.add_top_of_ne_bot hne.1, rounded_top]
  · exact .inl rfl

/-- A number with a place in all numbers, or in its interval. -/
def Belongs (i : Interval) (x : Number) : Prop :=
  i.contains x = true ∨ x.isNaN = true ∧ i.same entire = true

theorem Belongs.same_entire (h : Belongs i x) (hnan : x.isNaN = true) :
    i.same entire = true := by
  rcases h with h | h
  · rw [contains_iff, hnan] at h
    exact nomatch h.2.1
  · exact h.2

theorem Belongs.of_isNaN (h : Belongs i x) (hnan : x.isNaN = true) :
    i.lo.value = ⊥ ∧ i.hi.value = ⊤ :=
  ((same_entire_iff i).1 (h.same_entire hnan)).2

theorem Belongs.of_not_isNaN (h : Belongs i x) (hnan : x.isNaN = false) : i.contains x = true :=
  h.resolve_right fun h => Bool.noConfusion (hnan.symm.trans h.1)

theorem Belongs.hi_eq_top (h : Belongs i x) (hx : x.isNaN = true ∨ x.value = ⊤) :
    i.hi.value = ⊤ := by
  rcases hnan : x.isNaN
  · have hx' := hx.resolve_left (Bool.eq_false_iff.1 hnan)
    have := ((contains_iff i x).1 (h.of_not_isNaN hnan)).2.2.2
    rwa [hx', top_le_iff] at this
  · exact (h.of_isNaN hnan).2

theorem Belongs.lo_eq_bot (h : Belongs i x) (hx : x.isNaN = true ∨ x.value = ⊥) :
    i.lo.value = ⊥ := by
  rcases hnan : x.isNaN
  · have hx' := hx.resolve_left (Bool.eq_false_iff.1 hnan)
    have := ((contains_iff i x).1 (h.of_not_isNaN hnan)).2.2.1
    rwa [hx', le_bot_iff] at this
  · exact (h.of_isNaN hnan).1

theorem same_entire_add (hx : Belongs i x) (hy : Belongs j y) (hnan : (x + y).isNaN = true) :
    (i.add j).same entire = true := by
  rw [Number.isNaN_add] at hnan
  refine same_entire_between (value_add_eq_bot ?_) (value_add_eq_top ?_)
  · rcases hnan with h | h | ⟨-, h⟩ | ⟨h, -⟩
    · exact .inl (hx.lo_eq_bot (.inl h))
    · exact .inr (hy.lo_eq_bot (.inl h))
    · exact .inr (hy.lo_eq_bot (.inr h))
    · exact .inl (hx.lo_eq_bot (.inr h))
  · rcases hnan with h | h | ⟨h, -⟩ | ⟨-, h⟩
    · exact .inl (hx.hi_eq_top (.inl h))
    · exact .inr (hy.hi_eq_top (.inl h))
    · exact .inl (hx.hi_eq_top (.inr h))
    · exact .inr (hy.hi_eq_top (.inr h))

theorem same_entire_sub (hx : Belongs i x) (hy : Belongs j y) (hnan : (x - y).isNaN = true) :
    (i.sub j).same entire = true := by
  rw [Number.isNaN_sub] at hnan
  unfold sub
  rw [Number.sub_eq_add_neg, Number.sub_eq_add_neg]
  refine same_entire_between (value_add_eq_bot ?_) (value_add_eq_top ?_)
  · rw [Number.value_neg, EReal.neg_eq_bot_iff]
    rcases hnan with h | h | ⟨-, h⟩ | ⟨h, -⟩
    · exact .inl (hx.lo_eq_bot (.inl h))
    · exact .inr (hy.hi_eq_top (.inl h))
    · exact .inr (hy.hi_eq_top (.inr h))
    · exact .inl (hx.lo_eq_bot (.inr h))
  · rw [Number.value_neg, EReal.neg_eq_top_iff]
    rcases hnan with h | h | ⟨h, -⟩ | ⟨-, h⟩
    · exact .inl (hx.hi_eq_top (.inl h))
    · exact .inr (hy.lo_eq_bot (.inl h))
    · exact .inl (hx.hi_eq_top (.inr h))
    · exact .inr (hy.lo_eq_bot (.inr h))

/-- Zero times what is not finite. -/
def Indefinite (x y : Number) : Prop :=
  x.isZero = true ∧ y.isFinite = false ∨ x.isFinite = false ∧ y.isZero = true

theorem Indefinite.isNaN (h : Indefinite x y) : (x * y).isNaN = true := by
  unfold Indefinite at h
  simp only [Number.isZero_iff, Number.isFinite_eq_false_iff] at h
  rw [Number.isNaN_mul]
  tauto

/-- An interval of a nonzero number has a bound that is not zero. -/
theorem Belongs.bound_ne_zero (h : Belongs i x) (hx : x.isZero = false) :
    i.lo.value < 0 ∨ 0 < i.hi.value := by
  rcases hnan : x.isNaN
  · have hcontains := (contains_iff i x).1 (h.of_not_isNaN hnan)
    have hne : x.value ≠ 0 := fun heq => by
      rw [(Number.isZero_iff x).2 ⟨hnan, heq⟩] at hx
      exact Bool.noConfusion hx
    rcases lt_or_gt_of_ne hne with hlt | hgt
    · exact .inl (hcontains.2.2.1.trans_lt hlt)
    · exact .inr (hgt.trans_le hcontains.2.2.2)
  · exact .inr ((h.of_isNaN hnan).2 ▸ EReal.zero_lt_top)

/-- All numbers times an interval that is not the point zero are all numbers. -/
theorem corners_mul {a b c d : EReal} (ha : a = ⊥) (hb : b = ⊤) (h : c < 0 ∨ 0 < d) :
    (rounded (a * c) = ⊥ ∨ rounded (a * d) = ⊥ ∨ rounded (b * c) = ⊥ ∨ rounded (b * d) = ⊥) ∧
      (rounded (a * c) = ⊤ ∨ rounded (a * d) = ⊤ ∨ rounded (b * c) = ⊤ ∨
        rounded (b * d) = ⊤) := by
  subst ha hb
  rcases h with h | h
  · rw [EReal.bot_mul_of_neg h, EReal.top_mul_of_neg h]
    exact ⟨.inr (.inr (.inl rfl)), .inl rfl⟩
  · rw [EReal.bot_mul_of_pos h, EReal.top_mul_of_pos h]
    exact ⟨.inr (.inl rfl), .inr (.inr (.inr rfl))⟩

theorem same_entire_mul (hx : Belongs i x) (hy : Belongs j y) (hi : i.Bounded) (hj : j.Bounded)
    (hnan : (x * y).isNaN = true) (hdefinite : ¬ Indefinite x y) :
    (i.mul j).same entire = true := by
  unfold Indefinite at hdefinite
  simp only [Number.isFinite_eq_false_iff, not_or, not_and] at hdefinite
  obtain ⟨hleft, hright⟩ := hdefinite
  refine same_entire_hull (.inr ?_)
  rw [(value_boundProduct hi.1 hj.1).2, (value_boundProduct hi.1 hj.2).2,
    (value_boundProduct hi.2 hj.1).2, (value_boundProduct hi.2 hj.2).2]
  rcases hxnan : x.isNaN
  · rcases hynan : y.isNaN
    · rw [Number.isNaN_mul, hxnan, hynan] at hnan
      rcases hnan with h | h | ⟨hinf, hzero⟩ | ⟨hzero, hinf⟩
      · exact Bool.noConfusion h
      · exact Bool.noConfusion h
      · exact absurd ((Number.isZero_iff y).2 ⟨hynan, hzero⟩) (hright (.inr hinf))
      · exact absurd hinf (hleft ((Number.isZero_iff x).2 ⟨hxnan, hzero⟩)).2
    · have hzero : x.isZero = false := by
        rw [← Bool.not_eq_true]
        exact fun h => (hleft h).1 hynan
      obtain ⟨hlo, hhi⟩ := hy.of_isNaN hynan
      have hcorners := corners_mul hlo hhi (hx.bound_ne_zero hzero)
      rw [mul_comm j.lo.value, mul_comm j.lo.value, mul_comm j.hi.value,
        mul_comm j.hi.value] at hcorners
      exact hcorners.imp (Or.imp_right or_left_comm.1) (Or.imp_right or_left_comm.1)
  · have hzero : y.isZero = false := by
      rw [← Bool.not_eq_true]
      exact hright (.inl hxnan)
    obtain ⟨hlo, hhi⟩ := hx.of_isNaN hxnan
    exact corners_mul hlo hhi (hy.bound_ne_zero hzero)

/-- An interval of an infinite number has an infinite bound. -/
theorem Belongs.infinite_bound (h : Belongs i x) (hx : Number.Infinite x) :
    Number.Infinite i.lo ∨ Number.Infinite i.hi := by
  rcases hx with hx | hx
  · exact .inr (.inl (h.hi_eq_top (.inr hx)))
  · exact .inl (.inr (h.lo_eq_bot (.inr hx)))

/-- All numbers by bounds on one side of zero are all numbers. -/
theorem corners_div {a b c d : EReal} (ha : a = ⊥) (hb : b = ⊤) (h : ¬ (c ≤ 0 ∧ 0 ≤ d))
    (hc : c < ⊤) (hd : ⊥ < d) :
    (rounded (a / c) = ⊥ ∨ rounded (a / d) = ⊥ ∨ rounded (b / c) = ⊥ ∨ rounded (b / d) = ⊥) ∧
      (rounded (a / c) = ⊤ ∨ rounded (a / d) = ⊤ ∨ rounded (b / c) = ⊤ ∨
        rounded (b / d) = ⊤) := by
  subst ha hb
  rcases lt_or_ge 0 c with hpos | hneg
  · rw [EReal.bot_div_of_pos_ne_top hpos hc.ne, EReal.top_div_of_pos_ne_top hpos hc.ne]
    exact ⟨.inl rfl, .inr (.inr (.inl rfl))⟩
  · have hd' : d < 0 := not_le.1 fun hd' => h ⟨hneg, hd'⟩
    rw [EReal.bot_div_of_neg_ne_bot hd' hd.ne', EReal.top_div_of_neg_ne_bot hd' hd.ne']
    exact ⟨.inr (.inr (.inr rfl)), .inr (.inl rfl)⟩

/-- A quotient that is not a number has all numbers for its interval. -/
theorem same_entire_div (hx : Belongs i x) (hy : Belongs j y) (hj : j.WellFormed)
    (hnan : (x / y).isNaN = true) (hzero : y.isZero = false) :
    (i.div j).same entire = true := by
  unfold div
  split
  · rfl
  · next hside =>
    rw [Bool.not_eq_true] at hside
    rw [wellFormed_iff] at hj
    have hside' := not_containsZero hj.1 hside
    have hynan : y.isNaN = false := by
      rw [← Bool.not_eq_true]
      intro h
      obtain ⟨hlo, hhi⟩ := hy.of_isNaN h
      exact hside' ⟨hlo ▸ bot_le, hhi ▸ le_top⟩
    refine same_entire_hull (or_iff_not_imp_left.2 fun hcorners => ?_)
    simp only [not_or, Bool.not_eq_true] at hcorners
    obtain ⟨ha, hb, hc, hd⟩ := hcorners
    have hlo : j.lo.value ≠ 0 := fun h => hside' ⟨h.le, h ▸ hj.2.1⟩
    have hhi : j.hi.value ≠ 0 := fun h => hside' ⟨h ▸ hj.2.1, h.ge⟩
    rw [Number.value_div hlo ha, Number.value_div hhi hb, Number.value_div hlo hc,
      Number.value_div hhi hd]
    rw [← Bool.not_eq_true, Number.isNaN_div] at ha hb hc hd
    rw [Number.isNaN_div, hynan] at hnan
    rcases hnan with h | h | ⟨hinf, hinf'⟩ | ⟨-, h⟩
    · obtain ⟨hbot, htop⟩ := hx.of_isNaN h
      exact corners_div hbot htop hside' hj.2.2.1 hj.2.2.2
    · exact Bool.noConfusion h
    · rcases hx.infinite_bound hinf with hi | hi <;> rcases hy.infinite_bound hinf' with hj | hj
      · exact absurd (.inr (.inr (.inl ⟨hi, hj⟩))) ha
      · exact absurd (.inr (.inr (.inl ⟨hi, hj⟩))) hb
      · exact absurd (.inr (.inr (.inl ⟨hi, hj⟩))) hc
      · exact absurd (.inr (.inr (.inl ⟨hi, hj⟩))) hd
    · rw [(Number.isZero_iff y).2 ⟨hynan, h⟩] at hzero
      exact Bool.noConfusion hzero

theorem isNaN_of_result? {op : Arithmetic} (hz : op.result? x y = some z)
    (h : x.isNaN = true ∨ y.isNaN = true) : z.isNaN = true := by
  cases op with
  | add =>
    obtain rfl := Option.some.inj hz
    exact (Number.isNaN_add x y).2 (by tauto)
  | sub =>
    obtain rfl := Option.some.inj hz
    exact (Number.isNaN_sub x y).2 (by tauto)
  | mul =>
    obtain rfl := Option.some.inj hz
    exact (Number.isNaN_mul x y).2 (by tauto)
  | div =>
    obtain ⟨-, rfl⟩ := result?_div_eq_some.1 hz
    exact (Number.isNaN_div x y).2 (by tauto)

/-- Operations on numbers that belong to intervals belong to what they make of these. -/
theorem belongs_onIntervals (op : Arithmetic) (hi : i.WellFormed) (hj : j.WellFormed)
    (hx : Belongs i x) (hy : Belongs j y) (hz : op.result? x y = some z)
    (hdefinite : op = .mul → ¬ Indefinite x y) : Belongs (op.onIntervals i j) z := by
  have hi' := ((wellFormed_iff i).1 hi).1
  have hj' := ((wellFormed_iff j).1 hj).1
  rcases hnan : z.isNaN
  · have hoperands := mt (isNaN_of_result? hz) (Bool.eq_false_iff.1 hnan)
    rw [not_or, Bool.not_eq_true, Bool.not_eq_true] at hoperands
    exact .inl (contains_onIntervals op (hx.of_not_isNaN hoperands.1)
      (hy.of_not_isNaN hoperands.2) hz hnan)
  · refine .inr ⟨hnan, ?_⟩
    cases op with
    | add =>
      obtain rfl := Option.some.inj hz
      exact same_entire_add hx hy hnan
    | sub =>
      obtain rfl := Option.some.inj hz
      exact same_entire_sub hx hy hnan
    | mul =>
      obtain rfl := Option.some.inj hz
      exact same_entire_mul hx hy hi' hj' hnan (hdefinite rfl)
    | div =>
      obtain ⟨hzero, rfl⟩ := result?_div_eq_some.1 hz
      exact same_entire_div hx hy hj hnan hzero

theorem not_isSingleton_of_entire (h : i.lo.value = ⊥ ∧ i.hi.value = ⊤) :
    ¬ i.isSingleton = true := by
  unfold isSingleton
  rw [Number.beq_iff, h.1, h.2]
  exact fun hbeq => bot_ne_top hbeq.2

/-- An interval does not stand on one side of all numbers. -/
theorem not_apart_of_entire (hi : i.WellFormed) (hj : j.WellFormed)
    (h : i.lo.value = ⊥ ∧ i.hi.value = ⊤ ∨ j.lo.value = ⊥ ∧ j.hi.value = ⊤) :
    ¬ i.hi < j.lo ∧ ¬ i.hi ≤ j.lo ∧ ¬ j.hi < i.lo ∧ ¬ j.hi ≤ i.lo := by
  rw [wellFormed_iff] at hi hj
  simp only [Number.lt_iff, Number.le_iff, not_and, not_lt, not_le]
  rcases h with ⟨hlo, hhi⟩ | ⟨hlo, hhi⟩ <;> rw [hlo, hhi]
  · exact ⟨fun _ => le_top, fun _ => hj.2.2.1, fun _ => bot_le, fun _ => hj.2.2.2⟩
  · exact ⟨fun _ => bot_le, fun _ => hi.2.2.2, fun _ => le_top, fun _ => hi.2.2.1⟩

/-- No comparison with all numbers is definite. -/
theorem onIntervals_eq_both (op : Comparison) (hi : i.WellFormed) (hj : j.WellFormed)
    (h : i.lo.value = ⊥ ∧ i.hi.value = ⊤ ∨ j.lo.value = ⊥ ∧ j.hi.value = ⊤) :
    op.onIntervals i j = .both := by
  have hij := not_apart_of_entire hi hj h
  have hsingleton : ¬ (i.isSingleton = true ∧ j.isSingleton = true ∧ (i.lo == j.lo) = true) := by
    rintro ⟨hi', hj', -⟩
    exact h.elim (fun h => not_isSingleton_of_entire h hi')
      fun h => not_isSingleton_of_entire h hj'
  have heq : i.eq j = .both := by
    unfold eq
    rw [if_neg hsingleton, if_neg (by tauto)]
  cases op with
  | lt => exact (if_neg hij.1).trans (if_neg hij.2.2.2)
  | le => exact (if_neg hij.2.1).trans (if_neg hij.2.2.1)
  | gt => exact (if_neg hij.2.2.1).trans (if_neg hij.2.1)
  | ge => exact (if_neg hij.2.2.2).trans (if_neg hij.1)
  | eq => exact heq
  | ne =>
    change (i.eq j).not = .both
    rw [heq]
    rfl

theorem lower_le_self (hi : i.Bounded) : i.ge (.singleton i.lo) = .onlyTrue :=
  if_pos ((Number.le_iff _ _).2 ⟨⟨hi.1, hi.1⟩, le_rfl⟩)

theorem self_le_upper (hi : i.Bounded) : i.le (.singleton i.hi) = .onlyTrue :=
  if_pos ((Number.le_iff _ _).2 ⟨⟨hi.2, hi.2⟩, le_rfl⟩)

/-- A narrower interval than all numbers compares definitely with some finite number. -/
theorem exists_definite (hi : i.WellFormed) (hnarrow : i.same entire ≠ true) :
    ∃ (op : Comparison) (bound : Number), bound.isFinite = true ∧
      op.onIntervals i (.singleton bound) = .onlyTrue ∧
      ∀ x : Number, x.isNaN = true → op.holds x bound = false := by
  rw [wellFormed_iff] at hi
  rw [Ne, same_entire_iff, not_and, not_and_or] at hnarrow
  rcases hnarrow hi.1 with hlo | hhi
  · refine ⟨.ge, i.lo, ?_, lower_le_self hi.1, fun x hx => ?_⟩
    · rw [Number.isFinite_iff]
      exact ⟨hi.1.1, fun h => h.elim hi.2.2.1.ne hlo⟩
    · refine decide_eq_false fun h => ?_
      rw [((Number.le_iff _ _).1 h).1.2] at hx
      exact nomatch hx
  · refine ⟨.le, i.hi, ?_, self_le_upper hi.1, fun x hx => ?_⟩
    · rw [Number.isFinite_iff]
      exact ⟨hi.1.2, fun h => h.elim hhi hi.2.2.2.ne'⟩
    · refine decide_eq_false fun h => ?_
      rw [((Number.le_iff _ _).1 h).1.1] at hx
      exact nomatch hx

theorem contains_verdict_of_belongs (op : Comparison) (hi : i.WellFormed) (hj : j.WellFormed)
    (hx : Belongs i x) (hy : Belongs j y) :
    (op.onIntervals i j).contains (op.holds x y) = true := by
  rcases hxnan : x.isNaN
  · rcases hynan : y.isNaN
    · exact contains_verdict op (hx.of_not_isNaN hxnan) (hy.of_not_isNaN hynan)
    · rw [onIntervals_eq_both op hi hj (.inr (hy.of_isNaN hynan))]
      rfl
  · rw [onIntervals_eq_both op hi hj (.inl (hx.of_isNaN hxnan))]
    rfl

theorem belongs_union (hi : i.Bounded) (hj : j.Bounded) (h : Belongs i x ∨ Belongs j x) :
    Belongs (i.union j) x := by
  rcases hnan : x.isNaN
  · exact .inl (contains_union hi hj (h.imp (·.of_not_isNaN hnan) (·.of_not_isNaN hnan)))
  · refine .inr ⟨hnan, (same_entire_iff _).2 ⟨bounded_union hi hj, ?_⟩⟩
    unfold union
    dsimp only
    rw [(Number.value_lesser hi.1 hj.1).2, (Number.value_greater hi.2 hj.2).2]
    rcases h with h | h
    · obtain ⟨hlo, hhi⟩ := h.of_isNaN hnan
      simp [hlo, hhi]
    · obtain ⟨hlo, hhi⟩ := h.of_isNaN hnan
      simp [hlo, hhi]

end Interval

end RangeRules
