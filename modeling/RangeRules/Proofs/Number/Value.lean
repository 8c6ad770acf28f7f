import RangeRules.Number.Basic
import RangeRules.Proofs.Number.Operations

/-!
# What a number is

Every number but the one that is not a number is an extended real, and the two zeros are the same.
Order and equality of numbers are those of the extended reals, and an operation is the exact one
rounded; when a result is not a number is told by the operands. Later modules use this view of
numbers only and never their encoding.
-/
namespace RangeRules

open Float.Model (UnpackedFloat Format)
open Rounding

namespace Number

/-- The extended real that a number is; what is not a number counts as zero. -/
noncomputable def value (x : Number) : EReal := Unpacked.valueOf x.toModel.unpack

theorem packable (x : Number) : Unpacked.Packable x.toModel.unpack :=
  Unpacked.packable_unpack x.toModel

theorem isNaN_iff (x : Number) : x.isNaN = true ↔ x.toModel.unpack = .notANumber := by
  change x.toModel.unpack.isNaN = true ↔ _
  cases x.toModel.unpack <;> simp [UnpackedFloat.isNaN]

theorem compare_eq_none {x y : Number} (h : x.isNaN = true ∨ y.isNaN = true) :
    x.toModel.unpack.compare y.toModel.unpack = none := by
  rw [isNaN_iff, isNaN_iff] at h
  rcases h with h | h <;> rw [h]
  · rfl
  · cases x.toModel.unpack <;> rfl

theorem compare_eq {x y : Number} (hx : x.isNaN = false) (hy : y.isNaN = false) :
    x.toModel.unpack.compare y.toModel.unpack = some (cmp x.value y.value) := by
  refine Unpacked.compare_eq_cmp x.packable y.packable ?_ ?_
  · rw [Ne, ← isNaN_iff, hx]
    exact Bool.false_ne_true
  · rw [Ne, ← isNaN_iff, hy]
    exact Bool.false_ne_true

theorem compare_cases (x y : Number) :
    (x.isNaN = false ∧ y.isNaN = false ∧
      x.toModel.unpack.compare y.toModel.unpack = some (cmp x.value y.value)) ∨
    (¬ (x.isNaN = false ∧ y.isNaN = false) ∧
      x.toModel.unpack.compare y.toModel.unpack = none) := by
  cases hx : x.isNaN
  · cases hy : y.isNaN
    · exact .inl ⟨rfl, rfl, compare_eq hx hy⟩
    · exact .inr ⟨by simp, compare_eq_none (.inr hy)⟩
  · exact .inr ⟨by simp, compare_eq_none (.inl hx)⟩

theorem le_iff (x y : Number) :
    x ≤ y ↔ (x.isNaN = false ∧ y.isNaN = false) ∧ x.value ≤ y.value := by
  have hle : x ≤ y ↔ (x.toModel.unpack.compare y.toModel.unpack).any (·.isLE) = true := by
    change decide (_ = true) = true ↔ _
    exact decide_eq_true_iff
  rw [hle]
  rcases compare_cases x y with ⟨hx, hy, h⟩ | ⟨hnot, h⟩ <;> rw [h]
  · rw [hx, hy]
    rcases lt_trichotomy x.value y.value with hlt | heq | hgt
    · simp [(cmp_eq_lt_iff _ _).2 hlt, hlt.le]
    · simp [heq]
    · simp [(cmp_eq_gt_iff _ _).2 hgt, hgt]
  · simp only [hnot, false_and, iff_false]
    exact Bool.false_ne_true

theorem lt_iff (x y : Number) :
    x < y ↔ (x.isNaN = false ∧ y.isNaN = false) ∧ x.value < y.value := by
  have hlt : x < y ↔ (x.toModel.unpack.compare y.toModel.unpack == some .lt) = true := by
    change decide (_ = true) = true ↔ _
    exact decide_eq_true_iff
  rw [hlt]
  rcases compare_cases x y with ⟨hx, hy, h⟩ | ⟨hnot, h⟩ <;> rw [h]
  · rw [hx, hy]
    simp
  · simp only [hnot, false_and, iff_false]
    exact Bool.false_ne_true

theorem beq_iff (x y : Number) :
    (x == y) = true ↔ (x.isNaN = false ∧ y.isNaN = false) ∧ x.value = y.value := by
  have heq : (x == y) = (x.toModel.unpack.compare y.toModel.unpack == some .eq) := rfl
  rw [heq]
  rcases compare_cases x y with ⟨hx, hy, h⟩ | ⟨hnot, h⟩ <;> rw [h]
  · rw [hx, hy]
    simp
  · simp only [hnot, false_and, iff_false]
    exact Bool.false_ne_true

theorem isNaN_of_unpack_eq_repack {x : Number} {u : UnpackedFloat}
    (h : x.toModel.unpack = Unpacked.repack u) : x.isNaN = true ↔ u = .notANumber := by
  rw [isNaN_iff, h, Unpacked.repack_eq_notANumber_iff]

theorem ne_notANumber {x : Number} {u : UnpackedFloat}
    (h : x.toModel.unpack = Unpacked.repack u) (hx : x.isNaN = false) : u ≠ .notANumber := by
  rw [Ne, ← isNaN_of_unpack_eq_repack h, hx]
  exact Bool.false_ne_true

theorem value_add {x y : Number} (h : (x + y).isNaN = false) :
    (x + y).value = rounded (x.value + y.value) :=
  Unpacked.valueOf_repack_add x.packable y.packable (ne_notANumber rfl h)

theorem value_neg (x : Number) : (-x).value = -x.value := by
  have hneg : (-x).toModel.unpack = Unpacked.repack x.toModel.unpack.neg := rfl
  rw [value, hneg, Unpacked.repack_of_packable x.packable.neg]
  exact Unpacked.valueOf_neg _

theorem isNaN_neg (x : Number) : (-x).isNaN = x.isNaN := by
  have hneg : (-x).toModel.unpack = Unpacked.repack x.toModel.unpack.neg := rfl
  rw [Bool.eq_iff_iff, isNaN_of_unpack_eq_repack hneg, isNaN_iff]
  cases x.toModel.unpack <;> simp [UnpackedFloat.neg]

theorem sub_eq_add_neg (x y : Number) : x - y = x + -y := by
  have hneg : (-y).toModel.unpack = y.toModel.unpack.neg :=
    Unpacked.repack_of_packable y.packable.neg
  change Float.ofModel (.pack (.sub .binary64 x.toModel.unpack y.toModel.unpack)) =
    Float.ofModel (.pack (.add .binary64 x.toModel.unpack (-y).toModel.unpack))
  rw [hneg, Unpacked.sub_eq_add_neg]

theorem value_sub {x y : Number} (h : (x - y).isNaN = false) :
    (x - y).value = rounded (x.value - y.value) := by
  rw [sub_eq_add_neg] at h ⊢
  rw [value_add h, value_neg]
  rfl

theorem value_mul {x y : Number} (h : (x * y).isNaN = false) :
    (x * y).value = rounded (x.value * y.value) :=
  Unpacked.valueOf_repack_mul x.packable y.packable (ne_notANumber rfl h)

theorem value_div {x y : Number} (hy : y.value ≠ 0) (h : (x / y).isNaN = false) :
    (x / y).value = rounded (x.value / y.value) :=
  Unpacked.valueOf_repack_div hy (ne_notANumber rfl h)

/-- An infinite number of either sign. -/
abbrev Infinite (x : Number) : Prop := Unpacked.Infinite x.value

theorem isNaN_add (x y : Number) :
    (x + y).isNaN = true ↔ x.isNaN = true ∨ y.isNaN = true ∨
      (x.value = ⊤ ∧ y.value = ⊥) ∨ (x.value = ⊥ ∧ y.value = ⊤) := by
  have hadd : (x + y).toModel.unpack =
      Unpacked.repack (.add .binary64 x.toModel.unpack y.toModel.unpack) := rfl
  rw [isNaN_of_unpack_eq_repack hadd, Unpacked.add_eq_notANumber_iff, isNaN_iff, isNaN_iff]
  rfl

theorem isNaN_mul (x y : Number) :
    (x * y).isNaN = true ↔ x.isNaN = true ∨ y.isNaN = true ∨
      (Infinite x ∧ y.value = 0) ∨ (x.value = 0 ∧ Infinite y) := by
  have hmul : (x * y).toModel.unpack =
      Unpacked.repack (.mul .binary64 x.toModel.unpack y.toModel.unpack) := rfl
  rw [isNaN_of_unpack_eq_repack hmul, Unpacked.mul_eq_notANumber_iff, isNaN_iff, isNaN_iff]
  rfl

theorem isNaN_div (x y : Number) :
    (x / y).isNaN = true ↔ x.isNaN = true ∨ y.isNaN = true ∨
      (Infinite x ∧ Infinite y) ∨ (x.value = 0 ∧ y.value = 0) := by
  have hdiv : (x / y).toModel.unpack =
      Unpacked.repack (.div .binary64 x.toModel.unpack y.toModel.unpack) := rfl
  rw [isNaN_of_unpack_eq_repack hdiv, Unpacked.div_eq_notANumber_iff, isNaN_iff, isNaN_iff]
  rfl

theorem isNaN_sub (x y : Number) :
    (x - y).isNaN = true ↔ x.isNaN = true ∨ y.isNaN = true ∨
      (x.value = ⊤ ∧ y.value = ⊤) ∨ (x.value = ⊥ ∧ y.value = ⊥) := by
  rw [sub_eq_add_neg, isNaN_add, isNaN_neg, value_neg, EReal.neg_eq_bot_iff, EReal.neg_eq_top_iff]

/-- Whether a number is finite is told by its value, for what is a number. -/
theorem isFinite_iff (x : Number) : x.isFinite = true ↔ x.isNaN = false ∧ ¬ Infinite x := by
  have hfinite : x.isFinite = x.toModel.unpack.isFinite := rfl
  have hnan : x.isNaN = x.toModel.unpack.isNaN := rfl
  rw [hfinite, hnan]
  unfold Infinite value
  cases x.toModel.unpack <;> simp [UnpackedFloat.isFinite, UnpackedFloat.isNaN]

theorem isFinite_eq_false_iff (x : Number) :
    x.isFinite = false ↔ x.isNaN = true ∨ Infinite x := by
  rw [← Bool.not_eq_true, isFinite_iff, not_and_or, Bool.not_eq_false, not_not]

theorem unpack_infinity : infinity.toModel.unpack = .infinity .positive := by rfl

theorem unpack_largest :
    largest.toModel.unpack = .finite .positive (2 ^ 53 - 1) 971 (by decide) := by rfl

theorem unpack_zero : (0.0 : Number).toModel.unpack = .zero .positive := by rfl

@[simp]
theorem value_infinity : infinity.value = ⊤ := by
  rw [value, unpack_infinity]
  rfl

@[simp]
theorem isNaN_infinity : infinity.isNaN = false := rfl

@[simp]
theorem value_zero : (0.0 : Number).value = 0 := by
  rw [value, unpack_zero]
  rfl

@[simp]
theorem isNaN_zero : (0.0 : Number).isNaN = false := rfl

@[simp]
theorem isNaN_largest : largest.isNaN = false := rfl

theorem value_largest_lt : largest.value < ⊤ := by
  rw [value, unpack_largest, Unpacked.valueOf_finite]
  exact EReal.coe_lt_top _

theorem value_largest : largest.value = (((2 ^ 53 - 1) * 2 ^ (971 : ℤ) : ℝ) : EReal) := by
  rw [value, unpack_largest]
  change ((((2 ^ 53 - 1 : ℕ) : ℝ) * 2 ^ (971 : ℤ) : ℝ) : EReal) = _
  congr 3
  norm_num

/-- A number below infinity is at most the largest finite one. -/
theorem value_le_largest {x : Number} (h : x.value ≠ ⊤) : x.value ≤ largest.value := by
  have hlargest : (0 : ℝ) ≤ (2 ^ 53 - 1) * 2 ^ (971 : ℤ) := by norm_num
  have hpack := x.packable
  rw [value_largest]
  unfold value at h ⊢
  generalize x.toModel.unpack = u at h hpack ⊢
  cases u with
  | notANumber => exact EReal.coe_nonneg.2 hlargest
  | zero s => exact EReal.coe_nonneg.2 hlargest
  | infinity s =>
    cases s with
    | negative => exact bot_le
    | positive => exact absurd rfl h
  | finite s m e pos =>
    have hm : (m : ℝ) ≤ 2 ^ 53 - 1 := by
      have hlt : m + 1 ≤ 2 ^ 53 := hpack.1.lt
      have hcast : (m : ℝ) + 1 ≤ 2 ^ 53 := by exact_mod_cast hlt
      linarith
    have he : (2 : ℝ) ^ e ≤ 2 ^ (971 : ℤ) := zpow_le_zpow_right₀ (by norm_num) hpack.2
    have hunits : (m * 2 ^ e : ℝ) ≤ (2 ^ 53 - 1) * 2 ^ (971 : ℤ) :=
      mul_le_mul hm he (by positivity) (by norm_num)
    cases s with
    | positive => exact EReal.coe_le_coe_iff.2 hunits
    | negative =>
      have hneg : -(m * 2 ^ e : ℝ) ≤ (2 ^ 53 - 1) * 2 ^ (971 : ℤ) :=
        (neg_nonpos.2 (by positivity)).trans hlargest
      exact EReal.coe_le_coe_iff.2 hneg

/-- A number above minus infinity is at least the least finite one. -/
theorem value_neg_largest_le {x : Number} (h : x.value ≠ ⊥) : (-largest).value ≤ x.value := by
  have hneg : (-x).value ≤ largest.value := value_le_largest (by
    rw [value_neg, Ne, EReal.neg_eq_top_iff]
    exact h)
  rw [value_neg] at hneg ⊢
  exact EReal.neg_le_of_neg_le hneg

theorem beq_infinity_iff (x : Number) :
    (x == infinity) = true ↔ x.isNaN = false ∧ x.value = ⊤ := by
  rw [beq_iff, value_infinity, isNaN_infinity]
  simp only [and_true]

@[simp]
theorem value_neg_infinity : (-infinity).value = ⊥ := by
  rw [value_neg, value_infinity, EReal.neg_top]

@[simp]
theorem isNaN_neg_infinity : (-infinity).isNaN = false := by
  rw [isNaN_neg, isNaN_infinity]

theorem beq_neg_infinity_iff (x : Number) :
    (x == -infinity) = true ↔ x.isNaN = false ∧ x.value = ⊥ := by
  rw [beq_iff, value_neg_infinity, isNaN_neg_infinity]
  simp only [and_true]

/-- A finite number is neither infinity. -/
theorem not_beq_infinity {x : Number} (h : x.isFinite = true) :
    ¬ (x == infinity) = true ∧ ¬ (x == -infinity) = true := by
  have hinfinite := ((isFinite_iff x).1 h).2
  rw [beq_infinity_iff, beq_neg_infinity_iff]
  exact ⟨fun heq => hinfinite (.inl heq.2), fun heq => hinfinite (.inr heq.2)⟩

theorem isNaN_neg_largest : (-largest).isNaN = false := by
  rw [isNaN_neg, isNaN_largest]

theorem bot_lt_value_neg_largest : ⊥ < (-largest).value := by
  rw [value_neg, bot_lt_iff_ne_bot, Ne, EReal.neg_eq_bot_iff]
  exact value_largest_lt.ne

theorem isZero_iff (x : Number) : x.isZero = true ↔ x.isNaN = false ∧ x.value = 0 := by
  unfold isZero
  rw [beq_iff, value_zero, isNaN_zero]
  simp only [and_true]

end Number

end RangeRules
