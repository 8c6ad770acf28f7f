import RangeRules.Proofs.Number.Rounding

/-!
# Rounding in the model of numbers

The model that the language gives of its binary64 numbers computes on a sign, a mantissa and an
exponent, and keeps two bits of what it cuts off. This module shows that these computations round
the exact result as `Rounding.rounded` does: first for a mantissa that is cut, then for the rounding
functions, then for the four operations on numbers in canonical form. Packing into bits comes after.
-/
namespace RangeRules

open Float.Model (UnpackedFloat Format totalExponent)
open Float.Model.UnpackedFloat
open Rounding

namespace Unpacked

/--
A natural number is the whole part of a real, and an accuracy tells how the rest compares with a
half.
-/
def Approximates (m : ℕ) (accuracy : Accuracy) (x : ℝ) : Prop :=
  match accuracy with
  | .exact => x = m
  | .inexact .lt => m < x ∧ x + x < m + m + 1
  | .inexact .eq => x + x = m + m + 1
  | .inexact .gt => m + m + 1 < x + x ∧ x < m + 1

theorem Approximates.le {m : ℕ} {accuracy : Accuracy} {x : ℝ} (h : Approximates m accuracy x) :
    m ≤ x := by
  rcases accuracy with _ | o
  · exact h.ge
  · cases o <;> simp only [Approximates] at h <;> linarith

theorem Approximates.lt {m : ℕ} {accuracy : Accuracy} {x : ℝ} (h : Approximates m accuracy x) :
    x < m + 1 := by
  rcases accuracy with _ | o
  · simp only [Approximates] at h
    linarith
  · cases o <;> simp only [Approximates] at h <;> linarith

theorem Approximates.floor_eq {m : ℕ} {accuracy : Accuracy} {x : ℝ}
    (h : Approximates m accuracy x) : ⌊x⌋₊ = m :=
  (Nat.floor_eq_iff ((Nat.cast_nonneg m).trans h.le)).2 ⟨h.le, h.lt⟩

/-- The kept bits decide the rounding to the nearest natural number. -/
theorem Approximates.roundToNearestEven {m : ℕ} {accuracy : Accuracy} {x : ℝ}
    (h : Approximates m accuracy x) : accuracy.roundToNearestEven m = nearestNat x := by
  have hfloor := h.floor_eq
  unfold nearestNat
  rw [hfloor]
  rcases accuracy with _ | o
  · simp only [Approximates] at h
    simp [Accuracy.roundToNearestEven, h]
  · cases o <;> simp only [Approximates] at h
    · have hlt : x < m + 1 / 2 := by linarith
      simp only [Accuracy.roundToNearestEven, if_pos hlt]
    · have heq : x = m + 1 / 2 := by linarith
      simp only [Accuracy.roundToNearestEven, if_neg heq.not_lt, if_pos heq]
    · have hgt : m + 1 / 2 < x := by linarith
      simp only [Accuracy.roundToNearestEven, if_neg hgt.not_gt, if_neg hgt.ne']

/-- The real that an extended mantissa may stand for. -/
def Extends (em : ExtendedMantissa) (x : ℝ) : Prop := Approximates em.mantissa em.accuracy x

theorem extends_ofMantissaAndAccuracy {m : ℕ} {accuracy : Accuracy} {x : ℝ}
    (h : Approximates m accuracy x) :
    Extends (.ofMantissaAndAccuracy m accuracy) x := by
  rcases accuracy with _ | o
  · exact h
  · cases o <;> exact h

theorem Extends.shiftRightOne {em : ExtendedMantissa} {x : ℝ} (h : Extends em x) :
    Extends em.shiftRightOne (x / 2) := by
  obtain ⟨m, r, s⟩ := em
  obtain ⟨k, hk⟩ : ∃ k, m = 2 * k ∨ m = 2 * k + 1 := ⟨m / 2, by omega⟩
  have hhalf : m / 2 = k := by omega
  rcases hk with rfl | rfl <;> cases r <;> cases s <;>
    simp only [Extends, ExtendedMantissa.shiftRightOne, ExtendedMantissa.accuracy, Approximates,
      hhalf] at h ⊢ <;>
    simp at h ⊢ <;> (try constructor) <;> linarith

theorem Extends.shiftRight {em : ExtendedMantissa} {x : ℝ} (h : Extends em x) (n : ℕ) :
    Extends (em >>> n) (x / 2 ^ n) := by
  change Extends (n.repeat ExtendedMantissa.shiftRightOne em) (x / 2 ^ n)
  induction n with
  | zero => simpa [Nat.repeat] using h
  | succ n ih =>
    rw [pow_succ, ← div_div]
    exact ih.shiftRightOne

theorem Extends.roundedMantissa {em : ExtendedMantissa} {x : ℝ} (h : Extends em x) :
    em.roundedMantissa = nearestNat x :=
  Approximates.roundToNearestEven h

/-- The exponent that the format wants of a mantissa. -/
def target (m : ℕ) (e : ℤ) : ℤ := Format.binary64.targetExponent (totalExponent m e)

theorem target_eq (m : ℕ) (e : ℤ) : target m e = max (m.log2 + e - 52) (-1074) := by
  have hbits : (Format.binary64.mantissaBits : ℤ) = 53 := rfl
  have hmin : Format.binary64.minExponent = -1074 := rfl
  unfold target Format.targetExponent totalExponent
  rw [hbits, hmin]
  congr 1
  omega

/-- The target is the place of what is rounded, unless that is below all places. -/
theorem target_eq_place {m : ℕ} {accuracy : Accuracy} {x : ℝ} (h : Approximates m accuracy x)
    (e : ℤ) (hx : 0 < x) (hm : m ≠ 0 ∨ e ≤ -1074) : target m e = place (x * 2 ^ e) := by
  rw [target_eq]
  unfold place
  have hpow : (0 : ℝ) < 2 ^ e := by positivity
  have hpos : 0 < x * 2 ^ e := mul_pos hx hpow
  rcases Nat.eq_zero_or_pos m with rfl | hpos'
  · have hlog : Int.log 2 (x * 2 ^ e) < e := by
      rw [← Int.lt_zpow_iff_log_lt (by norm_num) hpos]
      have : x < 1 := by simpa using h.lt
      simpa using mul_lt_of_lt_one_left hpow this
    have he : e ≤ -1074 := hm.resolve_left (by simp)
    have hzero : ((Nat.log2 0 : ℕ) : ℤ) = 0 := rfl
    omega
  · have hlow : (2 : ℝ) ^ (m.log2 : ℤ) ≤ x := by
      have : 2 ^ m.log2 ≤ m := Nat.log2_self_le hpos'.ne'
      calc (2 : ℝ) ^ (m.log2 : ℤ) = ((2 ^ m.log2 : ℕ) : ℝ) := by norm_cast
        _ ≤ m := by exact_mod_cast this
        _ ≤ x := h.le
    have hhigh : x < (2 : ℝ) ^ ((m.log2 : ℤ) + 1) := by
      have : m + 1 ≤ 2 ^ (m.log2 + 1) := Nat.lt_log2_self
      calc x < m + 1 := h.lt
        _ ≤ ((2 ^ (m.log2 + 1) : ℕ) : ℝ) := by exact_mod_cast this
        _ = (2 : ℝ) ^ ((m.log2 : ℤ) + 1) := by norm_cast
    have hle : (m.log2 : ℤ) + e ≤ Int.log 2 (x * 2 ^ e) := by
      rw [← Int.zpow_le_iff_le_log (by norm_num) hpos]
      push_cast
      rw [zpow_add₀ (by norm_num)]
      exact mul_le_mul_of_nonneg_right hlow hpow.le
    have hlt : Int.log 2 (x * 2 ^ e) < (m.log2 : ℤ) + 1 + e := by
      rw [← Int.lt_zpow_iff_log_lt (by norm_num) hpos]
      push_cast
      rw [zpow_add₀ (by norm_num)]
      exact mul_lt_mul_of_pos_right hhigh hpow
    omega

/-- A mantissa and an exponent as the format has them, except that the exponent may be too large. -/
structure Canonical (m : ℕ) (e : ℤ) : Prop where
  lt : m < 2 ^ 53
  le : -1074 ≤ e
  full : 2 ^ 52 ≤ m ∨ e = -1074

/-- A zero or a finite number in canonical form, of the given sign and magnitude. -/
inductive Carries : UnpackedFloat → Sign → ℝ → Prop where
  | zero (s : Sign) : Carries (.zero s) s 0
  | finite {m : ℕ} {e : ℤ} (s : Sign) (pos : 0 < m) (canonical : Canonical m e) :
    Carries (.finite s m e pos) s (m * 2 ^ e)

/-- A mantissa within 53 digits at a place that is not too low is not shifted. -/
theorem target_le {m : ℕ} {e : ℤ} (hm : m < 2 ^ 53) (he : -1074 ≤ e) : target m e ≤ e := by
  rw [target_eq]
  have : m.log2 ≤ 52 := by
    rcases Nat.eq_zero_or_pos m with rfl | hpos
    · simp
    · have := (Nat.log2_lt hpos.ne').2 hm
      omega
  omega

/-- The last step of rounding: a mantissa that grew to 54 digits gives one up again. -/
def settle (s : Sign) (n : ℕ) (p : ℤ) : UnpackedFloat :=
  if h : (ExtendedMantissa.ofMantissaAndAccuracy n .exact >>> (target n p - p).toNat).mantissa = 0
  then .zero s
  else .finite s _ (p + (target n p - p).toNat) (Nat.pos_of_ne_zero h)

theorem roundWithAccuracy_eq (s : Sign) (m : ℕ) (e : ℤ) (accuracy : Accuracy) :
    roundWithAccuracy .binary64 s m e accuracy =
      settle s
        (ExtendedMantissa.ofMantissaAndAccuracy m accuracy >>>
          (target m e - e).toNat).roundedMantissa
        (e + (target m e - e).toNat) :=
  rfl

theorem carries_settle {n : ℕ} {p : ℤ} (s : Sign) (hle : n ≤ 2 ^ 53) (hmin : -1074 ≤ p)
    (hfull : 2 ^ 52 ≤ n ∨ p = -1074) : Carries (settle s n p) s (n * 2 ^ p) := by
  unfold settle
  rcases hle.eq_or_lt with rfl | hlt
  · have hnext : (target (2 ^ 53) p - p).toNat = 1 := by
      rw [target_eq]
      have : (2 ^ 53).log2 = 53 := Nat.log2_two_pow
      omega
    have hmantissa : (ExtendedMantissa.ofMantissaAndAccuracy (2 ^ 53) .exact >>> 1).mantissa =
        2 ^ 52 := rfl
    have hvalue : ((2 ^ 53 : ℕ) : ℝ) * 2 ^ p = ((2 ^ 52 : ℕ) : ℝ) * 2 ^ (p + (1 : ℕ)) := by
      rw [zpow_add₀ (by norm_num)]
      push_cast
      ring
    simp only [hnext, hmantissa, hvalue]
    rw [dif_neg (by norm_num)]
    exact .finite s _ ⟨by norm_num, by omega, .inl le_rfl⟩
  · have hnext : (target n p - p).toNat = 0 := by
      have := target_le hlt hmin
      omega
    have hmantissa : (ExtendedMantissa.ofMantissaAndAccuracy n .exact >>> 0).mantissa = n := rfl
    simp only [hnext, hmantissa]
    split
    · next hn =>
      subst hn
      simpa using Carries.zero s
    · simpa using Carries.finite s _ ⟨hlt, hmin, hfull⟩

/-- Cutting and rounding a mantissa at the place of its target. -/
theorem carries_roundWithAccuracy {m : ℕ} {accuracy : Accuracy} {x : ℝ}
    (h : Approximates m accuracy x) (s : Sign) (e : ℤ) (hx : 0 < x)
    (hm : m ≠ 0 ∨ e ≤ -1074) (he : e ≤ target m e) :
    Carries (roundWithAccuracy .binary64 s m e accuracy) s (nearest (x * 2 ^ e)) := by
  have hpos : 0 < x * 2 ^ e := by positivity
  have hplace : target m e = place (x * 2 ^ e) := target_eq_place h e hx hm
  obtain ⟨k, hk⟩ := Int.eq_ofNat_of_zero_le (Int.sub_nonneg.2 he)
  have hshift : (target m e - e).toNat = k := by omega
  have hexponent : e + (k : ℤ) = place (x * 2 ^ e) := by omega
  have hscaled : x / 2 ^ k = x * 2 ^ e / 2 ^ place (x * 2 ^ e) := by
    rw [← hexponent, zpow_add₀ (by norm_num), zpow_natCast]
    field_simp
  have hround : (ExtendedMantissa.ofMantissaAndAccuracy m accuracy >>> k).roundedMantissa =
      nearestNat (x * 2 ^ e / 2 ^ place (x * 2 ^ e)) := by
    rw [((extends_ofMantissaAndAccuracy h).shiftRight k).roundedMantissa, hscaled]
  rw [roundWithAccuracy_eq, hshift, hround, hexponent]
  refine carries_settle s (nearestNat_scaled_le _) (neg_1074_le_place _) ?_
  rcases (neg_1074_le_place (x * 2 ^ e)).eq_or_lt with heq | hlt
  · exact .inr heq.symm
  · exact .inl (le_nearestNat_scaled hpos hlt)

theorem log2_shiftLeft {m : ℕ} (hm : 0 < m) (k : ℕ) : (m <<< k).log2 = m.log2 + k := by
  have hlow : 2 ^ m.log2 ≤ m := Nat.log2_self_le hm.ne'
  have hhigh : m < 2 ^ (m.log2 + 1) := Nat.lt_log2_self
  rw [Nat.shiftLeft_eq, Nat.log2_eq_iff (by positivity)]
  constructor
  · rw [pow_add]
    exact Nat.mul_le_mul_right _ hlow
  · rw [show m.log2 + k + 1 = m.log2 + 1 + k by omega, pow_add _ _ k]
    exact Nat.mul_lt_mul_of_pos_right hhigh (by positivity)

theorem cast_shiftLeft (m k : ℕ) (e : ℤ) :
    ((m <<< k : ℕ) : ℝ) * 2 ^ (e - (k : ℤ)) = m * 2 ^ e := by
  rw [Nat.shiftLeft_eq, zpow_sub₀ (by norm_num), zpow_natCast]
  push_cast
  field_simp

theorem carries_round (s : Sign) {m : ℕ} (e : ℤ) (hm : 0 < m) :
    Carries (Float.Model.UnpackedFloat.round .binary64 s m e) s (nearest (m * 2 ^ e)) := by
  set k := (e - target m e).toNat with hk
  have heq : Float.Model.UnpackedFloat.round .binary64 s m e =
      roundWithAccuracy .binary64 s (m <<< k) (e - k) .exact := rfl
  have hpos : 0 < m <<< k := by
    rw [Nat.shiftLeft_eq]
    positivity
  have htarget : target (m <<< k) (e - k) = target m e := by
    rw [target_eq, target_eq, log2_shiftLeft hm]
    congr 1
    omega
  rw [heq, ← cast_shiftLeft m k]
  have hexact : Approximates (m <<< k) .exact ((m <<< k : ℕ) : ℝ) := rfl
  exact carries_roundWithAccuracy hexact s _ (by exact_mod_cast hpos) (.inl hpos.ne') (by omega)

end Unpacked

end RangeRules
