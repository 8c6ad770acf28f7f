import Mathlib

/-!
# Rounding to nearest

What rounding does to an exact real result, without any encoding of numbers. A real is scaled by the
place of its last kept digit, rounded to the nearest natural number with ties to the even one, and
scaled back; from `2 ^ 1024` on it is infinite. The module proves that rounding keeps order and
leaves alone what already has the form of a number; it says nothing about how close a rounded value
is.
-/
namespace RangeRules

namespace Rounding

/-- The natural number nearest to a nonnegative real, the even one of two that are equally near. -/
noncomputable def nearestNat (x : ℝ) : ℕ :=
  if x < ⌊x⌋₊ + 1 / 2 then ⌊x⌋₊
  else if x = ⌊x⌋₊ + 1 / 2 then ⌊x⌋₊ + ⌊x⌋₊ % 2
  else ⌊x⌋₊ + 1

theorem floor_le_nearestNat (x : ℝ) : ⌊x⌋₊ ≤ nearestNat x := by
  unfold nearestNat
  split
  · exact le_refl _
  · split <;> omega

theorem nearestNat_le_floor_succ (x : ℝ) : nearestNat x ≤ ⌊x⌋₊ + 1 := by
  unfold nearestNat
  split
  · omega
  · split <;> omega

@[simp]
theorem nearestNat_natCast (n : ℕ) : nearestNat n = n := by
  simp [nearestNat]

theorem nearestNat_mono {x y : ℝ} (h : x ≤ y) : nearestNat x ≤ nearestNat y := by
  rcases Nat.lt_or_ge ⌊x⌋₊ ⌊y⌋₊ with hlt | hge
  · calc nearestNat x ≤ ⌊x⌋₊ + 1 := nearestNat_le_floor_succ x
      _ ≤ ⌊y⌋₊ := hlt
      _ ≤ nearestNat y := floor_le_nearestNat y
  · have heq : ⌊x⌋₊ = ⌊y⌋₊ := le_antisymm (Nat.floor_mono h) hge
    unfold nearestNat
    rw [heq]
    split_ifs with hx hy hy' hx' hy hy' hy hy'
    all_goals first | omega | exfalso
    · linarith
    · linarith
    · exact hx' (le_antisymm (hy' ▸ h) (not_lt.1 hx))

/-- So many units of the given place. -/
noncomputable abbrev units (m : ℕ) (e : ℤ) : ℝ := m * 2 ^ e

/-- The exponent of the last digit that a number of the given magnitude keeps. -/
noncomputable def place (x : ℝ) : ℤ := max (Int.log 2 x - 52) (-1074)

theorem neg_1074_le_place (x : ℝ) : -1074 ≤ place x := le_max_right ..

theorem place_mono {x y : ℝ} (hx : 0 < x) (h : x ≤ y) : place x ≤ place y :=
  max_le_max (Int.sub_le_sub_right (Int.log_mono_right hx h) 52) le_rfl

/-- The magnitude of a real rounded to nearest, however large. -/
noncomputable def nearest (x : ℝ) : ℝ := units (nearestNat (x / 2 ^ place x)) (place x)

@[simp]
theorem nearest_zero : nearest 0 = 0 := by
  have : nearestNat 0 = 0 := by simpa using nearestNat_natCast 0
  simp [nearest, this]

theorem nearest_nonneg (x : ℝ) : 0 ≤ nearest x := by
  unfold nearest
  positivity

/-- A magnitude takes at most 53 digits from its last kept one. -/
theorem lt_two_zpow_place (x : ℝ) : x < 2 ^ (place x + 53) := by
  have hlog : x < (2 : ℝ) ^ (Int.log 2 x + 1) := by
    simpa using Int.lt_zpow_succ_log_self (by norm_num : 1 < 2) x
  have hplace : Int.log 2 x + 1 ≤ place x + 53 := by
    have : Int.log 2 x - 52 ≤ place x := le_max_left ..
    omega
  exact hlog.trans_le (zpow_le_zpow_right₀ (by norm_num) hplace)

/-- Above the least place all 53 digits are taken. -/
theorem two_zpow_place_le {x : ℝ} (hx : 0 < x) (h : -1074 < place x) :
    (2 : ℝ) ^ (place x + 52) ≤ x := by
  have hplace : place x + 52 = Int.log 2 x := by
    have : place x = max (Int.log 2 x - 52) (-1074) := rfl
    omega
  rw [hplace]
  simpa using Int.zpow_log_le_self (by norm_num : 1 < 2) hx

theorem scaled_lt (x : ℝ) : x / 2 ^ place x < (2 ^ 53 : ℕ) := by
  rw [div_lt_iff₀ (by positivity)]
  have := lt_two_zpow_place x
  rw [zpow_add₀ (by norm_num)] at this
  push_cast
  have h53 : ((2 : ℝ) ^ (53 : ℤ)) = 2 ^ 53 := by norm_cast
  linarith

theorem le_scaled {x : ℝ} (hx : 0 < x) (h : -1074 < place x) :
    ((2 ^ 52 : ℕ) : ℝ) ≤ x / 2 ^ place x := by
  rw [le_div_iff₀ (by positivity)]
  have := two_zpow_place_le hx h
  rw [zpow_add₀ (by norm_num)] at this
  push_cast
  have h52 : ((2 : ℝ) ^ (52 : ℤ)) = 2 ^ 52 := by norm_cast
  linarith

theorem nearestNat_scaled_le (x : ℝ) : nearestNat (x / 2 ^ place x) ≤ 2 ^ 53 := by
  have := nearestNat_mono (scaled_lt x).le
  rwa [nearestNat_natCast] at this

theorem le_nearestNat_scaled {x : ℝ} (hx : 0 < x) (h : -1074 < place x) :
    2 ^ 52 ≤ nearestNat (x / 2 ^ place x) := by
  have := nearestNat_mono (le_scaled hx h)
  rwa [nearestNat_natCast] at this

theorem nearest_le_two_zpow (x : ℝ) : nearest x ≤ 2 ^ (place x + 53) := by
  have hle : ((nearestNat (x / 2 ^ place x) : ℕ) : ℝ) ≤ ((2 ^ 53 : ℕ) : ℝ) := by
    exact_mod_cast nearestNat_scaled_le x
  have h53 : ((2 ^ 53 : ℕ) : ℝ) = 2 ^ (53 : ℤ) := by norm_cast
  calc nearest x ≤ 2 ^ (53 : ℤ) * 2 ^ place x :=
        mul_le_mul_of_nonneg_right (h53 ▸ hle) (by positivity)
    _ = 2 ^ (place x + 53) := by rw [← zpow_add₀ (by norm_num), add_comm]

theorem two_zpow_le_nearest {x : ℝ} (hx : 0 < x) (h : -1074 < place x) :
    (2 : ℝ) ^ (place x + 52) ≤ nearest x := by
  have hle : ((2 ^ 52 : ℕ) : ℝ) ≤ ((nearestNat (x / 2 ^ place x) : ℕ) : ℝ) := by
    exact_mod_cast le_nearestNat_scaled hx h
  have h52 : ((2 ^ 52 : ℕ) : ℝ) = 2 ^ (52 : ℤ) := by norm_cast
  calc (2 : ℝ) ^ (place x + 52) = 2 ^ (52 : ℤ) * 2 ^ place x := by
        rw [← zpow_add₀ (by norm_num), add_comm]
    _ ≤ nearest x := mul_le_mul_of_nonneg_right (h52 ▸ hle) (by positivity)

/-- Of two magnitudes with different places a power of two stands between the rounded ones. -/
theorem nearest_mono {x y : ℝ} (hx : 0 ≤ x) (h : x ≤ y) : nearest x ≤ nearest y := by
  rcases hx.eq_or_lt with rfl | hx
  · rw [nearest_zero]
    exact nearest_nonneg y
  have hy : 0 < y := hx.trans_le h
  rcases (place_mono hx h).eq_or_lt with heq | hlt
  · unfold nearest
    rw [heq]
    have hdiv : x / 2 ^ place y ≤ y / 2 ^ place y :=
      div_le_div_of_nonneg_right h (by positivity)
    have hnat := nearestNat_mono hdiv
    exact mul_le_mul_of_nonneg_right (by exact_mod_cast hnat) (by positivity)
  · have hy' : -1074 < place y := (neg_1074_le_place x).trans_lt hlt
    calc nearest x ≤ 2 ^ (place x + 53) := nearest_le_two_zpow x
      _ ≤ 2 ^ (place y + 52) := zpow_le_zpow_right₀ (by norm_num) (by omega)
      _ ≤ nearest y := two_zpow_le_nearest hy hy'

/-- What has at most 53 digits, none below the least place, is left alone. -/
theorem nearest_eq_self {m : ℕ} {e : ℤ} (hm : m < 2 ^ 53) (he : -1074 ≤ e) :
    nearest (m * 2 ^ e) = m * 2 ^ e := by
  rcases Nat.eq_zero_or_pos m with rfl | hpos
  · simp
  have hpow : (0 : ℝ) < 2 ^ e := by positivity
  have hx : (0 : ℝ) < m * 2 ^ e := mul_pos (by exact_mod_cast hpos) hpow
  have hlog : Int.log 2 ((m : ℝ) * 2 ^ e) < e + 53 := by
    rw [← Int.lt_zpow_iff_log_lt (by norm_num) hx, zpow_add₀ (by norm_num), mul_comm]
    refine mul_lt_mul_of_pos_left ?_ (by exact_mod_cast hpow)
    have : ((m : ℕ) : ℝ) < ((2 ^ 53 : ℕ) : ℝ) := by exact_mod_cast hm
    exact_mod_cast this
  have hplace : place (m * 2 ^ e) ≤ e := by
    have : place (m * 2 ^ e) = max (Int.log 2 ((m : ℝ) * 2 ^ e) - 52) (-1074) := rfl
    omega
  obtain ⟨k, hk⟩ := Int.eq_ofNat_of_zero_le (Int.sub_nonneg.2 hplace)
  have hscaled : (m : ℝ) * 2 ^ e / 2 ^ place (m * 2 ^ e) = ((m * 2 ^ k : ℕ) : ℝ) := by
    rw [mul_div_assoc, ← zpow_sub₀ (by norm_num), hk]
    simp
  unfold nearest
  rw [hscaled, nearestNat_natCast, units, ← hscaled, div_mul_cancel₀ _ (by positivity)]

/-- A magnitude as a number has it: infinite from `2 ^ 1024` on. -/
noncomputable def bounded (x : ℝ) : EReal := if x < 2 ^ (1024 : ℤ) then x else ⊤

theorem bounded_mono {x y : ℝ} (h : x ≤ y) : bounded x ≤ bounded y := by
  unfold bounded
  split_ifs with hx hy hy
  · exact EReal.coe_le_coe_iff.2 h
  · exact le_top
  · exact absurd (h.trans_lt hy) hx
  · exact le_rfl

theorem bounded_nonneg {x : ℝ} (h : 0 ≤ x) : 0 ≤ bounded x := by
  unfold bounded
  split_ifs
  · exact_mod_cast h
  · exact le_top

/-- The magnitude of a real that is rounded to a number. -/
noncomputable def magnitude (x : ℝ) : EReal := bounded (nearest x)

theorem magnitude_nonneg (x : ℝ) : 0 ≤ magnitude x := bounded_nonneg (nearest_nonneg x)

theorem magnitude_mono {x y : ℝ} (hx : 0 ≤ x) (h : x ≤ y) : magnitude x ≤ magnitude y :=
  bounded_mono (nearest_mono hx h)

@[simp]
theorem magnitude_zero : magnitude 0 = 0 := by
  simp [magnitude, bounded]

/-- What an operation makes of its exact result. -/
noncomputable def rounded : EReal → EReal
  | ⊥ => ⊥
  | ⊤ => ⊤
  | (x : ℝ) => if x < 0 then -magnitude (-x) else magnitude x

@[simp]
theorem rounded_top : rounded ⊤ = ⊤ := rfl

@[simp]
theorem rounded_bot : rounded ⊥ = ⊥ := rfl

theorem rounded_coe (x : ℝ) :
    rounded x = if x < 0 then -magnitude (-x) else magnitude x := rfl

theorem rounded_of_nonneg {x : ℝ} (h : 0 ≤ x) : rounded x = magnitude x := by
  rw [rounded_coe, if_neg (not_lt.2 h)]

@[simp]
theorem rounded_zero : rounded 0 = 0 := by
  rw [← EReal.coe_zero, rounded_of_nonneg le_rfl, magnitude_zero, EReal.coe_zero]

theorem rounded_neg_of_nonneg {x : ℝ} (h : 0 ≤ x) : rounded ((-x : ℝ) : EReal) = -magnitude x := by
  rcases h.eq_or_lt with rfl | h
  · rw [neg_zero, rounded_of_nonneg le_rfl, magnitude_zero, neg_zero]
  · rw [rounded_coe, if_pos (neg_lt_zero.2 h), neg_neg]

theorem rounded_coe_mono {x y : ℝ} (h : x ≤ y) : rounded x ≤ rounded y := by
  rw [rounded_coe, rounded_coe]
  split_ifs with hx hy hy
  · exact EReal.neg_le_neg_iff.2 (magnitude_mono (by linarith) (by linarith))
  · calc -magnitude (-x) ≤ 0 := by simpa using magnitude_nonneg (-x)
      _ ≤ magnitude y := magnitude_nonneg y
  · exact absurd (h.trans_lt hy) hx
  · exact magnitude_mono (not_lt.1 hx) h

theorem rounded_mono : Monotone rounded := by
  intro x y h
  induction x with
  | bot => exact bot_le
  | top => rw [top_le_iff.1 h]
  | coe x =>
    induction y with
    | bot => exact absurd h (by simp)
    | top => exact le_top
    | coe y => exact rounded_coe_mono (EReal.coe_le_coe_iff.1 h)

end Rounding

end RangeRules
