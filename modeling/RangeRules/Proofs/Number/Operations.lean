import RangeRules.Proofs.Number.Packed

/-!
# Operations on unpacked numbers

Each of the four operations gives the exact result rounded once, unless its result is not a number,
and comparison is the order of what the numbers stand for. Infinities take part as the two ends of
the extended reals, where zero times infinity is zero; the operations make that no number.
-/
namespace RangeRules

open Float.Model (UnpackedFloat Format)
open Float.Model.UnpackedFloat
open Rounding

namespace Unpacked

theorem rounded_signed (s : Sign) {x : ℝ} (h : 0 ≤ x) :
    rounded (signed s (x : EReal)) = signed s (magnitude x) := by
  cases s
  · exact rounded_neg_of_nonneg h
  · exact rounded_of_nonneg h

/-- A number is not changed by rounding it again. -/
theorem Packable.rounded_valueOf {u : UnpackedFloat} (h : Packable u) :
    rounded (valueOf u) = valueOf u := by
  cases u with
  | infinity s => cases s <;> rfl
  | notANumber => exact rounded_zero
  | zero s => exact rounded_zero
  | finite s m e pos =>
    have hx : (0 : ℝ) ≤ m * 2 ^ e := by positivity
    have hcarries : Carries (.finite s m e pos) s (m * 2 ^ e) := .finite s pos h.1
    have hvalue := hcarries.valueOf_repack
    rw [repack_of_packable h] at hvalue
    calc rounded (valueOf (.finite s m e pos)) = signed s (magnitude (m * 2 ^ e)) :=
          rounded_signed s hx
      _ = signed s (bounded (m * 2 ^ e)) := by
          rw [magnitude, nearest_eq_self h.1.lt h.1.le]
      _ = valueOf (.finite s m e pos) := hvalue.symm

theorem valueOf_repack_normalize (n e : ℤ) (z : Sign) :
    valueOf (repack (UnpackedFloat.normalize .binary64 n e z)) =
      rounded (((n : ℝ) * 2 ^ e : ℝ) : EReal) := by
  have hpow : (0 : ℝ) < 2 ^ e := by positivity
  unfold UnpackedFloat.normalize
  rcases lt_trichotomy n 0 with hn | rfl | hn
  · rw [compare_lt_iff_lt.2 hn]
    obtain ⟨k, rfl⟩ : ∃ k : ℕ, n = -k := ⟨(-n).toNat, by omega⟩
    have hk : 0 < k := by omega
    have hx : (0 : ℝ) ≤ k * 2 ^ e := by positivity
    dsimp only
    rw [neg_neg, Int.toNat_natCast, (carries_round .negative e hk).valueOf_repack]
    push_cast
    rw [neg_mul]
    exact (rounded_neg_of_nonneg hx).symm
  · simp [valueOf]
  · rw [compare_gt_iff_gt.2 hn]
    obtain ⟨k, rfl⟩ : ∃ k : ℕ, n = k := ⟨n.toNat, by omega⟩
    have hk : 0 < k := by omega
    have hx : (0 : ℝ) ≤ k * 2 ^ e := by positivity
    dsimp only
    rw [Int.toNat_natCast, (carries_round .positive e hk).valueOf_repack]
    exact (rounded_of_nonneg hx).symm


/-- A signed mantissa as a multiple of a power of two. -/
theorem signed_coe (s : Sign) (m : ℕ) (e : ℤ) :
    signed s ((m * 2 ^ e : ℝ) : EReal) = (((s.apply m : ℤ) : ℝ) * 2 ^ e : ℝ) := by
  cases s <;> simp [signed, Sign.apply]

theorem cast_decreaseExponent (m : ℕ) {e p : ℤ} (h : p ≤ e) :
    ((decreaseExponent m e p).1 : ℝ) * 2 ^ p = m * 2 ^ e := by
  have hk : e - ((e - p).toNat : ℤ) = p := by omega
  have := cast_shiftLeft m (e - p).toNat e
  rwa [hk] at this

theorem valueOf_repack_add_finite (s t : Sign) {m n : ℕ} {e p : ℤ} (hm : 0 < m) (hn : 0 < n) :
    valueOf (repack (UnpackedFloat.add .binary64 (.finite s m e hm) (.finite t n p hn))) =
      rounded (valueOf (.finite s m e hm) + valueOf (.finite t n p hn)) := by
  have heq : UnpackedFloat.add .binary64 (.finite s m e hm) (.finite t n p hn) =
      UnpackedFloat.normalize .binary64
        (s.apply (decreaseExponent m e (min e p)).1 + t.apply (decreaseExponent n p (min e p)).1)
        (min e p) .positive := rfl
  rw [heq, valueOf_repack_normalize]
  congr 1
  change _ = signed s ((m * 2 ^ e : ℝ) : EReal) + signed t ((n * 2 ^ p : ℝ) : EReal)
  rw [← cast_decreaseExponent m (min_le_left e p), ← cast_decreaseExponent n (min_le_right e p),
    signed_coe, signed_coe, ← EReal.coe_add]
  rw [Int.cast_add, add_mul]


@[simp]
theorem signed_zero (s : Sign) : signed s 0 = 0 := by
  cases s <;> simp [signed]

theorem rounded_signed_top (s : Sign) : rounded (signed s ⊤) = signed s ⊤ := by
  cases s <;> rfl

theorem signed_mul (s t : Sign) (x y : EReal) :
    signed s x * signed t y = signed (s * t) (x * y) := by
  cases s <;> cases t
  · exact neg_mul_neg x y
  · exact neg_mul x y
  · exact mul_neg x y
  · rfl

theorem signed_inv (s : Sign) (x : EReal) : (signed s x)⁻¹ = signed s x⁻¹ := by
  cases s
  · exact EReal.inv_neg x
  · rfl

theorem signed_div (s t : Sign) (x y : EReal) :
    signed s x / signed t y = signed (s / t) (x / y) := by
  have hsign : s / t = s * t := by cases s <;> cases t <;> rfl
  rw [EReal.div_eq_inv_mul, EReal.div_eq_inv_mul, mul_comm, signed_inv, signed_mul, hsign,
    mul_comm y⁻¹]

theorem signed_top_add_coe (s : Sign) (x : ℝ) : signed s ⊤ + x = signed s ⊤ := by
  cases s
  · exact EReal.bot_add x
  · exact EReal.top_add_coe x

theorem valueOf_finite (s : Sign) {m : ℕ} {e : ℤ} (hm : 0 < m) :
    valueOf (.finite s m e hm) = (((s.apply m : ℤ) : ℝ) * 2 ^ e : ℝ) :=
  signed_coe s m e

/-- A sum is the exact one rounded, unless it is the sum of two opposite infinities. -/
theorem valueOf_repack_add {a b : UnpackedFloat} (ha : Packable a) (hb : Packable b)
    (h : UnpackedFloat.add .binary64 a b ≠ .notANumber) :
    valueOf (repack (UnpackedFloat.add .binary64 a b)) = rounded (valueOf a + valueOf b) := by
  cases a with
  | notANumber => exact absurd rfl h
  | infinity s =>
    cases b with
    | notANumber => exact absurd rfl h
    | infinity t => cases s <;> cases t <;> first | exact absurd rfl h | rfl
    | zero t =>
      change valueOf (repack (.infinity s)) = rounded (signed s ⊤ + 0)
      rw [repack_infinity, add_zero, rounded_signed_top]
      rfl
    | finite t n p hn =>
      change valueOf (repack (.infinity s)) = rounded (signed s ⊤ + _)
      rw [repack_infinity, valueOf_finite, signed_top_add_coe, rounded_signed_top]
      rfl
  | zero s =>
    have hzero : ∀ t, valueOf (repack (.zero t)) = rounded (0 + 0) := fun t => by
      simp [valueOf]
    cases b with
    | notANumber => exact absurd rfl h
    | infinity t =>
      change valueOf (repack (.infinity t)) = rounded (0 + signed t ⊤)
      rw [repack_infinity, zero_add, rounded_signed_top]
      rfl
    | zero t => cases s <;> cases t <;> exact hzero _
    | finite t n p hn =>
      change valueOf (repack (.finite t n p hn)) = rounded (0 + valueOf (.finite t n p hn))
      rw [repack_of_packable hb, zero_add, hb.rounded_valueOf]
  | finite s m e hm =>
    cases b with
    | notANumber => exact absurd rfl h
    | infinity t =>
      change valueOf (repack (.infinity t)) = rounded (_ + signed t ⊤)
      rw [repack_infinity, valueOf_finite, add_comm, signed_top_add_coe, rounded_signed_top]
      rfl
    | zero t =>
      change valueOf (repack (.finite s m e hm)) = rounded (valueOf (.finite s m e hm) + 0)
      rw [repack_of_packable ha, add_zero, ha.rounded_valueOf]
    | finite t n p hn => exact valueOf_repack_add_finite s t hm hn

/-- A mantissa of 53 digits has the place of its exponent, a shorter one the least place. -/
theorem le_target_mul {m n : ℕ} {e p : ℤ} (hm : 0 < m) (hn : 0 < n) (hc : Canonical m e)
    (hd : Canonical n p) : e + p ≤ target (m * n) (e + p) := by
  rw [target_eq]
  by_cases hfull : 2 ^ 52 ≤ m * n
  · have := (Nat.le_log2 (Nat.mul_pos hm hn).ne').2 hfull
    omega
  · have hm' : e = -1074 := hc.full.resolve_left fun hle =>
      hfull (hle.trans (Nat.le_mul_of_pos_right m hn))
    have hn' : p = -1074 := hd.full.resolve_left fun hle =>
      hfull (hle.trans (Nat.le_mul_of_pos_left n hm))
    omega

theorem valueOf_repack_mul_finite (s t : Sign) {m n : ℕ} {e p : ℤ} (hm : 0 < m) (hn : 0 < n)
    (hc : Canonical m e) (hd : Canonical n p) :
    valueOf (repack (UnpackedFloat.mul .binary64 (.finite s m e hm) (.finite t n p hn))) =
      rounded (valueOf (.finite s m e hm) * valueOf (.finite t n p hn)) := by
  have heq : UnpackedFloat.mul .binary64 (.finite s m e hm) (.finite t n p hn) =
      roundWithAccuracy .binary64 (s * t) (m * n) (e + p) .exact := rfl
  have hpos : 0 < m * n := Nat.mul_pos hm hn
  have hexact : Approximates (m * n) .exact ((m * n : ℕ) : ℝ) := rfl
  have hvalue : ((m * n : ℕ) : ℝ) * 2 ^ (e + p) = m * 2 ^ e * (n * 2 ^ p) := by
    rw [zpow_add₀ (by norm_num)]
    push_cast
    ring
  have hcarries := carries_roundWithAccuracy hexact (s * t) (e + p) (by exact_mod_cast hpos)
    (.inl hpos.ne') (le_target_mul hm hn hc hd)
  rw [hvalue] at hcarries
  rw [heq, hcarries.valueOf_repack]
  change _ = rounded (signed s ((m * 2 ^ e : ℝ) : EReal) * signed t ((n * 2 ^ p : ℝ) : EReal))
  rw [signed_mul, ← EReal.coe_mul, rounded_signed _ (by positivity)]
  rfl

theorem top_mul_magnitude {m : ℕ} (hm : 0 < m) (e : ℤ) :
    (⊤ : EReal) * ((m * 2 ^ e : ℝ) : EReal) = ⊤ := by
  refine EReal.top_mul_coe_of_pos ?_
  have : (0 : ℝ) < m := by exact_mod_cast hm
  positivity

/-- A product is the exact one rounded, unless a factor is zero and the other infinite. -/
theorem valueOf_repack_mul {a b : UnpackedFloat} (ha : Packable a) (hb : Packable b)
    (h : UnpackedFloat.mul .binary64 a b ≠ .notANumber) :
    valueOf (repack (UnpackedFloat.mul .binary64 a b)) = rounded (valueOf a * valueOf b) := by
  cases a with
  | notANumber => exact absurd rfl h
  | infinity s =>
    cases b with
    | notANumber => exact absurd rfl h
    | infinity t =>
      change valueOf (repack (.infinity (s * t))) = rounded (signed s ⊤ * signed t ⊤)
      rw [repack_infinity, signed_mul, EReal.top_mul_top, rounded_signed_top]
      rfl
    | zero t => exact absurd rfl h
    | finite t n p hn =>
      change valueOf (repack (.infinity (s * t))) = rounded (signed s ⊤ * signed t _)
      rw [repack_infinity, signed_mul, top_mul_magnitude hn, rounded_signed_top]
      rfl
  | zero s =>
    cases b with
    | notANumber => exact absurd rfl h
    | infinity t => exact absurd rfl h
    | zero t =>
      change valueOf (repack (.zero (s * t))) = rounded (0 * 0)
      simp [valueOf]
    | finite t n p hn =>
      change valueOf (repack (.zero (s * t))) = rounded (0 * _)
      simp [valueOf]
  | finite s m e hm =>
    cases b with
    | notANumber => exact absurd rfl h
    | infinity t =>
      change valueOf (repack (.infinity (s * t))) = rounded (signed s _ * signed t ⊤)
      rw [repack_infinity, signed_mul, mul_comm _ ⊤, top_mul_magnitude hm, rounded_signed_top]
      rfl
    | zero t =>
      change valueOf (repack (.zero (s * t))) = rounded (_ * 0)
      simp [valueOf]
    | finite t n p hn => exact valueOf_repack_mul_finite s t hm hn ha.1 hb.1

/-- A fraction below one is as accurate as its numerator, doubled, compares with its denominator. -/
theorem approximates_fraction (q : ℕ) {r n : ℕ} (hn : 0 < n) (hlt : r < n) :
    Approximates q (accuracyOfFraction r n) (q + (r : ℝ) / n) := by
  have hn' : (0 : ℝ) < n := by exact_mod_cast hn
  have hlt' : (r : ℝ) / n < 1 := (div_lt_one hn').2 (by exact_mod_cast hlt)
  unfold accuracyOfFraction
  split
  · next hr => simp [Approximates, hr]
  · next hr =>
    have hr' : (0 : ℝ) < r := by exact_mod_cast Nat.pos_of_ne_zero hr
    have hpos : 0 < (r : ℝ) / n := div_pos hr' hn'
    have htwice : 2 * (r : ℝ) / n = r / n + r / n := by rw [mul_div_assoc, two_mul]
    rcases lt_trichotomy (2 * r) n with hcmp | hcmp | hcmp
    · have hsmall : 2 * (r : ℝ) / n < 1 := (div_lt_one hn').2 (by exact_mod_cast hcmp)
      rw [compare_lt_iff_lt.2 hcmp]
      exact ⟨by linarith, by linarith⟩
    · have hhalf : 2 * (r : ℝ) / n = 1 := (div_eq_one_iff_eq hn'.ne').2 (by exact_mod_cast hcmp)
      rw [compare_eq_iff_eq.2 hcmp]
      change (q : ℝ) + r / n + (q + r / n) = q + q + 1
      linarith
    · have hlarge : 1 < 2 * (r : ℝ) / n := (one_lt_div hn').2 (by exact_mod_cast hcmp)
      rw [compare_gt_iff_gt.2 hcmp]
      exact ⟨by linarith, by linarith⟩

theorem approximates_div (m : ℕ) {n : ℕ} (hn : 0 < n) :
    Approximates (m / n) (accuracyOfFraction (m % n) n) ((m : ℝ) / n) := by
  have hn' : (n : ℝ) ≠ 0 := by exact_mod_cast hn.ne'
  have hdiv : (m : ℝ) = (m / n : ℕ) * n + (m % n : ℕ) := by
    have := Nat.div_add_mod' m n
    exact_mod_cast this.symm
  have hquotient : (m : ℝ) / n = (m / n : ℕ) + (m % n : ℕ) / (n : ℝ) := by
    rw [div_eq_iff hn', add_mul, div_mul_cancel₀ _ hn']
    exact hdiv
  rw [hquotient]
  exact approximates_fraction (m / n) hn (Nat.mod_lt m hn)

/-- The exponent of a quotient of mantissas before it is rounded. -/
def quotientExponent (m : ℕ) (e : ℤ) (n : ℕ) (p : ℤ) : ℤ :=
  min (e - p) (max (m.log2 + e - (n.log2 + p) - 53) (-1074))

theorem divCore_eq (m : ℕ) (e : ℤ) (n : ℕ) (p : ℤ) :
    divCore .binary64 m e n p =
      let q := quotientExponent m e n p
      let k := (e - p - q).toNat
      ((m <<< k) / n, q, accuracyOfFraction ((m <<< k) % n) n) := by
  have hexponent : min (e - p)
      (Format.binary64.targetExponent
        (Float.Model.totalExponent m e - Float.Model.totalExponent n p)) =
      quotientExponent m e n p := by
    have hbits : (Format.binary64.mantissaBits : ℤ) = 53 := rfl
    have hmin : Format.binary64.minExponent = -1074 := rfl
    unfold quotientExponent Format.targetExponent Float.Model.totalExponent
    rw [hbits, hmin]
    congr 2
    omega
  unfold divCore
  rw [hexponent]

/-- Above the least place the mantissa of a quotient fills 53 digits. -/
theorem le_quotient {m n : ℕ} {e p : ℤ} (hm : 0 < m) (hn : 0 < n)
    (hq : -1074 < quotientExponent m e n p) :
    2 ^ 52 ≤ (m <<< (e - p - quotientExponent m e n p).toNat) / n := by
  set k := (e - p - quotientExponent m e n p).toNat with hk
  have hdigits : 52 + (n.log2 + 1) ≤ m.log2 + k := by
    unfold quotientExponent at hq hk
    omega
  rw [Nat.le_div_iff_mul_le hn, Nat.shiftLeft_eq]
  calc 2 ^ 52 * n ≤ 2 ^ 52 * 2 ^ (n.log2 + 1) := Nat.mul_le_mul_left _ Nat.lt_log2_self.le
    _ = 2 ^ (52 + (n.log2 + 1)) := (pow_add ..).symm
    _ ≤ 2 ^ (m.log2 + k) := Nat.pow_le_pow_right (by norm_num) hdigits
    _ = 2 ^ m.log2 * 2 ^ k := pow_add ..
    _ ≤ m * 2 ^ k := Nat.mul_le_mul_right _ (Nat.log2_self_le hm.ne')

theorem valueOf_repack_div_finite (s t : Sign) {m n : ℕ} {e p : ℤ} (hm : 0 < m) (hn : 0 < n) :
    valueOf (repack (UnpackedFloat.div .binary64 (.finite s m e hm) (.finite t n p hn))) =
      rounded (valueOf (.finite s m e hm) / valueOf (.finite t n p hn)) := by
  set q := quotientExponent m e n p with hq
  set k := (e - p - q).toNat with hk
  have hle : q ≤ e - p := min_le_left ..
  have heq : UnpackedFloat.div .binary64 (.finite s m e hm) (.finite t n p hn) =
      roundWithAccuracy .binary64 (s / t) ((m <<< k) / n) q
        (accuracyOfFraction ((m <<< k) % n) n) := by
    change roundWithAccuracy .binary64 (s / t) (divCore .binary64 m e n p).1
      (divCore .binary64 m e n p).2.1 (divCore .binary64 m e n p).2.2 = _
    rw [divCore_eq]
  have hn' : (0 : ℝ) < n := by exact_mod_cast hn
  have hm' : (0 : ℝ) < m := by exact_mod_cast hm
  have hpos : 0 < ((m <<< k : ℕ) : ℝ) / n := by
    rw [Nat.shiftLeft_eq]
    push_cast
    positivity
  have hvalue : ((m <<< k : ℕ) : ℝ) / n * 2 ^ q = m * 2 ^ e / (n * 2 ^ p) := by
    have hshift := cast_shiftLeft m k (e - p)
    have hexponent : e - p - (k : ℤ) = q := by omega
    rw [hexponent, zpow_sub₀ (by norm_num)] at hshift
    rw [div_mul_eq_mul_div, hshift]
    field_simp
  have hzero : (m <<< k) / n ≠ 0 ∨ q ≤ -1074 := by
    rcases lt_or_ge (-1074) q with hlt | hge
    · have hfull : 2 ^ 52 ≤ (m <<< k) / n := le_quotient hm hn hlt
      exact .inl (by omega)
    · exact .inr hge
  have htarget : q ≤ target ((m <<< k) / n) q := by
    rw [target_eq]
    rcases lt_or_ge (-1074) q with hlt | hge
    · have hfull : 2 ^ 52 ≤ (m <<< k) / n := le_quotient hm hn hlt
      have := (Nat.le_log2 (by omega)).2 hfull
      omega
    · omega
  have hcarries := carries_roundWithAccuracy (approximates_div (m <<< k) hn) (s / t) q hpos
    hzero htarget
  rw [hvalue] at hcarries
  rw [heq, hcarries.valueOf_repack]
  change _ = rounded (signed s ((m * 2 ^ e : ℝ) : EReal) / signed t ((n * 2 ^ p : ℝ) : EReal))
  rw [signed_div, ← EReal.coe_div, rounded_signed _ (by positivity)]
  rfl

theorem div_top_signed (s t : Sign) (x : EReal) : signed s x / signed t ⊤ = 0 := by
  rw [signed_div, EReal.div_top, signed_zero]

theorem top_div_magnitude {m : ℕ} (hm : 0 < m) (e : ℤ) :
    (⊤ : EReal) / ((m * 2 ^ e : ℝ) : EReal) = ⊤ := by
  have : (0 : ℝ) < m := by exact_mod_cast hm
  exact EReal.top_div_of_pos_ne_top (by exact_mod_cast (by positivity : (0 : ℝ) < m * 2 ^ e))
    (EReal.coe_ne_top _)

/-- A quotient by what is not zero is the exact one rounded, unless both are infinite. -/
theorem valueOf_repack_div {a b : UnpackedFloat} (hb : valueOf b ≠ 0)
    (h : UnpackedFloat.div .binary64 a b ≠ .notANumber) :
    valueOf (repack (UnpackedFloat.div .binary64 a b)) = rounded (valueOf a / valueOf b) := by
  cases b with
  | notANumber => exact absurd rfl hb
  | zero t => exact absurd rfl hb
  | infinity t =>
    cases a with
    | notANumber => exact absurd rfl h
    | infinity s => exact absurd rfl h
    | zero s =>
      change valueOf (repack (.zero (s / t))) = rounded (0 / signed t ⊤)
      simp [valueOf]
    | finite s m e hm =>
      change valueOf (repack (.zero (s / t))) = rounded (signed s _ / signed t ⊤)
      rw [div_top_signed, rounded_zero, repack_zero]
      rfl
  | finite t n p hn =>
    cases a with
    | notANumber => exact absurd rfl h
    | infinity s =>
      change valueOf (repack (.infinity (s / t))) = rounded (signed s ⊤ / signed t _)
      rw [repack_infinity, signed_div, top_div_magnitude hn, rounded_signed_top]
      rfl
    | zero s =>
      change valueOf (repack (.zero (s / t))) = rounded (0 / _)
      simp [valueOf]
    | finite s m e hm => exact valueOf_repack_div_finite s t hm hn

/-- A difference is the sum with the negated second operand. -/
theorem sub_eq_add_neg (a b : UnpackedFloat) :
    UnpackedFloat.sub .binary64 a b = UnpackedFloat.add .binary64 a b.neg := by
  cases a with
  | notANumber => rfl
  | infinity s =>
    cases b with
    | infinity t => cases s <;> cases t <;> rfl
    | _ => rfl
  | zero s =>
    cases b with
    | zero t => cases s <;> cases t <;> rfl
    | _ => rfl
  | finite s m e hm =>
    cases b with
    | finite t n p hn =>
      cases t
      · change UnpackedFloat.normalize .binary64 (_ - -_) _ _ =
          UnpackedFloat.normalize .binary64 (_ + _) _ _
        rw [sub_neg_eq_add]
        rfl
      · rfl
    | _ => rfl

theorem magnitude_pos {m : ℕ} (hm : 0 < m) (e : ℤ) : (0 : EReal) < ((m * 2 ^ e : ℝ) : EReal) := by
  have : (0 : ℝ) < m := by exact_mod_cast hm
  exact_mod_cast (by positivity : (0 : ℝ) < m * 2 ^ e)

theorem settle_ne_notANumber (s : Sign) (n : ℕ) (p : ℤ) : settle s n p ≠ .notANumber := by
  unfold settle
  split <;> exact fun h => UnpackedFloat.noConfusion h

theorem normalize_ne_notANumber (n e : ℤ) (z : Sign) :
    UnpackedFloat.normalize .binary64 n e z ≠ .notANumber := by
  unfold UnpackedFloat.normalize
  split
  · exact settle_ne_notANumber .negative _ _
  · exact fun h => UnpackedFloat.noConfusion h
  · exact settle_ne_notANumber .positive _ _

/-- An infinite number of either sign. -/
def Infinite (x : EReal) : Prop := x = ⊤ ∨ x = ⊥

@[simp]
theorem infinite_signed_top (s : Sign) : Infinite (signed s ⊤) := by
  cases s
  · exact .inr rfl
  · exact .inl rfl

@[simp]
theorem not_infinite_coe (x : ℝ) : ¬ Infinite x := by
  simp [Infinite]

@[simp]
theorem not_infinite_zero : ¬ Infinite 0 := not_infinite_coe 0

@[simp]
theorem valueOf_finite_ne_top (s : Sign) {m : ℕ} {e : ℤ} (hm : 0 < m) :
    valueOf (.finite s m e hm) ≠ ⊤ := by
  rw [valueOf_finite]
  exact EReal.coe_ne_top _

@[simp]
theorem valueOf_finite_ne_bot (s : Sign) {m : ℕ} {e : ℤ} (hm : 0 < m) :
    valueOf (.finite s m e hm) ≠ ⊥ := by
  rw [valueOf_finite]
  exact EReal.coe_ne_bot _

@[simp]
theorem valueOf_finite_ne_zero (s : Sign) {m : ℕ} {e : ℤ} (hm : 0 < m) :
    valueOf (.finite s m e hm) ≠ 0 := by
  have hpos : (0 : EReal) < ((m * 2 ^ e : ℝ) : EReal) := magnitude_pos hm e
  cases s
  · change -((m * 2 ^ e : ℝ) : EReal) ≠ 0
    rw [Ne, EReal.neg_eq_zero_iff]
    exact hpos.ne'
  · exact hpos.ne'

@[simp]
theorem infinite_valueOf_infinity (s : Sign) : Infinite (valueOf (.infinity s)) :=
  infinite_signed_top s

@[simp]
theorem not_infinite_valueOf_finite (s : Sign) {m : ℕ} {e : ℤ} (hm : 0 < m) :
    ¬ Infinite (valueOf (.finite s m e hm)) := by
  simp [Infinite]

theorem Infinite.ne_zero {x : EReal} (h : Infinite x) : x ≠ 0 := by
  rcases h with rfl | rfl
  · exact EReal.top_ne_zero
  · exact EReal.bot_ne_zero

@[simp]
theorem valueOf_infinity_ne_zero (s : Sign) : valueOf (.infinity s) ≠ 0 :=
  (infinite_valueOf_infinity s).ne_zero

@[simp]
theorem valueOf_zero (s : Sign) : valueOf (.zero s) = 0 := rfl

/-- A sum is not a number only if a summand is not, or both are infinite and opposite. -/
theorem add_eq_notANumber_iff (a b : UnpackedFloat) :
    UnpackedFloat.add .binary64 a b = .notANumber ↔ a = .notANumber ∨ b = .notANumber ∨
      (valueOf a = ⊤ ∧ valueOf b = ⊥) ∨ (valueOf a = ⊥ ∧ valueOf b = ⊤) := by
  cases a with
  | notANumber => simp [UnpackedFloat.add]
  | infinity s =>
    cases b with
    | notANumber => simp [UnpackedFloat.add]
    | infinity t => cases s <;> cases t <;> simp [UnpackedFloat.add, valueOf, signed]
    | zero t => simp [UnpackedFloat.add]
    | finite t n p hn => simp [UnpackedFloat.add]
  | zero s =>
    cases b with
    | notANumber => simp [UnpackedFloat.add]
    | infinity t => simp [UnpackedFloat.add]
    | zero t =>
      have hzero : UnpackedFloat.add .binary64 (.zero s) (.zero t) ≠ .notANumber := by
        cases s <;> cases t <;> exact fun h => UnpackedFloat.noConfusion h
      simp [hzero]
    | finite t n p hn => simp [UnpackedFloat.add]
  | finite s m e hm =>
    cases b with
    | finite t n p hn => simp [UnpackedFloat.add, normalize_ne_notANumber]
    | _ => simp [UnpackedFloat.add]

/-- A product is not a number only if a factor is not, or one is zero and the other infinite. -/
theorem mul_eq_notANumber_iff (a b : UnpackedFloat) :
    UnpackedFloat.mul .binary64 a b = .notANumber ↔ a = .notANumber ∨ b = .notANumber ∨
      (Infinite (valueOf a) ∧ valueOf b = 0) ∨ (valueOf a = 0 ∧ Infinite (valueOf b)) := by
  cases a with
  | notANumber => simp [UnpackedFloat.mul]
  | infinity s => cases b <;> simp [UnpackedFloat.mul]
  | zero s => cases b <;> simp [UnpackedFloat.mul]
  | finite s m e hm =>
    cases b with
    | finite t n p hn => simp [UnpackedFloat.mul, roundWithAccuracy_eq, settle_ne_notANumber]
    | _ => simp [UnpackedFloat.mul]

/-- A quotient is not a number only if a part is not, both are infinite or both are zero. -/
theorem div_eq_notANumber_iff (a b : UnpackedFloat) :
    UnpackedFloat.div .binary64 a b = .notANumber ↔ a = .notANumber ∨ b = .notANumber ∨
      (Infinite (valueOf a) ∧ Infinite (valueOf b)) ∨ (valueOf a = 0 ∧ valueOf b = 0) := by
  cases a with
  | notANumber => simp [UnpackedFloat.div]
  | infinity s => cases b <;> simp [UnpackedFloat.div]
  | zero s => cases b <;> simp [UnpackedFloat.div]
  | finite s m e hm =>
    cases b with
    | finite t n p hn => simp [UnpackedFloat.div, roundWithAccuracy_eq, settle_ne_notANumber]
    | _ => simp [UnpackedFloat.div]

theorem Packable.neg {u : UnpackedFloat} (h : Packable u) : Packable u.neg := by
  cases u <;> exact h

theorem signed_neg (s : Sign) (x : EReal) : signed (-s) x = -signed s x := by
  cases s
  · exact (neg_neg x).symm
  · rfl

theorem valueOf_neg (u : UnpackedFloat) : valueOf u.neg = -valueOf u := by
  cases u with
  | notANumber => exact neg_zero.symm
  | zero s => exact neg_zero.symm
  | infinity s => exact signed_neg s ⊤
  | finite s m e hm => exact signed_neg s _

/-- Of two canonical forms the one of greater exponent is the greater. -/
theorem Canonical.lt_of_exponent_lt {m n : ℕ} {e p : ℤ} (hm : Canonical m e) (hn : Canonical n p)
    (h : e < p) : (m : ℝ) * 2 ^ e < n * 2 ^ p := by
  have hfull : 2 ^ 52 ≤ n := hn.full.resolve_right (by have := hm.le; omega)
  have hpow : (0 : ℝ) < 2 ^ e := by positivity
  calc (m : ℝ) * 2 ^ e < 2 ^ (53 : ℤ) * 2 ^ e :=
        mul_lt_mul_of_pos_right (by exact_mod_cast hm.lt) hpow
    _ = 2 ^ (e + 53) := by rw [← zpow_add₀ (by norm_num), add_comm]
    _ ≤ 2 ^ (p + 52) := zpow_le_zpow_right₀ (by norm_num) (by omega)
    _ = 2 ^ (52 : ℤ) * 2 ^ p := by rw [← zpow_add₀ (by norm_num), add_comm]
    _ ≤ n * 2 ^ p := mul_le_mul_of_nonneg_right (by exact_mod_cast hfull) (by positivity)

/-- Canonical forms are ordered by exponent first and mantissa second. -/
theorem compare_canonical {m n : ℕ} {e p : ℤ} (hm : Canonical m e) (hn : Canonical n p) :
    (compare e p).then (compare m n) =
      cmp ((m * 2 ^ e : ℝ) : EReal) ((n * 2 ^ p : ℝ) : EReal) := by
  rw [EReal.coe_strictMono.cmp_map_eq]
  rcases lt_trichotomy e p with h | rfl | h
  · rw [compare_lt_iff_lt.2 h, (cmp_eq_lt_iff _ _).2 (hm.lt_of_exponent_lt hn h)]
    rfl
  · have hpow : (0 : ℝ) < 2 ^ e := by positivity
    have hmono : StrictMono fun k : ℕ => (k : ℝ) * 2 ^ e := fun a b hab =>
      mul_lt_mul_of_pos_right (by exact_mod_cast hab) hpow
    rw [compare_eq_iff_eq.2 rfl, hmono.cmp_map_eq m n, cmp_eq_compare]
    rfl
  · rw [compare_gt_iff_gt.2 h, (cmp_eq_gt_iff _ _).2 (hn.lt_of_exponent_lt hm h)]
    rfl

theorem cmp_neg (x y : EReal) : cmp (-x) (-y) = (cmp x y).swap := by
  rw [EReal.neg_strictAnti.cmp_map_eq, cmp_swap]

/-- The comparison of two numbers is that of what they stand for. -/
theorem compare_eq_cmp {a b : UnpackedFloat} (ha : Packable a) (hb : Packable b)
    (ha' : a ≠ .notANumber) (hb' : b ≠ .notANumber) :
    a.compare b = some (cmp (valueOf a) (valueOf b)) := by
  have hlt : ∀ {x y : EReal}, x < y → some Ordering.lt = some (cmp x y) := fun h => by
    rw [(cmp_eq_lt_iff _ _).2 h]
  have hgt : ∀ {x y : EReal}, y < x → some Ordering.gt = some (cmp x y) := fun h => by
    rw [(cmp_eq_gt_iff _ _).2 h]
  have heq : ∀ {x : EReal}, some Ordering.eq = some (cmp x x) := by simp
  have hnonneg : ∀ {m : ℕ} (hm : 0 < m) (e : ℤ), -((m * 2 ^ e : ℝ) : EReal) < 0 := fun hm e => by
    simpa using EReal.neg_lt_neg_iff.2 (magnitude_pos hm e)
  cases a with
  | notANumber => exact absurd rfl ha'
  | infinity s =>
    cases b with
    | notANumber => exact absurd rfl hb'
    | infinity t =>
      cases s <;> cases t
      · exact heq
      · exact hlt bot_lt_top
      · exact hgt bot_lt_top
      · exact heq
    | zero t =>
      cases s
      · exact hlt EReal.bot_lt_zero
      · exact hgt EReal.zero_lt_top
    | finite t n p hn =>
      rw [valueOf_finite]
      cases s
      · exact hlt (EReal.bot_lt_coe _)
      · exact hgt (EReal.coe_lt_top _)
  | zero s =>
    cases b with
    | notANumber => exact absurd rfl hb'
    | infinity t =>
      cases t
      · exact hgt EReal.bot_lt_zero
      · exact hlt EReal.zero_lt_top
    | zero t => exact heq
    | finite t n p hn =>
      cases t
      · exact hgt (hnonneg hn p)
      · exact hlt (magnitude_pos hn p)
  | finite s m e hm =>
    cases b with
    | notANumber => exact absurd rfl hb'
    | infinity t =>
      rw [valueOf_finite]
      cases t
      · exact hgt (EReal.bot_lt_coe _)
      · exact hlt (EReal.coe_lt_top _)
    | zero t =>
      cases s
      · exact hlt (hnonneg hm e)
      · exact hgt (magnitude_pos hm e)
    | finite t n p hn =>
      cases s <;> cases t
      · change some ((compare e p).then (compare m n)).swap = some (cmp (-_) (-_))
        rw [compare_canonical ha.1 hb.1, cmp_neg]
      · exact hlt ((hnonneg hm e).trans (magnitude_pos hn p))
      · exact hgt ((hnonneg hn p).trans (magnitude_pos hm e))
      · exact congrArg some (compare_canonical ha.1 hb.1)

end Unpacked

end RangeRules
