import RangeRules.Proofs.Number.Unpacked

/-!
# Packing into bits

What the bits of a number stand for. Unpacking gives canonical forms only, packing a canonical form
and unpacking it again gives it back, and a form that is too large for the format comes back as an
infinity. Nothing here depends on how a form was computed.
-/
namespace RangeRules

open Float.Model (UnpackedFloat Format)
open Float.Model.UnpackedFloat
open Rounding

namespace Unpacked

/-- An extended real with a sign put before it. -/
noncomputable def signed (s : Sign) (x : EReal) : EReal :=
  match s with
  | .positive => x
  | .negative => -x

/-- What an unpacked number stands for; one that is not a number counts as zero. -/
noncomputable def valueOf : UnpackedFloat → EReal
  | .infinity s => signed s ⊤
  | .notANumber | .zero _ => 0
  | .finite s m e _ => signed s (units m e : EReal)

/-- Infinite, zero, not a number, or finite in the canonical form of the format. -/
def Packable : UnpackedFloat → Prop
  | .finite _ m e _ => Canonical m e ∧ e ≤ 971
  | _ => True

theorem toNat_implicit (m : BitVec 52) : (1#1 ++ m).toNat = 2 ^ 52 + m.toNat := by
  rw [BitVec.toNat_append, ← Nat.shiftLeft_add_eq_or_of_lt m.isLt]
  rfl

theorem ofNat_ne {w k : ℕ} {b : BitVec w} (hk : k < 2 ^ w) (hne : k ≠ b.toNat) :
    BitVec.ofNat w k ≠ b := by
  intro h
  rw [← h, BitVec.toNat_ofNat, Nat.mod_eq_of_lt hk] at hne
  exact hne rfl

theorem unpackSign_packComponents (s : Sign) (e : BitVec 11) (m : BitVec 52) :
    Sign.ofBitVec (unpackSign (packComponents .binary64 s e m)) = s := by
  have : unpackSign (packComponents .binary64 s e m) = s.toBitVec := by
    ext i hi
    have hi0 : i = 0 := by omega
    subst hi0
    simp [unpackSign, packComponents]
    rw [BitVec.getLsbD_append, BitVec.getLsbD_append]
    simp [BitVec.getLsbD_eq_getElem]
  rw [this]
  cases s <;> rfl

theorem packable_unpack (x : Float.Model) : Packable x.unpack := by
  unfold Float.Model.unpack Float.Model.UnpackedFloat.unpack
  generalize x.toBits.toBitVec = b
  have hm : (@unpackMantissa .binary64 b).toNat < 2 ^ 52 := (@unpackMantissa .binary64 b).isLt
  have he : (@unpackExponent .binary64 b).toNat < 2 ^ 11 := (@unpackExponent .binary64 b).isLt
  have hbias : ((Format.binary64.exponentBias : ℤ) + (52 : ℕ)) = 1075 := rfl
  dsimp only
  split_ifs with h1 h2 h3 h4
  · trivial
  · trivial
  · trivial
  · have h0 : (@unpackExponent .binary64 b).toNat = 0 := by
      rw [h3]
      rfl
    simp only [Packable, hbias, h0]
    exact ⟨⟨by omega, by omega, .inr (by omega)⟩, by omega⟩
  · have h0 : (@unpackExponent .binary64 b).toNat ≠ 0 := fun h =>
      h3 (BitVec.toNat_inj.1 h)
    have hmax : (@unpackExponent .binary64 b).toNat ≠ 2047 := fun h =>
      h1 (BitVec.toNat_inj.1 h)
    simp only [Packable, hbias, toNat_implicit]
    exact ⟨⟨by omega, by omega, .inl (by omega)⟩, by omega⟩

/-- What packing an unpacked number and unpacking it again gives. -/
def repack (u : UnpackedFloat) : UnpackedFloat := (Float.Model.pack u).unpack

theorem unpack_packComponents (s : Sign) (e : BitVec 11) (m : BitVec 52) :
    Float.Model.UnpackedFloat.unpack .binary64 (packComponents .binary64 s e m) =
      if e = -1#_ then (if m = 0#_ then .infinity s else .notANumber)
      else if e = 0#_ then
        if h : m = 0#_ then .zero s
        else .finite s m.toNat (-1074) (by simpa [BitVec.toNat_pos, BitVec.pos_iff_ne_zero])
      else .finite s (1#1 ++ m).toNat (e.toNat - 1075) (by rw [toNat_implicit]; omega) := by
  unfold Float.Model.UnpackedFloat.unpack
  have hbias : ((Format.binary64.exponentBias : ℤ) + (52 : ℕ)) = 1075 := rfl
  simp only [unpackSign_packComponents, unpackMantissa_packComponents,
    unpackExponent_packComponents]
  split_ifs with h1 h2 h3 h4
  · rfl
  · rfl
  · rfl
  · subst h3
    rfl
  · rfl

@[simp]
theorem repack_infinity (s : Sign) : repack (.infinity s) = .infinity s := by cases s <;> rfl

@[simp]
theorem repack_notANumber : repack .notANumber = .notANumber := rfl

@[simp]
theorem repack_zero (s : Sign) : repack (.zero s) = .zero s := by cases s <;> rfl

theorem pack_finite (s : Sign) {m : ℕ} {e : ℤ} (h : 0 < m) :
    Float.Model.UnpackedFloat.pack .binary64 (.finite s m e h) =
      if 2 ^ 11 ≤ (e + 1075).toNat + 1 then packedInfinity .binary64 s
      else if m.log2 + 1 = 53 then
        packComponents .binary64 s (BitVec.ofNat _ (e + 1075).toNat) (BitVec.ofNat _ m)
      else packComponents .binary64 s 0#_ (BitVec.ofNat _ m) := by
  have hbias : e + (Format.binary64.exponentBias : ℤ) + (52 : ℕ) = e + 1075 := by
    have : (Format.binary64.exponentBias : ℤ) = 1023 := rfl
    omega
  rw [← hbias]
  rfl

theorem repack_finite_of_large {s : Sign} {m : ℕ} {e : ℤ} (h : 0 < m) (he : 972 ≤ e) :
    repack (.finite s m e h) = .infinity s := by
  have hpack : Float.Model.pack (.finite s m e h) = Float.Model.pack (.infinity s) := by
    unfold Float.Model.pack
    congr 2
    rw [pack_finite, if_pos (by omega)]
    rfl
  unfold repack
  rw [hpack]
  exact repack_infinity s

/-- No finite form, canonical or not, is packed as what is not a number. -/
theorem repack_finite_ne_notANumber (s : Sign) {m : ℕ} {e : ℤ} (h : 0 < m) :
    repack (.finite s m e h) ≠ .notANumber := by
  rcases le_or_gt 972 e with he | he
  · rw [repack_finite_of_large h he]
    exact fun hne => UnpackedFloat.noConfusion hne
  · change Float.Model.UnpackedFloat.unpack .binary64
      (Float.Model.UnpackedFloat.pack .binary64 (.finite s m e h)) ≠ _
    have hexponent : BitVec.ofNat 11 (e + 1075).toNat ≠ -1#11 :=
      ofNat_ne (by omega) (by change _ ≠ 2047; omega)
    rw [pack_finite, if_neg (by omega)]
    split
    · rw [unpack_packComponents, if_neg hexponent]
      split_ifs <;> exact fun hne => UnpackedFloat.noConfusion hne
    · rw [unpack_packComponents, if_neg (by decide), if_pos rfl]
      split_ifs <;> exact fun hne => UnpackedFloat.noConfusion hne

theorem repack_eq_notANumber_iff (u : UnpackedFloat) :
    repack u = .notANumber ↔ u = .notANumber := by
  cases u with
  | infinity s => rw [repack_infinity]
  | notANumber => rw [repack_notANumber]
  | zero s => rw [repack_zero]
  | finite s m e h => simp [repack_finite_ne_notANumber s h]

/-- A full mantissa comes back from the bits of a normal number. -/
theorem unpack_normal (s : Sign) {m : ℕ} {e : ℤ} (h : 0 < m) (hfull : 2 ^ 52 ≤ m)
    (hlt : m < 2 ^ 53) (hlo : -1074 ≤ e) (hhi : e ≤ 971) :
    Float.Model.UnpackedFloat.unpack .binary64 (packComponents .binary64 s
      (BitVec.ofNat _ (e + 1075).toNat) (BitVec.ofNat _ m)) = .finite s m e h := by
  have hmantissa : (BitVec.ofNat 52 m).toNat = m - 2 ^ 52 := by
    rw [BitVec.toNat_ofNat]
    omega
  have hexponent : (BitVec.ofNat 11 (e + 1075).toNat).toNat = (e + 1075).toNat := by
    rw [BitVec.toNat_ofNat]
    omega
  have hone : BitVec.ofNat 11 (e + 1075).toNat ≠ -1#11 :=
    ofNat_ne (by omega) (by change _ ≠ 2047; omega)
  have hzero : BitVec.ofNat 11 (e + 1075).toNat ≠ 0#11 :=
    ofNat_ne (by omega) (by change _ ≠ 0; omega)
  rw [unpack_packComponents, if_neg hone, if_neg hzero]
  congr
  · rw [toNat_implicit, hmantissa]
    omega
  · rw [hexponent]
    omega

/-- A mantissa that is not full comes back from the bits of a subnormal number. -/
theorem unpack_subnormal (s : Sign) {m : ℕ} (h : 0 < m) (hlt : m < 2 ^ 52) :
    Float.Model.UnpackedFloat.unpack .binary64 (packComponents .binary64 s 0#_
      (BitVec.ofNat _ m)) = .finite s m (-1074) h := by
  have hmantissa : (BitVec.ofNat 52 m).toNat = m := by
    rw [BitVec.toNat_ofNat]
    omega
  have hzero : BitVec.ofNat 52 m ≠ 0#52 := ofNat_ne hlt h.ne'
  rw [unpack_packComponents, if_neg (by decide), if_pos rfl, dif_neg hzero]
  congr

theorem repack_finite {s : Sign} {m : ℕ} {e : ℤ} (h : 0 < m) (hc : Canonical m e) (he : e ≤ 971) :
    repack (.finite s m e h) = .finite s m e h := by
  have hlt := hc.lt
  have hle := hc.le
  change Float.Model.UnpackedFloat.unpack .binary64
    (Float.Model.UnpackedFloat.pack .binary64 (.finite s m e h)) = _
  rw [pack_finite, if_neg (by omega)]
  split
  · next hfull =>
    have hm : 2 ^ 52 ≤ m := (Nat.le_log2 h.ne').1 (by omega)
    exact unpack_normal s h hm hlt hle he
  · next hfull =>
    have hm : m < 2 ^ 52 := by
      by_contra hge
      have := (Nat.log2_eq_iff h.ne').2 ⟨not_lt.1 hge, hlt⟩
      omega
    obtain rfl : e = -1074 := hc.full.resolve_left (by omega)
    exact unpack_subnormal s h hm

theorem repack_of_packable {u : UnpackedFloat} (h : Packable u) : repack u = u := by
  cases u with
  | infinity s => exact repack_infinity s
  | notANumber => exact repack_notANumber
  | zero s => exact repack_zero s
  | finite s m e hm => exact repack_finite hm h.1 h.2

/-- A rounded magnitude is packed as it is, or as an infinity when it is too large. -/
theorem Carries.valueOf_repack {u : UnpackedFloat} {s : Sign} {x : ℝ} (h : Carries u s x) :
    valueOf (repack u) = signed s (bounded x) := by
  cases h with
  | zero => cases s <;> simp [valueOf, signed, bounded]
  | @finite m e _ pos canonical =>
    have hpow : (0 : ℝ) < 2 ^ e := by positivity
    rcases le_or_gt 972 e with he | he
    · have hm : 2 ^ 52 ≤ m := canonical.full.resolve_right (by omega)
      have hlarge : ¬ ((m : ℝ) * 2 ^ e < 2 ^ (1024 : ℤ)) := by
        rw [not_lt, show (1024 : ℤ) = 52 + 972 by norm_num, zpow_add₀ (by norm_num)]
        refine mul_le_mul ?_ (zpow_le_zpow_right₀ (by norm_num) he) (by positivity) (by positivity)
        exact_mod_cast hm
      rw [repack_finite_of_large pos he, bounded, if_neg hlarge]
      rfl
    · have hsmall : (m : ℝ) * 2 ^ e < 2 ^ (1024 : ℤ) := by
        rw [show (1024 : ℤ) = 53 + 971 by norm_num, zpow_add₀ (by norm_num)]
        refine mul_lt_mul ?_ (zpow_le_zpow_right₀ (by norm_num) (by omega)) hpow (by positivity)
        exact_mod_cast canonical.lt
      rw [repack_finite pos canonical (by omega), bounded, if_pos hsmall]
      rfl

end Unpacked

end RangeRules
