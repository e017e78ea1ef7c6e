import Mathlib

/-!
# The numbers that doubles are

A finite double is a whole number of steps, and the steps are powers of two: `mantissa · 2 ^
exponent`, with a sign. The mantissa has 53 bits at most, and it has all of them unless the exponent
is the smallest one (`Canonical`). So a number is that of one mantissa and one exponent only
(`Canonical.unique`), and seen from the steps of another exponent a double is either a multiple of
these steps or small (`onSteps_value`).

A canonical pair is the unpacked form of a double as long as its exponent is not too large for one
(`unpack_pack_finite`); beyond that it is packed as infinite (`unpack_pack_of_lt`).

What packing and unpacking do to the bits is cited from Batteries (`unpackSign_packComponents`,
`unpack_inj_of_valid`). No single file of Mathlib brings these lemmas along, only the whole of it
does.
-/

namespace Dialogue.Double

open Float.Model (UnpackedFloat Format)
open Float.Model.UnpackedFloat (Sign unpackMantissa unpackExponent)

/-- The number that a finite double is. -/
def value (x : Float) : ℚ :=
  match x.toModel.unpack with
  | .finite sign mantissa exponent _ => sign.apply mantissa * 2 ^ exponent
  | _ => 0

/-- The mantissa of a finite double. -/
def mantissa (x : Float) : ℕ :=
  match x.toModel.unpack with
  | .finite _ mantissa _ _ => mantissa
  | _ => 0

/-- Whether a double has a minus sign, as one of the zeros has. -/
def isNegative (x : Float) : Bool :=
  match x.toModel.unpack with
  | .finite sign _ _ _ => sign == .negative
  | .zero sign => sign == .negative
  | .infinity sign => sign == .negative
  | .notANumber => false

/-- The mantissa has 53 bits, or fewer if the exponent is the smallest one. -/
structure Canonical (m : ℕ) (e : ℤ) : Prop where
  lt : m < 2 ^ 53
  le : -1074 ≤ e
  full : 2 ^ 52 ≤ m ∨ e = -1074

theorem two_zpow_pos (e : ℤ) : (0 : ℚ) < 2 ^ e := zpow_pos (by norm_num) e

/-- A power of two counted in another one. -/
theorem two_zpow_eq_mul {e e' : ℤ} (h : e ≤ e') :
    (2 : ℚ) ^ e' = ((2 ^ (e' - e).toNat : ℕ) : ℚ) * 2 ^ e := by
  rw [Nat.cast_pow, Nat.cast_ofNat, ← zpow_natCast, ← zpow_add₀ (by norm_num : (2 : ℚ) ≠ 0)]
  congr 1
  omega

/-! ## Canonical pairs -/

namespace Canonical

variable {m m' : ℕ} {e e' : ℤ}

/-- What has the finer steps and is canonical is smaller than all that has the coarser ones in
full. -/
theorem mul_lt (h : Canonical m e) (hlt : e < e') : (m : ℚ) * 2 ^ e < 2 ^ 52 * 2 ^ e' := by
  have hm : (m : ℚ) < 2 ^ 53 := by exact_mod_cast h.lt
  calc (m : ℚ) * 2 ^ e < 2 ^ 53 * 2 ^ e := mul_lt_mul_of_pos_right hm (two_zpow_pos e)
    _ = 2 ^ 52 * 2 ^ (e + 1) := by
      rw [zpow_add_one₀ (by norm_num : (2 : ℚ) ≠ 0)]
      ring
    _ ≤ 2 ^ 52 * 2 ^ e' := by
      have hle : (2 : ℚ) ^ (e + 1) ≤ 2 ^ e' := zpow_le_zpow_right₀ (by norm_num) hlt
      exact mul_le_mul_of_nonneg_left hle (by norm_num)

theorem le_of_eq (h : Canonical m e) (h' : Canonical m' e') (heq : (m : ℚ) * 2 ^ e = m' * 2 ^ e') :
    e' ≤ e := by
  by_contra hlt
  have hsmall := h.mul_lt (Int.lt_of_not_ge hlt)
  have hfull : (2 ^ 52 : ℚ) ≤ m' := by
    exact_mod_cast h'.full.resolve_right (by have := h.le; omega)
  have hlarge := mul_le_mul_of_nonneg_right hfull (two_zpow_pos e').le
  linarith

/-- A number is that of one canonical pair only. -/
theorem unique (h : Canonical m e) (h' : Canonical m' e') (heq : (m : ℚ) * 2 ^ e = m' * 2 ^ e') :
    m = m' ∧ e = e' := by
  obtain rfl : e = e' := le_antisymm (h'.le_of_eq h heq.symm) (h.le_of_eq h' heq)
  have hm : (m : ℚ) = m' := mul_right_cancel₀ (two_zpow_pos e).ne' heq
  exact ⟨by exact_mod_cast hm, rfl⟩

end Canonical

/-! ## Unpacked doubles -/

theorem mantissaBits_binary64 : Format.binary64.mantissaBits = 53 := rfl

theorem exponentBias_binary64 : Format.binary64.exponentBias = 1023 := rfl

theorem toNat_implicit_append (v : BitVec 52) : (1#1 ++ v).toNat = 2 ^ 52 + v.toNat := by
  rw [BitVec.toNat_append, ← Nat.shiftLeft_add_eq_or_of_lt v.isLt]
  rfl

/-- What a double is unpacked to is canonical. -/
theorem canonical_of_unpack {b : BitVec 64} {s : Sign} {m : ℕ} {e : ℤ} {hm : 0 < m}
    (h : UnpackedFloat.unpack Format.binary64 b = .finite s m e hm) : Canonical m e ∧ e ≤ 971 := by
  have hmantissa : (@unpackMantissa Format.binary64 b).toNat < 2 ^ 52 := BitVec.isLt _
  have hexponent : (@unpackExponent Format.binary64 b).toNat < 2 ^ 11 := BitVec.isLt _
  simp only [UnpackedFloat.unpack] at h
  split at h
  · split at h <;> cases h
  · next hmax =>
    have hne : (@unpackExponent Format.binary64 b).toNat ≠ 2047 := fun heq =>
      hmax (BitVec.eq_of_toNat_eq heq)
    split at h
    · next hzero =>
      split at h
      · cases h
      · -- the smallest exponent, without the implicit bit
        cases h
        rw [hzero]
        exact ⟨⟨by omega, by decide, .inr rfl⟩, by decide⟩
    · next hzero =>
      have hpos : (@unpackExponent Format.binary64 b).toNat ≠ 0 := fun heq =>
        hzero (BitVec.eq_of_toNat_eq heq)
      cases h
      rw [toNat_implicit_append, exponentBias_binary64]
      exact ⟨⟨by omega, by omega, .inl (by omega)⟩, by omega⟩

theorem finite_congr {s : Sign} {m m' : ℕ} {e e' : ℤ} {hm : 0 < m} {hm' : 0 < m'} (heq : m = m')
    (heq' : e = e') : UnpackedFloat.finite s m e hm = .finite s m' e' hm' := by
  subst heq heq'
  rfl

/-- The fields of a normal double: the exponent counts from 1, and the first bit of the mantissa is
left out. -/
theorem unpack_normal {s : Sign} {exponent : BitVec 11} {fraction : BitVec 52} {m : ℕ} {e : ℤ}
    (hm : 0 < m) (hexponent : (exponent.toNat : ℤ) = e + 1075) (hpos : -1075 < e) (hmax : e ≤ 971)
    (hfraction : m = 2 ^ 52 + fraction.toNat) :
    UnpackedFloat.unpack Format.binary64
      (UnpackedFloat.packComponents Format.binary64 s exponent fraction) = .finite s m e hm := by
  have hne : exponent ≠ -1#11 := by
    rintro rfl
    have : (-1#11).toNat = 2047 := rfl
    omega
  have hne' : exponent ≠ 0#11 := by
    rintro rfl
    have : (0#11).toNat = 0 := rfl
    omega
  simp only [UnpackedFloat.unpack, UnpackedFloat.unpackExponent_packComponents,
    UnpackedFloat.unpackMantissa_packComponents, UnpackedFloat.unpackSign_packComponents,
    Sign.ofBitVec_toBitVec, if_neg hne, if_neg hne']
  refine finite_congr ?_ ?_
  · rw [hfraction, toNat_implicit_append]
  · rw [exponentBias_binary64]
    omega

/-- The fields of a double below the normal ones. -/
theorem unpack_subnormal {s : Sign} {fraction : BitVec 52} {m : ℕ} (hm : 0 < m)
    (hfraction : m = fraction.toNat) :
    UnpackedFloat.unpack Format.binary64
      (UnpackedFloat.packComponents Format.binary64 s 0#11 fraction) = .finite s m (-1074) hm := by
  have hne : fraction ≠ 0#52 := by
    rintro rfl
    have : (0#52).toNat = 0 := rfl
    omega
  have hmax : (0#11) ≠ -1#11 := by decide
  simp only [UnpackedFloat.unpack, UnpackedFloat.unpackExponent_packComponents,
    UnpackedFloat.unpackMantissa_packComponents, UnpackedFloat.unpackSign_packComponents,
    Sign.ofBitVec_toBitVec, if_neg hmax, if_true, dif_neg hne]
  exact finite_congr hfraction.symm rfl

variable {s : Sign} {m : ℕ} {e : ℤ}

/-- Which exponents are too large for a double. -/
theorem too_large_iff :
    2 ^ Format.binary64.exponentBits ≤
      (e + Format.binary64.exponentBias + Format.binary64.mantissaBitsWithoutImplicit).toNat + 1 ↔
      971 < e := by
  show 2 ^ 11 ≤ (e + 1023 + 52).toNat + 1 ↔ _
  omega

/-- A canonical pair that is not too large comes back from its double. -/
theorem unpack_pack_finite (h : Canonical m e) (hm : 0 < m) (he : e ≤ 971) :
    (Float.Model.pack (.finite s m e hm)).unpack = .finite s m e hm := by
  show UnpackedFloat.unpack _ (UnpackedFloat.pack Format.binary64 (.finite s m e hm)) = _
  have hlt := h.lt
  have hle := h.le
  have hlog : m.log2 + 1 = Format.binary64.mantissaBits ↔ 2 ^ 52 ≤ m := by
    rw [← Nat.le_log2 hm.ne', mantissaBits_binary64]
    have := (Nat.log2_lt hm.ne').mpr hlt
    omega
  simp only [UnpackedFloat.pack]
  rw [if_neg (too_large_iff.not.mpr he.not_gt)]
  by_cases hfull : 2 ^ 52 ≤ m
  · rw [if_pos (hlog.mpr hfull), exponentBias_binary64]
    refine unpack_normal hm ?_ (by omega) he ?_
    · rw [BitVec.toNat_ofNat]
      omega
    · rw [BitVec.toNat_ofNat]
      omega
  · obtain rfl := h.full.resolve_left hfull
    rw [if_neg (hlog.not.mpr hfull)]
    refine unpack_subnormal hm ?_
    rw [BitVec.toNat_ofNat]
    omega

/-- With a larger exponent than the doubles have, the result is infinite. -/
theorem unpack_pack_of_lt (hm : 0 < m) (he : 971 < e) :
    (Float.Model.pack (.finite s m e hm)).unpack = .infinity s := by
  have hinfinity : UnpackedFloat.pack Format.binary64 (.finite s m e hm) =
      UnpackedFloat.packedInfinity Format.binary64 s := by
    simp only [UnpackedFloat.pack]
    rw [if_pos (too_large_iff.mpr he)]
  show UnpackedFloat.unpack _ (UnpackedFloat.pack Format.binary64 (.finite s m e hm)) = _
  rw [hinfinity]
  cases s <;> rfl

theorem unpack_pack_infinity : (Float.Model.pack (.infinity s)).unpack = .infinity s := by
  cases s <;> rfl

theorem unpack_pack_zero : (Float.Model.pack (.zero s)).unpack = .zero s := by
  cases s <;> rfl

/-! ## Doubles -/

/-- A double is what it is unpacked to. -/
theorem eq_of_unpack_eq {x y : Float} (h : x.toModel.unpack = y.toModel.unpack) : x = y := by
  have hbits : x.toModel.toBits.toBitVec = y.toModel.toBits.toBitVec :=
    (UnpackedFloat.unpack_inj_of_valid x.toModel.valid y.toModel.valid).mp h
  obtain ⟨⟨⟨a⟩, ha⟩⟩ := x
  obtain ⟨⟨⟨b⟩, hb⟩⟩ := y
  cases hbits
  rfl

/-- A finite double is zero or a mantissa and an exponent, which are canonical. -/
theorem unpack_of_isFinite {x : Float} (h : x.isFinite = true) :
    (∃ s, x.toModel.unpack = .zero s) ∨
      ∃ s m e hm, x.toModel.unpack = .finite s m e hm ∧ Canonical m e ∧ e ≤ 971 := by
  have hfinite : x.toModel.unpack.isFinite = true := h
  cases hx : x.toModel.unpack with
  | zero s => exact .inl ⟨s, rfl⟩
  | finite s m e hm => exact .inr ⟨s, m, e, hm, rfl, canonical_of_unpack hx⟩
  | infinity s =>
    rw [hx] at hfinite
    cases hfinite
  | notANumber =>
    rw [hx] at hfinite
    cases hfinite

variable {x : Float}

theorem value_of_zero (h : x.toModel.unpack = .zero s) : value x = 0 := by rw [value, h]

theorem value_of_finite {hm : 0 < m} (h : x.toModel.unpack = .finite s m e hm) :
    value x = s.apply m * 2 ^ e := by rw [value, h]

theorem abs_apply (s : Sign) (m : ℕ) : |((s.apply m : ℤ) : ℚ)| = m := by
  cases s <;> simp [Sign.apply]

theorem abs_value_of_finite {hm : 0 < m} (h : x.toModel.unpack = .finite s m e hm) :
    |value x| = m * 2 ^ e := by
  rw [value_of_finite h, abs_mul, abs_apply, abs_of_pos (two_zpow_pos e)]

theorem value_ne_zero {hm : 0 < m} (h : x.toModel.unpack = .finite s m e hm) : value x ≠ 0 := by
  rw [← abs_pos, abs_value_of_finite h]
  exact mul_pos (by exact_mod_cast hm) (two_zpow_pos e)

/-- The number is a multiple of `2 ^ E`, or small. -/
def OnSteps (w : ℚ) (E : ℤ) : Prop :=
  (∃ j : ℤ, w = j * 2 ^ E) ∨ -1074 < E ∧ |w| < 2 ^ 52 * 2 ^ E

/-- In steps of another exponent a double is a multiple of the steps, or small. -/
theorem onSteps_value (hx : x.isFinite = true) (E : ℤ) : OnSteps (value x) E := by
  rcases unpack_of_isFinite hx with ⟨s, hzero⟩ | ⟨s, m, e, hm, hfinite, hcanonical, -⟩
  · refine .inl ⟨0, ?_⟩
    rw [value_of_zero hzero, Int.cast_zero, zero_mul]
  · rcases lt_or_ge e E with hlt | hle
    · refine .inr ⟨hcanonical.le.trans_lt hlt, ?_⟩
      rw [abs_value_of_finite hfinite]
      exact hcanonical.mul_lt hlt
    · refine .inl ⟨s.apply m * (2 ^ (e - E).toNat : ℕ), ?_⟩
      rw [value_of_finite hfinite, two_zpow_eq_mul hle, Int.cast_mul, Int.cast_natCast, mul_assoc]

end Dialogue.Double
