import Dialogue.Decimal.Numeral
import Dialogue.Proofs.Decimal.Nearest

/-!
# Decimal numbers as doubles

A decimal number is made a double in one of two ways. If its digits and its power of ten are both
doubles, they are multiplied or divided (`rounds_fast`), and this is one rounding only, since
neither of the two is rounded itself. Otherwise the power is counted out, exactly, and then there is
one rounding as well (`rounds_scientific`). Powers that are out of reach of the doubles are not
counted out: the result is zero or infinite at once.

So the double of a decimal number is the one that it is rounded to (`Decimal.roundsTo_iff_toFloat`).
-/

namespace Dialogue.Double

open Float.Model (UnpackedFloat Format totalExponent)
open Float.Model.UnpackedFloat (Sign decreaseExponent roundWithAccuracy)

/-! ## Whole numbers and powers of ten -/

/-- What has at most 53 bits already is not changed by rounding. -/
theorem roundWithAccuracy_of_lt {s : Sign} {m : ℕ} {e : ℤ} (hm : 0 < m) (hlt : m < 2 ^ 53)
    (he : -1074 ≤ e) : roundWithAccuracy Format.binary64 s m e .exact = .finite s m e hm := by
  have hround :
      (⟨m, false, false⟩ : Float.Model.UnpackedFloat.ExtendedMantissa).roundedMantissa = m := rfl
  rw [roundWithAccuracy, shift_of_lt hlt he]
  dsimp only
  rw [hround, shift_of_lt hlt he]
  exact dif_neg hm.ne'

theorem ofUInt64_eq {m k : ℕ} (hlt : m < 2 ^ 53) (hsum : m.log2 + k = 52) (hm : 0 < m <<< k) :
    UnpackedFloat.ofUInt64 Format.binary64 m.toUInt64 = .finite .positive (m <<< k) (-k) hm := by
  have hcode : m.toUInt64.toNat = m := Nat.mod_eq_of_lt (hlt.trans (by decide))
  have hpos : 0 < m := Nat.pos_of_ne_zero fun h => by simp [h] at hm
  have hcompare : compare (m : ℤ) 0 = .gt := compare_gt_iff_gt.mpr (by exact_mod_cast hpos)
  have hshift : (0 - max ((m.log2 : ℤ) + 0 - 52) (-1074)).toNat = k := by omega
  have hdecrease : decreaseExponent m 0 (Format.binary64.targetExponent (totalExponent m 0)) =
      (m <<< k, -(k : ℤ)) := by
    rw [targetExponent_totalExponent, decreaseExponent, hshift, zero_sub]
  have hmax := shiftLeft_lt_two_pow m k
  rw [hsum] at hmax
  rw [UnpackedFloat.ofUInt64, UnpackedFloat.ofNat, UnpackedFloat.ofInt, hcode,
    UnpackedFloat.normalize, hcompare]
  dsimp only
  rw [Int.toNat_natCast, UnpackedFloat.round, hdecrease]
  exact roundWithAccuracy_of_lt hm hmax (by omega)

/-- A whole number of at most 53 bits is a double, and its mantissa is shifted to 53 bits. -/
theorem unpack_toFloat {m : ℕ} (hm : 0 < m) (hlt : m < 2 ^ 53) :
    ∃ k : ℕ, ∃ h : 0 < m <<< k, 2 ^ 52 ≤ m <<< k ∧
      m.toUInt64.toFloat.toModel.unpack = .finite .positive (m <<< k) (-k) h := by
  have hlog : m.log2 ≤ 52 := Nat.lt_succ_iff.mp ((Nat.log2_lt hm.ne').mpr hlt)
  obtain ⟨k, hsum⟩ : ∃ k, m.log2 + k = 52 := ⟨52 - m.log2, by omega⟩
  have hfull := two_pow_le_shiftLeft hm k
  have hmax := shiftLeft_lt_two_pow m k
  rw [hsum] at hfull hmax
  refine ⟨k, by omega, hfull, ?_⟩
  change (Float.Model.pack (UnpackedFloat.ofUInt64 Format.binary64 m.toUInt64)).unpack = _
  rw [ofUInt64_eq hlt hsum]
  exact unpack_pack_finite ⟨hmax, by omega, .inl hfull⟩ _ (by omega)

/-- Whether a double is a power of ten, in a form that is tested by counting. -/
def isPowerOfTen (n : ℕ) (x : Float) : Bool :=
  match x.toModel.unpack with
  | .finite .positive m e _ => m * 2 ^ e.toNat == 10 ^ n * 2 ^ (-e).toNat
  | _ => false

theorem unpack_of_isPowerOfTen {n : ℕ} {x : Float} (h : isPowerOfTen n x = true) :
    ∃ m e hm, x.toModel.unpack = .finite .positive m e hm ∧ (m : ℚ) * 2 ^ e = 10 ^ n := by
  unfold isPowerOfTen at h
  split at h
  · next m e hm hx =>
    refine ⟨m, e, hm, hx, ?_⟩
    have hcount : (m : ℚ) * 2 ^ e.toNat = 10 ^ n * 2 ^ (-e).toNat := by
      exact_mod_cast beq_iff_eq.mp h
    have he : e = e.toNat - (-e).toNat := by omega
    rw [he, zpow_sub₀ (by norm_num : (2 : ℚ) ≠ 0), zpow_natCast, zpow_natCast,
      ← mul_div_assoc, hcount, mul_div_cancel_right₀ _ (by positivity)]
  · cases h

/-- The powers of ten that are doubles. -/
theorem isPowerOfTen_exactlyRepresentable : ∀ (n : ℕ) (h : n < 23),
    isPowerOfTen n (getElem Float.exactlyRepresentablePowersOfTen n h) = true := by
  decide +kernel

/-! ## Scaled whole numbers -/

/-- What is less than half a step is rounded to zero. -/
theorem rounds_zero {q : ℚ} (hq : 0 ≤ q) (hlt : q < 1 / 2 * 2 ^ (-1074 : ℤ)) (s : Sign) :
    Rounds s q (.zero s) := by
  have hstep := two_zpow_pos (-1074)
  have hsmall : q / 2 ^ (-1074 : ℤ) < 1 / 2 := by rwa [div_lt_iff₀ hstep]
  have hnonneg : 0 ≤ q / 2 ^ (-1074 : ℤ) := div_nonneg hq hstep.le
  have habs : |((0 : ℕ) : ℚ) - q / 2 ^ (-1074 : ℤ)| = q / 2 ^ (-1074 : ℤ) := by
    rw [Nat.cast_zero, zero_sub, abs_neg, abs_of_nonneg hnonneg]
  have hrounded : Rounded q 0 (-1074) :=
    ⟨le_rfl, by linarith, .inr rfl, habs.trans_le hsmall.le, fun _ => ⟨0, rfl⟩⟩
  exact .finite hrounded (hrounded.fits_iff.mp (.inl (by decide)))

/-- Far above the powers of ten that doubles reach. -/
theorem limit_le_of_lt {m : ℕ} {e : ℤ} (hm : m ≠ 0) (he : 2 ^ 11 < e) : limit ≤ m * 10 ^ e := by
  have hone : (1 : ℚ) ≤ m := by exact_mod_cast Nat.one_le_iff_ne_zero.mpr hm
  calc limit ≤ 2 ^ 52 * 2 ^ (972 : ℤ) := limit_le
    _ = 2 ^ (52 + 972 : ℤ) := by
      rw [zpow_add₀ (by norm_num : (2 : ℚ) ≠ 0) 52 972]
      rfl
    _ ≤ 2 ^ e := zpow_le_zpow_right₀ (by norm_num) (by omega)
    _ ≤ 10 ^ e := by
      lift e to ℕ using by omega
      rw [zpow_natCast, zpow_natCast]
      exact pow_le_pow_left₀ (by norm_num) (by norm_num) e
    _ ≤ m * 10 ^ e := le_mul_of_one_le_left (by positivity) hone

/-- Far below them. -/
theorem lt_of_lt_log2 {m : ℕ} {e : ℤ} (he : e < -((2 : ℤ) ^ 11 + m.log2)) :
    (m : ℚ) * 10 ^ e < 1 / 2 * 2 ^ (-1074 : ℤ) := by
  have hm : (m : ℚ) < 2 ^ ((m.log2 : ℤ) + 1) := by
    exact_mod_cast Nat.lt_log2_self (n := m)
  calc (m : ℚ) * 10 ^ e ≤ m * 2 ^ e := by
        refine mul_le_mul_of_nonneg_left ?_ (Nat.cast_nonneg m)
        obtain ⟨n, rfl⟩ : ∃ n : ℕ, e = -n := ⟨(-e).toNat, by omega⟩
        rw [zpow_neg, zpow_neg, zpow_natCast, zpow_natCast]
        exact inv_anti₀ (by positivity) (pow_le_pow_left₀ (by norm_num) (by norm_num) n)
    _ < 2 ^ ((m.log2 : ℤ) + 1) * 2 ^ e := mul_lt_mul_of_pos_right hm (two_zpow_pos e)
    _ = 2 ^ ((m.log2 : ℤ) + 1 + e) := by rw [zpow_add₀ (by norm_num : (2 : ℚ) ≠ 0) _ e]
    _ ≤ 2 ^ (-1 + -1074 : ℤ) := zpow_le_zpow_right₀ (by norm_num) (by omega)
    _ = 1 / 2 * 2 ^ (-1074 : ℤ) := by
      rw [zpow_add₀ (by norm_num : (2 : ℚ) ≠ 0), zpow_neg_one, one_div]

variable {m : ℕ}

/-- A product with a power of ten that is counted out; the number is given enough bits first. -/
theorem rounds_mul_ten_pow (hm : 0 < m <<< 53) (n : ℕ) (hten : 0 < 10 ^ n) :
    Rounds .positive (m * 10 ^ (n : ℤ)) (Float.Model.pack (UnpackedFloat.mul Format.binary64
      (.finite .positive (m <<< 53) (-53) hm) (.finite .positive (10 ^ n) 0 hten))).unpack := by
  have hpos : 0 < m := Nat.pos_of_ne_zero fun h => by simp [h] at hm
  have hfull : 2 ^ 52 ≤ m <<< 53 :=
    (Nat.pow_le_pow_right (by decide) (by omega)).trans (two_pow_le_shiftLeft hpos 53)
  have hvalue : (m * 10 ^ (n : ℤ) : ℚ) =
      (m <<< 53 : ℕ) * 2 ^ (-53 : ℤ) * ((10 ^ n : ℕ) * 2 ^ (0 : ℤ)) := by
    rw [Nat.shiftLeft_eq, zpow_neg, zpow_natCast]
    push_cast
    field_simp
  rw [hvalue]
  change Rounds (.positive * .positive) _ _
  exact rounds_mul hm hten hfull

/-- A quotient by a power of ten that is counted out. -/
theorem rounds_div_ten_pow (hm : 0 < m) (n : ℕ) (hten : 0 < 10 ^ n) :
    Rounds .positive (m * 10 ^ (-n : ℤ)) (Float.Model.pack (UnpackedFloat.div Format.binary64
      (.finite .positive m 0 hm) (.finite .positive (10 ^ n) 0 hten))).unpack := by
  have hvalue : (m * 10 ^ (-n : ℤ) : ℚ) = m * 2 ^ (0 : ℤ) / ((10 ^ n : ℕ) * 2 ^ (0 : ℤ)) := by
    rw [zpow_neg, zpow_natCast, zpow_zero, mul_one, mul_one, div_eq_mul_inv]
    push_cast
    rfl
  rw [hvalue]
  change Rounds (.positive / .positive) _ _
  exact rounds_div hm hten

/-- The general way: powers that are within reach are counted out. -/
theorem rounds_scientific (m : ℕ) (e : ℤ) : Rounds .positive (m * 10 ^ e)
    (Float.Model.pack (UnpackedFloat.ofScientific Format.binary64 m e)).unpack := by
  rw [UnpackedFloat.ofScientific]
  by_cases hm : m = 0
  · rw [dif_pos hm, hm, unpack_pack_zero, Nat.cast_zero, zero_mul]
    exact rounds_zero le_rfl (mul_pos (by norm_num) (two_zpow_pos _)) _
  rw [dif_neg hm]
  by_cases hlarge : e > 2 ^ Format.binary64.exponentBits
  · rw [if_pos hlarge, unpack_pack_infinity]
    exact .infinite (limit_le_of_lt hm hlarge)
  rw [if_neg hlarge]
  by_cases hsmall : e < -((2 : ℤ) ^ Format.binary64.exponentBits + m.log2)
  · rw [if_pos hsmall, unpack_pack_zero]
    exact rounds_zero (by positivity) (lt_of_lt_log2 hsmall) _
  rw [if_neg hsmall]
  by_cases hnonneg : 0 ≤ e
  · rw [if_pos hnonneg]
    lift e to ℕ using hnonneg
    exact rounds_mul_ten_pow _ e _
  · rw [if_neg hnonneg]
    obtain ⟨n, rfl⟩ : ∃ n : ℕ, e = -n := ⟨(-e).toNat, by omega⟩
    simp only [neg_neg, Int.toNat_natCast]
    exact rounds_div_ten_pow _ n _

/-- The fast way, for small numbers and small powers: both are doubles. -/
theorem rounds_fast {n : ℕ} (hm : m < 2 ^ 53) {x : Float} (hx : isPowerOfTen n x = true) :
    Rounds .positive (m * 10 ^ n) (m.toUInt64.toFloat * x).toModel.unpack ∧
      Rounds .positive (m / 10 ^ n) (m.toUInt64.toFloat / x).toModel.unpack := by
  obtain ⟨m', e', hm', hx, hpower⟩ := unpack_of_isPowerOfTen hx
  change
    Rounds _ _ (Float.Model.pack (UnpackedFloat.mul _ m.toUInt64.toFloat.toModel.unpack _)).unpack ∧
    Rounds _ _ (Float.Model.pack (UnpackedFloat.div _ m.toUInt64.toFloat.toModel.unpack _)).unpack
  rw [hx, ← hpower]
  rcases Nat.eq_zero_or_pos m with rfl | hpos
  · have hzero : (0 : ℕ).toUInt64.toFloat.toModel.unpack = .zero .positive := unpack_pack_zero
    have hrounds := rounds_zero le_rfl (mul_pos (by norm_num) (two_zpow_pos (-1074))) .positive
    rw [hzero, Nat.cast_zero, zero_mul, zero_div]
    constructor
    · change Rounds _ _ (Float.Model.pack (.zero .positive)).unpack
      rwa [unpack_pack_zero]
    · change Rounds _ _ (Float.Model.pack (.zero .positive)).unpack
      rwa [unpack_pack_zero]
  · obtain ⟨k, hshifted, hfull, hunpack⟩ := unpack_toFloat hpos hm
    have hvalue : (m : ℚ) = (m <<< k : ℕ) * 2 ^ (-k : ℤ) := by
      rw [Nat.shiftLeft_eq, zpow_neg, zpow_natCast]
      push_cast
      field_simp
    rw [hunpack, hvalue]
    constructor
    · change Rounds (.positive * .positive) _ _
      exact rounds_mul hshifted hm' hfull
    · change Rounds (.positive / .positive) _ _
      exact rounds_div hshifted hm'

/-- **A whole number times a power of ten is rounded**, whichever way is taken. -/
theorem rounds_ofScientific (m : ℕ) (e : ℤ) :
    Rounds .positive (m * 10 ^ e) (Float.ofScientific m (e < 0) e.natAbs).toModel.unpack := by
  by_cases hneg : e < 0
  · obtain ⟨n, rfl⟩ : ∃ n : ℕ, e = -n := ⟨(-e).toNat, by omega⟩
    rw [decide_eq_true hneg, Int.natAbs_neg, Int.natAbs_natCast, Float.ofScientific]
    split
    · next hsmall =>
      have hpower := isPowerOfTen_exactlyRepresentable n (Nat.lt_succ_of_le hsmall.2)
      have hrounds := (rounds_fast hsmall.1 hpower).2
      rw [div_eq_mul_inv, ← zpow_natCast, ← zpow_neg] at hrounds
      exact hrounds
    · change Rounds _ _ (Float.Model.ofScientific m (Int.negOfNat n)).unpack
      rw [Int.negOfNat_eq]
      exact rounds_scientific m (-n)
  · obtain ⟨n, rfl⟩ : ∃ n : ℕ, e = n := ⟨e.toNat, by omega⟩
    rw [decide_eq_false hneg, Int.natAbs_natCast, Float.ofScientific]
    split
    · next hsmall =>
      have hpower := isPowerOfTen_exactlyRepresentable n (Nat.lt_succ_of_le hsmall.2)
      have hrounds := (rounds_fast hsmall.1 hpower).1
      rw [← zpow_natCast] at hrounds
      exact hrounds
    · exact rounds_scientific m n

end Dialogue.Double

namespace Dialogue.Decimal

open Double

/-- The number that a decimal number is, its sign aside. -/
def magnitude (d : Decimal) : ℚ := d.coefficient * 10 ^ d.exponent

theorem magnitude_nonneg (d : Decimal) : 0 ≤ d.magnitude :=
  mul_nonneg (Nat.cast_nonneg _) (zpow_nonneg (by norm_num) _)

/-- **The double of a decimal number is what it is rounded to.** -/
theorem roundsTo_iff_toFloat (d : Decimal) (x : Float) :
    RoundsTo d.negative (signed d.negative d.magnitude) x ↔
      x = d.toFloat ∧ d.toFloat.isFinite = true := by
  refine Rounds.roundsTo_iff d.magnitude_nonneg ?_
  have hsize := rounds_ofScientific d.coefficient d.exponent
  rw [toFloat]
  split
  · next hnegative =>
    rw [hnegative]
    exact hsize.neg
  · next hpositive =>
    rw [Bool.eq_false_of_not_eq_true hpositive]
    exact hsize

end Dialogue.Decimal
