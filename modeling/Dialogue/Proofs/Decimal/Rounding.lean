import Dialogue.Proofs.Decimal.Doubles

/-!
# What rounding does

Arithmetic on doubles works with a mantissa that is too long, or with one whose last bits are lost,
and rounds it in the end. Two bits are kept of what is lost: the next one, and whether there is
anything behind it. An *extended mantissa* `Describes` a number if these two bits are those of the
number, and it still does so after a shift (`Describes.shiftRight`), so that what it is rounded to
is the nearest whole number, ties to even (`Describes.nearestEven`).

For a double the number is counted in steps of a power of two, and `Rounded q r E` says that `r`
steps of `2 ^ E` are what `q` is rounded to. That is what the last step of all arithmetic finds
(`exists_rounded`); packing it leaves it as it is, or makes it infinite if `q` is beyond the doubles
(`Rounded.rounds`). Products with a factor of 53 bits and quotients are therefore rounded
(`rounds_mul`, `rounds_div`).
-/

namespace Dialogue.Double

open Float.Model (UnpackedFloat Format totalExponent)
open Float.Model.UnpackedFloat (Sign Accuracy ExtendedMantissa shiftToTargetExponent shiftToExponent
  roundWithAccuracy accuracyOfFraction divCore)

/-! ## Rounding to a whole number -/

/-- The whole number nearest to `v`, and of two such the even one. -/
structure NearestEven (v : ℚ) (r : ℕ) : Prop where
  near : |(r : ℚ) - v| ≤ 1 / 2
  even : |(r : ℚ) - v| = 1 / 2 → Even r

theorem le_of_near {v : ℚ} {r n : ℕ} (h : |(r : ℚ) - v| ≤ 1 / 2) (hv : v < n) : r ≤ n := by
  have hr : (r : ℚ) < (n + 1 : ℕ) := by
    push_cast
    linarith [(abs_le.mp h).2]
  exact Nat.lt_succ_iff.mp (by exact_mod_cast hr)

theorem ge_of_near {v : ℚ} {r n : ℕ} (h : |(r : ℚ) - v| ≤ 1 / 2) (hv : n ≤ v) : n ≤ r := by
  have hr : (n : ℚ) < (r + 1 : ℕ) := by
    push_cast
    linarith [(abs_le.mp h).1]
  exact Nat.lt_succ_iff.mp (by exact_mod_cast hr)

namespace NearestEven

variable {v : ℚ} {r : ℕ}

theorem one_le_abs {j : ℤ} (hne : j ≠ r) (v : ℚ) : 1 ≤ |(j : ℚ) - v| + |(r : ℚ) - v| := by
  have hsub : (1 : ℚ) ≤ |(j : ℚ) - r| := by
    exact_mod_cast Int.one_le_abs (sub_ne_zero.mpr hne)
  calc (1 : ℚ) ≤ |(j : ℚ) - r| := hsub
    _ ≤ |(j : ℚ) - v| + |v - r| := abs_sub_le _ _ _
    _ = |(j : ℚ) - v| + |(r : ℚ) - v| := by rw [abs_sub_comm v]

theorem abs_le_abs (h : NearestEven v r) (j : ℤ) : |(r : ℚ) - v| ≤ |(j : ℚ) - v| := by
  by_cases hne : j = r
  · rw [hne, Int.cast_natCast]
  · linarith [one_le_abs hne v, h.near]

/-- What else is nearest is an odd number. -/
theorem odd_of_eq (h : NearestEven v r) {j : ℤ} (hne : j ≠ r)
    (heq : |(j : ℚ) - v| = |(r : ℚ) - v|) : Even r ∧ ¬ Even j := by
  have hhalf : |(r : ℚ) - v| = 1 / 2 := by
    linarith [one_le_abs hne v, h.near]
  have heven := h.even hhalf
  refine ⟨heven, ?_⟩
  have hstep : |(j : ℚ) - r| ≤ 1 := by
    calc |(j : ℚ) - r| ≤ |(j : ℚ) - v| + |v - r| := abs_sub_le _ _ _
      _ = 1 := by
        rw [abs_sub_comm v, heq, hhalf]
        norm_num
  have hnext : |j - r| ≤ 1 := by exact_mod_cast hstep
  rw [abs_le] at hnext
  obtain ⟨n, rfl⟩ := heven
  rintro ⟨i, rfl⟩
  push_cast at hne hnext
  omega

end NearestEven

/-! ## Extended mantissas -/

/-- What the bit behind the last one counts for. -/
def half : Bool → ℚ
  | true => 1 / 2
  | false => 0

theorem half_nonneg (b : Bool) : 0 ≤ half b := by cases b <;> norm_num [half]

theorem half_le (b : Bool) : half b ≤ 1 / 2 := by cases b <;> norm_num [half]

theorem half_last_bit (m : ℕ) : (m : ℚ) = 2 * ((m / 2 : ℕ) + half (m % 2 != 0)) := by
  have hm : (m : ℚ) = 2 * (m / 2 : ℕ) + (m % 2 : ℕ) := by exact_mod_cast (Nat.div_add_mod m 2).symm
  rcases Nat.mod_two_eq_zero_or_one m with hbit | hbit
  · have hhalf : half (0 != 0) = 0 := rfl
    rw [hbit, Nat.cast_zero] at hm
    rw [hbit, hhalf]
    linarith
  · have hhalf : half (1 != 0) = 1 / 2 := rfl
    rw [hbit, Nat.cast_one] at hm
    rw [hbit, hhalf]
    linarith

/-- The extended mantissa is that of the number `v`: the sticky bit says whether there is anything
behind the round bit. -/
def Describes (em : ExtendedMantissa) (v : ℚ) : Prop :=
  ∃ rest : ℚ, 0 ≤ rest ∧ rest < 1 / 2 ∧ (em.stickyBit = true ↔ 0 < rest) ∧
    v = em.mantissa + half em.roundBit + rest

namespace Describes

variable {em : ExtendedMantissa} {v : ℚ}

theorem le (h : Describes em v) : (em.mantissa : ℚ) ≤ v := by
  obtain ⟨rest, hnonneg, -, -, rfl⟩ := h
  linarith [half_nonneg em.roundBit]

theorem lt (h : Describes em v) : v < em.mantissa + 1 := by
  obtain ⟨rest, -, hlt, -, rfl⟩ := h
  linarith [half_le em.roundBit]

/-- The bit that is shifted out is the new round bit, and the former bits go into the sticky bit. -/
theorem shiftRightOne (h : Describes em v) : Describes em.shiftRightOne (v / 2) := by
  obtain ⟨rest, hnonneg, hlt, hsticky, rfl⟩ := h
  refine ⟨(half em.roundBit + rest) / 2, ?_, ?_, ?_, ?_⟩
  · linarith [half_nonneg em.roundBit]
  · linarith [half_le em.roundBit]
  · rw [ExtendedMantissa.shiftRightOne, Bool.or_eq_true, hsticky]
    cases em.roundBit with
    | false => simp [half]
    | true =>
      simp only [true_or, true_iff, half]
      linarith
  · dsimp only [ExtendedMantissa.shiftRightOne]
    linarith [half_last_bit em.mantissa]

theorem shiftRight (h : Describes em v) (k : ℕ) : Describes (em >>> k) (v / 2 ^ k) := by
  induction k with
  | zero =>
    rw [pow_zero, div_one]
    exact h
  | succ k ih =>
    change Describes (em >>> k).shiftRightOne _
    rw [pow_succ, ← div_div]
    exact ih.shiftRightOne

/-- The four cases of the two bits are the four cases of rounding. -/
theorem nearestEven (h : Describes em v) : NearestEven v em.roundedMantissa := by
  obtain ⟨rest, hnonneg, hlt, hsticky, rfl⟩ := h
  obtain ⟨m, roundBit, stickyBit⟩ := em
  cases stickyBit with
  | false =>
    obtain rfl : rest = 0 := le_antisymm (not_lt.mp (hsticky.not.mp Bool.false_ne_true)) hnonneg
    cases roundBit with
    | false =>
      change NearestEven ((m : ℚ) + 0 + 0) m
      constructor <;> norm_num
    | true =>
      change NearestEven ((m : ℚ) + 1 / 2 + 0) (m + m % 2)
      refine ⟨?_, fun _ => ?_⟩
      · rcases Nat.mod_two_eq_zero_or_one m with hbit | hbit
        · rw [hbit, abs_le]
          push_cast
          constructor <;> linarith
        · rw [hbit, abs_le]
          push_cast
          constructor <;> linarith
      · rw [Nat.even_iff]
        omega
  | true =>
    have hpos : 0 < rest := hsticky.mp rfl
    cases roundBit with
    | false =>
      change NearestEven ((m : ℚ) + 0 + rest) m
      have habs : |(m : ℚ) - (m + 0 + rest)| = rest := by
        rw [abs_sub_comm, add_zero, add_sub_cancel_left, abs_of_pos hpos]
      exact ⟨habs.trans_le hlt.le, fun heq => absurd (habs.symm.trans heq) hlt.ne⟩
    | true =>
      change NearestEven ((m : ℚ) + 1 / 2 + rest) (m + 1)
      have habs : |((m + 1 : ℕ) : ℚ) - (m + 1 / 2 + rest)| = 1 / 2 - rest := by
        rw [abs_of_pos] <;> push_cast <;> linarith
      refine ⟨?_, fun heq => ?_⟩ <;> linarith

end Describes

theorem ofMantissaAndAccuracy_mantissa (m : ℕ) (a : Accuracy) :
    (ExtendedMantissa.ofMantissaAndAccuracy m a).mantissa = m := by
  rcases a with _ | (_ | _ | _) <;> rfl

/-- A mantissa without a rest is that of a whole number. -/
theorem describes_exact (m : ℕ) : Describes (.ofMantissaAndAccuracy m .exact) m :=
  ⟨0, le_rfl, by norm_num, by simp [ExtendedMantissa.ofMantissaAndAccuracy], by
    simp [ExtendedMantissa.ofMantissaAndAccuracy, half]⟩

/-! ## Rounding to a double -/

/-- The number `q`, counted in steps of `2 ^ E`, is rounded to `r`: the steps are those of the
doubles of its size. -/
structure Rounded (q : ℚ) (r : ℕ) (E : ℤ) : Prop where
  le : -1074 ≤ E
  lt : q / 2 ^ E < 2 ^ 53
  full : 2 ^ 52 ≤ q / 2 ^ E ∨ E = -1074
  nearest : NearestEven (q / 2 ^ E) r

/-- What `r` steps of `2 ^ E` are unpacked; if they came to one bit too many, half of them are twice
as large. -/
def rounded (s : Sign) (r : ℕ) (E : ℤ) : UnpackedFloat :=
  if h : r = 0 then .zero s
  else if r < 2 ^ 53 then .finite s r E (Nat.pos_of_ne_zero h)
  else .finite s (2 ^ 52) (E + 1) (by decide)

theorem rounded_of_lt {s : Sign} {r : ℕ} {E : ℤ} (hr : r < 2 ^ 53) :
    rounded s r E = if h : r = 0 then .zero s else .finite s r E (Nat.pos_of_ne_zero h) := by
  rw [rounded]
  simp only [if_pos hr]

theorem targetExponent_eq (t : ℤ) : Format.binary64.targetExponent t = max (t - 53) (-1074) := by
  have hmin : Format.binary64.minExponent = -1074 := by decide
  rw [Format.targetExponent, hmin, mantissaBits_binary64]
  rfl

theorem targetExponent_totalExponent (m : ℕ) (e : ℤ) :
    Format.binary64.targetExponent (totalExponent m e) = max (m.log2 + e - 52) (-1074) := by
  rw [targetExponent_eq, totalExponent]
  congr 1
  omega

/-- The first shift leaves 53 bits, or fewer if the exponent is the smallest one. -/
theorem exists_shift (m : ℕ) (e : ℤ) (a : Accuracy) (hbits : 52 ≤ m.log2 ∨ e ≤ -1074) :
    ∃ k : ℕ, shiftToTargetExponent Format.binary64 m e a =
        (ExtendedMantissa.ofMantissaAndAccuracy m a >>> k, e + k) ∧
      -1074 ≤ e + k ∧ m.log2 ≤ 52 + k ∧ (m.log2 = 52 + k ∨ e + k = -1074) := by
  refine ⟨(Format.binary64.targetExponent (totalExponent m e) - e).toNat, rfl, ?_⟩
  rw [targetExponent_totalExponent]
  omega

/-- The second shift does nothing if the bits are not too many. -/
theorem shift_of_lt {r : ℕ} {E : ℤ} (hr : r < 2 ^ 53) (hE : -1074 ≤ E) :
    shiftToTargetExponent Format.binary64 r E .exact = (⟨r, false, false⟩, E) := by
  have hlog : r.log2 ≤ 52 := by
    rcases Nat.eq_zero_or_pos r with rfl | hpos
    · decide
    · exact Nat.lt_succ_iff.mp ((Nat.log2_lt hpos.ne').mpr hr)
  have hshift : (max ((r.log2 : ℤ) + E - 52) (-1074) - E).toNat = 0 := by omega
  rw [shiftToTargetExponent, targetExponent_totalExponent, shiftToExponent, hshift]
  exact congrArg _ (add_zero E)

/-- One bit too many is what rounding up can make, and then the second shift halves the mantissa. -/
theorem shift_of_eq {E : ℤ} (hE : -1074 ≤ E) :
    shiftToTargetExponent Format.binary64 (2 ^ 53) E .exact = (⟨2 ^ 52, false, false⟩, E + 1) := by
  have hshift : (max (((2 ^ 53 : ℕ).log2 : ℤ) + E - 52) (-1074) - E).toNat = 1 := by
    rw [Nat.log2_two_pow]
    omega
  rw [shiftToTargetExponent, targetExponent_totalExponent, shiftToExponent, hshift]
  rfl

/-- Behind the first shift there are the rounded mantissa and the step, and nothing else is done to
them. -/
theorem roundWithAccuracy_eq {s : Sign} {m : ℕ} {e E : ℤ} {a : Accuracy} {em : ExtendedMantissa}
    (hshift : shiftToTargetExponent Format.binary64 m e a = (em, E)) (hE : -1074 ≤ E)
    (hle : em.roundedMantissa ≤ 2 ^ 53) :
    roundWithAccuracy Format.binary64 s m e a = rounded s em.roundedMantissa E := by
  rw [roundWithAccuracy, hshift]
  dsimp only
  rcases hle.lt_or_eq with hsmall | hmax
  · rw [shift_of_lt hsmall hE, rounded_of_lt hsmall]
  · rw [hmax, shift_of_eq hE]
    rfl

/-- What is left of the bits of a number, shifted, is less than 54 bits. -/
theorem div_two_pow_lt {m k : ℕ} {t : ℚ} (ht : t < m + 1) (hlog : m.log2 ≤ 52 + k) :
    t / 2 ^ k < (2 ^ 53 : ℕ) := by
  have hm : m + 1 ≤ 2 ^ 53 * 2 ^ k := by
    rw [← pow_add]
    exact (Nat.lt_log2_self (n := m)).trans_le (Nat.pow_le_pow_right (by decide) (by omega))
  rw [div_lt_iff₀ (by positivity)]
  exact ht.trans_le (by exact_mod_cast hm)

theorem le_div_two_pow {m k : ℕ} {t : ℚ} (ht : m ≤ t) (hlog : m.log2 = 52 + k) :
    2 ^ 52 ≤ t / 2 ^ k := by
  have hne : m ≠ 0 := by
    rintro rfl
    rw [Nat.log2_zero] at hlog
    omega
  have hm : 2 ^ 52 * 2 ^ k ≤ m := by
    rw [← pow_add, ← hlog]
    exact Nat.log2_self_le hne
  rw [le_div_iff₀ (by positivity)]
  exact le_trans (by exact_mod_cast hm) ht

/-- The last step of all arithmetic is rounding. -/
theorem exists_rounded {s : Sign} {m : ℕ} {e : ℤ} {a : Accuracy} {t : ℚ}
    (h : Describes (.ofMantissaAndAccuracy m a) t) (hbits : 52 ≤ m.log2 ∨ e ≤ -1074) :
    ∃ r E, Rounded (t * 2 ^ e) r E ∧
      roundWithAccuracy Format.binary64 s m e a = rounded s r E := by
  obtain ⟨k, hshift, hle, hlog, hfull⟩ := exists_shift m e a hbits
  have hcount : t * 2 ^ e / 2 ^ (e + k) = t / 2 ^ k := by
    rw [zpow_add₀ (by norm_num : (2 : ℚ) ≠ 0), zpow_natCast]
    field_simp
  have hge := h.le
  have hlt := h.lt
  rw [ofMantissaAndAccuracy_mantissa] at hge hlt
  have hbound := div_two_pow_lt hlt hlog
  have hnearest := (h.shiftRight k).nearestEven
  refine ⟨_, e + k, ⟨hle, ?_, ?_, ?_⟩,
    roundWithAccuracy_eq hshift hle (le_of_near hnearest.near hbound)⟩
  · rw [hcount]
    exact_mod_cast hbound
  · rw [hcount]
    exact hfull.imp_left (le_div_two_pow hge)
  · rw [hcount]
    exact hnearest

/-! ## The result in a double -/

/-- Half a step above the largest double, where infinity begins. -/
def limit : ℚ := (2 ^ 53 - 1 / 2) * 2 ^ (971 : ℤ)

theorem le_limit : 2 ^ 53 * 2 ^ (970 : ℤ) ≤ limit := by
  have hpos := two_zpow_pos 970
  rw [limit, show (971 : ℤ) = 970 + 1 from rfl, zpow_add_one₀ (by norm_num : (2 : ℚ) ≠ 0)]
  generalize (2 : ℚ) ^ (970 : ℤ) = step at hpos ⊢
  linarith

theorem limit_le : limit ≤ 2 ^ 52 * 2 ^ (972 : ℤ) := by
  have hpos := two_zpow_pos 971
  rw [limit, show (972 : ℤ) = 971 + 1 from rfl, zpow_add_one₀ (by norm_num : (2 : ℚ) ≠ 0)]
  generalize (2 : ℚ) ^ (971 : ℤ) = step at hpos ⊢
  linarith

namespace Rounded

variable {q : ℚ} {r : ℕ} {E : ℤ}

theorem le_pow (h : Rounded q r E) : r ≤ 2 ^ 53 :=
  le_of_near h.nearest.near (by exact_mod_cast h.lt)

theorem full_or (h : Rounded q r E) : 2 ^ 52 ≤ r ∨ E = -1074 :=
  h.full.imp_left fun hfull => ge_of_near h.nearest.near (by exact_mod_cast hfull)

theorem eq_mul (q : ℚ) (E : ℤ) : q = q / 2 ^ E * 2 ^ E :=
  (div_mul_cancel₀ q (two_zpow_pos E).ne').symm

theorem lt_limit (h : Rounded q r E) (hE : E < 971) : q < limit := by
  have hle : (2 : ℚ) ^ E ≤ 2 ^ (970 : ℤ) := zpow_le_zpow_right₀ (by norm_num) (by omega)
  calc q = q / 2 ^ E * 2 ^ E := eq_mul q E
    _ < 2 ^ 53 * 2 ^ E := mul_lt_mul_of_pos_right h.lt (two_zpow_pos E)
    _ ≤ 2 ^ 53 * 2 ^ (970 : ℤ) := mul_le_mul_of_nonneg_left hle (by norm_num)
    _ ≤ limit := le_limit

/-- Half a step above the largest double is rounded up: the mantissa of this double is odd. -/
theorem lt_limit_of_last (h : Rounded q r 971) (hr : r < 2 ^ 53) : q < limit := by
  rw [limit, ← div_lt_iff₀ (two_zpow_pos 971)]
  have hle : (r : ℚ) + 1 ≤ 2 ^ 53 := by exact_mod_cast Nat.succ_le_of_lt hr
  have hnear := (abs_le.mp h.nearest.near).1
  refine lt_of_le_of_ne (by linarith) fun heq => ?_
  -- The tie between the largest double and the step above it goes to the step above it.
  have hmax : (r : ℚ) = 2 ^ 53 - 1 := by linarith
  have heven : Even r := h.nearest.even (by
    rw [heq, hmax, abs_sub_comm]
    norm_num)
  have hsucc : (r : ℚ) + 1 = 2 ^ 53 := by linarith
  have hodd : r + 1 = 2 ^ 53 := by exact_mod_cast hsucc
  obtain ⟨n, rfl⟩ := heven
  omega

theorem limit_le_of_gt (h : Rounded q r E) (hE : 971 < E) : limit ≤ q := by
  have hle : (2 : ℚ) ^ (972 : ℤ) ≤ 2 ^ E := zpow_le_zpow_right₀ (by norm_num) (by omega)
  calc limit ≤ 2 ^ 52 * 2 ^ (972 : ℤ) := limit_le
    _ ≤ 2 ^ 52 * 2 ^ E := mul_le_mul_of_nonneg_left hle (by norm_num)
    _ ≤ q / 2 ^ E * 2 ^ E :=
      mul_le_mul_of_nonneg_right (h.full.resolve_right (by omega)) (two_zpow_pos E).le
    _ = q := (eq_mul q E).symm

theorem limit_le_of_last (h : Rounded q r 971) (hr : 2 ^ 53 ≤ r) : limit ≤ q := by
  rw [limit, ← le_div_iff₀ (two_zpow_pos 971)]
  have hr' : (2 ^ 53 : ℚ) ≤ r := by exact_mod_cast hr
  linarith [(abs_le.mp h.nearest.near).2]

/-- The doubles end where their exponents end, and half a step behind that infinity begins. -/
theorem fits_iff (h : Rounded q r E) : E < 971 ∨ E = 971 ∧ r < 2 ^ 53 ↔ q < limit := by
  constructor
  · rintro (hE | ⟨rfl, hr⟩)
    · exact h.lt_limit hE
    · exact h.lt_limit_of_last hr
  · intro hq
    rcases lt_trichotomy E 971 with hE | rfl | hE
    · exact .inl hE
    · exact .inr ⟨rfl, not_le.mp fun hr => not_lt.mpr (h.limit_le_of_last hr) hq⟩
    · exact absurd hq (not_lt.mpr (h.limit_le_of_gt hE))

end Rounded

/-- The result of rounding a number, with a sign put before it. -/
inductive Rounds (s : Sign) (q : ℚ) : UnpackedFloat → Prop
  | finite {r : ℕ} {E : ℤ} : Rounded q r E → q < limit → Rounds s q (rounded s r E)
  | infinite : limit ≤ q → Rounds s q (.infinity s)

/-- Packing a result leaves it as it is, or makes it infinite. -/
theorem Rounded.rounds {q : ℚ} {r : ℕ} {E : ℤ} (h : Rounded q r E) (s : Sign) :
    Rounds s q (Float.Model.pack (rounded s r E)).unpack := by
  by_cases hq : q < limit
  · have hfits := h.fits_iff.mpr hq
    have hsame : (Float.Model.pack (rounded s r E)).unpack = rounded s r E := by
      by_cases hsmall : r < 2 ^ 53
      · rw [rounded_of_lt hsmall]
        split
        · exact unpack_pack_zero
        · exact unpack_pack_finite ⟨hsmall, h.le, h.full_or⟩ _ (by omega)
      · obtain rfl : r = 2 ^ 53 := le_antisymm h.le_pow (not_lt.mp hsmall)
        have hle := h.le
        exact unpack_pack_finite ⟨by decide, by omega, .inl le_rfl⟩ (by decide) (by omega)
    rw [hsame]
    exact .finite h hq
  · have hlarge : ¬ (E < 971 ∨ E = 971 ∧ r < 2 ^ 53) := h.fits_iff.not.mpr hq
    have hinfinite : (Float.Model.pack (rounded s r E)).unpack = .infinity s := by
      have hfull : 2 ^ 52 ≤ r := h.full_or.resolve_right (by omega)
      by_cases hsmall : r < 2 ^ 53
      · rw [rounded_of_lt hsmall, dif_neg (by omega)]
        exact unpack_pack_of_lt _ (by omega)
      · obtain rfl : r = 2 ^ 53 := le_antisymm h.le_pow (not_lt.mp hsmall)
        exact unpack_pack_of_lt (by decide) (by omega)
    rw [hinfinite]
    exact .infinite (not_lt.mp hq)

/-- Negating a result negates the number. -/
theorem Rounds.neg {q : ℚ} {u : UnpackedFloat} (h : Rounds .positive q u) :
    Rounds .negative q (Float.Model.pack u.neg).unpack := by
  cases h with
  | @finite r E hr hlt =>
    have hneg : (rounded .positive r E).neg = rounded .negative r E := by
      rw [rounded, rounded]
      split
      · rfl
      · split <;> rfl
    rw [hneg]
    exact hr.rounds .negative
  | infinite hlarge =>
    change Rounds _ _ (Float.Model.pack (.infinity .negative)).unpack
    rw [unpack_pack_infinity]
    exact .infinite hlarge

/-! ## Products and quotients -/

theorem two_pow_le_shiftLeft {m : ℕ} (hm : 0 < m) (k : ℕ) : 2 ^ (m.log2 + k) ≤ m <<< k := by
  rw [Nat.shiftLeft_eq, pow_add]
  exact Nat.mul_le_mul_right _ (Nat.log2_self_le hm.ne')

theorem shiftLeft_lt_two_pow (m k : ℕ) : m <<< k < 2 ^ (m.log2 + k + 1) := by
  calc m <<< k = m * 2 ^ k := Nat.shiftLeft_eq m k
    _ < 2 ^ (m.log2 + 1) * 2 ^ k := Nat.mul_lt_mul_of_pos_right Nat.lt_log2_self (by positivity)
    _ = 2 ^ (m.log2 + k + 1) := by rw [← pow_add, add_right_comm]

/-- A factor of 53 bits makes a product of so many at least. -/
theorem le_log2_mul {a b : ℕ} (ha : 2 ^ 52 ≤ a) (hb : 0 < b) : 52 ≤ (a * b).log2 := by
  have hle : 2 ^ 52 ≤ a * b := ha.trans (Nat.le_mul_of_pos_right _ hb)
  exact (Nat.le_log2 (by omega)).mpr hle

theorem rounds_of_roundWithAccuracy {s : Sign} {m : ℕ} {e : ℤ} {a : Accuracy} {t : ℚ}
    (h : Describes (.ofMantissaAndAccuracy m a) t) (hbits : 52 ≤ m.log2 ∨ e ≤ -1074) :
    Rounds s (t * 2 ^ e)
      (Float.Model.pack (roundWithAccuracy Format.binary64 s m e a)).unpack := by
  obtain ⟨r, E, hrounded, heq⟩ := exists_rounded (s := s) h hbits
  rw [heq]
  exact hrounded.rounds s

variable {s₁ s₂ : Sign} {m₁ m₂ : ℕ} {e₁ e₂ : ℤ}

/-- A product is rounded if one of its factors has 53 bits. -/
theorem rounds_mul (h₁ : 0 < m₁) (h₂ : 0 < m₂) (hfull : 2 ^ 52 ≤ m₁) :
    Rounds (s₁ * s₂) (m₁ * 2 ^ e₁ * (m₂ * 2 ^ e₂)) (Float.Model.pack
      (UnpackedFloat.mul Format.binary64 (.finite s₁ m₁ e₁ h₁) (.finite s₂ m₂ e₂ h₂))).unpack := by
  have hproduct : (m₁ * 2 ^ e₁ * (m₂ * 2 ^ e₂) : ℚ) = (m₁ * m₂ : ℕ) * 2 ^ (e₁ + e₂) := by
    rw [zpow_add₀ (by norm_num : (2 : ℚ) ≠ 0)]
    push_cast
    ring
  rw [hproduct]
  exact rounds_of_roundWithAccuracy (describes_exact _) (.inl (le_log2_mul hfull h₂))

/-- What a division leaves tells where the quotient is. -/
theorem describes_quotient (n : ℕ) {d : ℕ} (hd : 0 < d) :
    Describes (.ofMantissaAndAccuracy (n / d) (accuracyOfFraction (n % d) d)) ((n : ℚ) / d) := by
  have hd' : (0 : ℚ) < d := by exact_mod_cast hd
  have hquotient : (n : ℚ) / d = (n / d : ℕ) + ((n % d : ℕ) : ℚ) / d := by
    rw [div_eq_iff hd'.ne', add_mul, div_mul_cancel₀ _ hd'.ne', mul_comm]
    exact_mod_cast (Nat.div_add_mod n d).symm
  rw [hquotient, accuracyOfFraction]
  have hlt : n % d < d := Nat.mod_lt n hd
  generalize n / d = quotient
  generalize n % d = left at hlt
  split
  · next hzero =>
    rw [hzero, Nat.cast_zero, zero_div, add_zero]
    exact describes_exact quotient
  · next hne =>
    have hpos : (0 : ℚ) < left := by exact_mod_cast Nat.pos_of_ne_zero hne
    rcases lt_trichotomy (2 * left) d with hcompare | hcompare | hcompare
    · -- less than a half
      rw [compare_lt_iff_lt.mpr hcompare]
      have hhalf : (2 * left : ℚ) < d := by exact_mod_cast hcompare
      refine ⟨left / d, by positivity, ?_, iff_of_true rfl (by positivity), ?_⟩
      · rw [div_lt_iff₀ hd']
        linarith
      · change _ = (quotient : ℚ) + 0 + _
        ring
    · -- a half
      rw [compare_eq_iff_eq.mpr hcompare]
      have hhalf : (2 * left : ℚ) = d := by exact_mod_cast hcompare
      refine ⟨0, le_rfl, by norm_num, iff_of_false Bool.false_ne_true (lt_irrefl 0), ?_⟩
      change _ = (quotient : ℚ) + 1 / 2 + 0
      rw [← hhalf]
      field_simp
      ring
    · -- more than a half
      rw [compare_gt_iff_gt.mpr hcompare]
      have hhalf : (d : ℚ) < 2 * left := by exact_mod_cast hcompare
      have hone : (left : ℚ) < d := by exact_mod_cast hlt
      have hbetween : 1 / 2 < (left : ℚ) / d ∧ (left : ℚ) / d < 1 := by
        rw [lt_div_iff₀ hd', div_lt_iff₀ hd']
        constructor <;> linarith
      refine ⟨left / d - 1 / 2, by linarith, by linarith, iff_of_true rfl (by linarith), ?_⟩
      change _ = (quotient : ℚ) + 1 / 2 + _
      ring

/-- A quotient has 53 bits at least if the dividend has 53 bits more than the divisor. -/
theorem le_log2_quotient {k : ℕ} (h₁ : 0 < m₁) (h₂ : 0 < m₂) (hbits : m₂.log2 + 53 ≤ m₁.log2 + k) :
    52 ≤ ((m₁ <<< k) / m₂).log2 := by
  have hquotient : 2 ^ 52 ≤ (m₁ <<< k) / m₂ := by
    rw [Nat.le_div_iff_mul_le h₂]
    calc 2 ^ 52 * m₂ ≤ 2 ^ 52 * 2 ^ (m₂.log2 + 1) := Nat.mul_le_mul_left _ Nat.lt_log2_self.le
      _ = 2 ^ (m₂.log2 + 53) := by rw [← pow_add, add_comm 52, add_assoc]
      _ ≤ 2 ^ (m₁.log2 + k) := Nat.pow_le_pow_right (by decide) hbits
      _ ≤ m₁ <<< k := two_pow_le_shiftLeft h₁ k
  exact (Nat.le_log2 (by omega)).mpr hquotient

/-- A quotient has enough bits, whatever is divided. -/
theorem exists_divCore (e₁ e₂ : ℤ) (h₁ : 0 < m₁) (h₂ : 0 < m₂) :
    ∃ k : ℕ, divCore Format.binary64 m₁ e₁ m₂ e₂ =
        ((m₁ <<< k) / m₂, e₁ - e₂ - k, accuracyOfFraction ((m₁ <<< k) % m₂) m₂) ∧
      (52 ≤ ((m₁ <<< k) / m₂).log2 ∨ e₁ - e₂ - k ≤ -1074) := by
  let target := Format.binary64.targetExponent (totalExponent m₁ e₁ - totalExponent m₂ e₂)
  have htarget : target = max (totalExponent m₁ e₁ - totalExponent m₂ e₂ - 53) (-1074) :=
    targetExponent_eq _
  have hshift : e₁ - e₂ - ((e₁ - e₂ - min (e₁ - e₂) target).toNat : ℤ) = min (e₁ - e₂) target := by
    omega
  refine ⟨(e₁ - e₂ - min (e₁ - e₂) target).toNat, ?_, ?_⟩
  · rw [hshift]
    rfl
  · by_cases hmin : min (e₁ - e₂) target ≤ -1074
    · exact .inr (hshift.trans_le hmin)
    · refine .inl (le_log2_quotient h₁ h₂ ?_)
      rw [totalExponent, totalExponent] at htarget
      omega

/-- A quotient is rounded. -/
theorem rounds_div (h₁ : 0 < m₁) (h₂ : 0 < m₂) :
    Rounds (s₁ / s₂) (m₁ * 2 ^ e₁ / (m₂ * 2 ^ e₂)) (Float.Model.pack
      (UnpackedFloat.div Format.binary64 (.finite s₁ m₁ e₁ h₁) (.finite s₂ m₂ e₂ h₂))).unpack := by
  obtain ⟨k, hcore, hbits⟩ := exists_divCore e₁ e₂ h₁ h₂
  have hquotient : (m₁ * 2 ^ e₁ / (m₂ * 2 ^ e₂) : ℚ) = (m₁ <<< k : ℕ) / m₂ * 2 ^ (e₁ - e₂ - k) := by
    rw [Nat.shiftLeft_eq, zpow_sub₀ (by norm_num : (2 : ℚ) ≠ 0),
      zpow_sub₀ (by norm_num : (2 : ℚ) ≠ 0), zpow_natCast]
    push_cast
    field_simp
  rw [hquotient, UnpackedFloat.div, hcore]
  exact rounds_of_roundWithAccuracy (describes_quotient _ h₂) hbits

end Dialogue.Double
