import Dialogue.Proofs.Decimal.Rounding

/-!
# The nearest double

`RoundsTo negative q x` says which double the number `q` is rounded to, in terms of the numbers that
doubles are and of nothing that is done to find it: no finite double is nearer to `q` than `x`, and
if another one is as near, then `x` is the one with the even mantissa. What lies half a step or more
above the largest double is rounded to no finite double. The zeros are equal as numbers, so the sign
is named on its own.

There is one such double at most, and it is the result of rounding (`Rounds.roundsTo_iff`): between
two doubles that are as near lies no other, and only one of the two neighbours has an even mantissa.
-/

namespace Dialogue.Double

open Float.Model (UnpackedFloat)
open Float.Model.UnpackedFloat (Sign)

/-- The double that the number `q` is rounded to, with the sign that it gets. -/
structure RoundsTo (negative : Bool) (q : ℚ) (x : Float) : Prop where
  finite : x.isFinite = true
  small : |q| < limit
  sign : isNegative x = negative
  nearest : ∀ y : Float, y.isFinite = true → |value x - q| ≤ |value y - q|
  even : ∀ y : Float, y.isFinite = true → |value y - q| = |value x - q| →
    value y = value x ∨ Even (mantissa x)

/-! ## Signs -/

/-- A number with a sign put before it. -/
def signed (negative : Bool) (q : ℚ) : ℚ := if negative then -q else q

def signOf (negative : Bool) : Sign := if negative then .negative else .positive

theorem apply_signOf (negative : Bool) (m : ℕ) :
    (((signOf negative).apply m : ℤ) : ℚ) = signed negative m := by
  cases negative <;> simp [signOf, signed, Sign.apply]

theorem signed_mul (negative : Bool) (a b : ℚ) :
    signed negative a * b = signed negative (a * b) := by
  cases negative <;> simp [signed]

theorem signed_signed (negative : Bool) (q : ℚ) : signed negative (signed negative q) = q := by
  cases negative <;> simp [signed]

theorem abs_signed (negative : Bool) (q : ℚ) : |signed negative q| = |q| := by
  cases negative <;> simp [signed]

/-- A sign can be moved over to the other number. -/
theorem abs_sub_signed (negative : Bool) (w q : ℚ) :
    |w - signed negative q| = |signed negative w - q| := by
  cases negative with
  | false => rfl
  | true =>
    change |w - -q| = |-w - q|
    rw [← abs_neg]
    congr 1
    ring

theorem OnSteps.signed {w : ℚ} {E : ℤ} (h : OnSteps w E) (negative : Bool) :
    OnSteps (signed negative w) E := by
  cases negative with
  | false => exact h
  | true =>
    rcases h with ⟨j, rfl⟩ | ⟨hE, hsmall⟩
    · exact .inl ⟨-j, by rw [Int.cast_neg, neg_mul]; rfl⟩
    · exact .inr ⟨hE, (abs_neg w).trans_lt hsmall⟩

namespace Rounded

variable {q w : ℚ} {r : ℕ} {E : ℤ}

/-- Distances, counted in steps. -/
theorem abs_sub_eq (a q : ℚ) (E : ℤ) : |a * 2 ^ E - q| = |a - q / 2 ^ E| * 2 ^ E := by
  have hE := two_zpow_pos E
  rw [← abs_of_pos hE, ← abs_mul, sub_mul, abs_of_pos hE, div_mul_cancel₀ q hE.ne']

theorem abs_le_multiple (h : Rounded q r E) (j : ℤ) :
    |(r : ℚ) * 2 ^ E - q| ≤ |(j : ℚ) * 2 ^ E - q| := by
  rw [abs_sub_eq, abs_sub_eq]
  exact mul_le_mul_of_nonneg_right (h.nearest.abs_le_abs j) (two_zpow_pos E).le

/-- What is small is farther away than the first multiple that is not. -/
theorem abs_lt_small (h : Rounded q r E) (hE : -1074 < E) (hw : |w| < 2 ^ 52 * 2 ^ E) :
    |(r : ℚ) * 2 ^ E - q| < |w - q| := by
  have hfull : 2 ^ 52 * 2 ^ E ≤ q := (le_div_iff₀ (two_zpow_pos E)).mp (h.full.resolve_right hE.ne')
  have hlt := (abs_lt.mp hw).2
  calc |(r : ℚ) * 2 ^ E - q| ≤ |((2 ^ 52 : ℤ) : ℚ) * 2 ^ E - q| := h.abs_le_multiple _
    _ = q - 2 ^ 52 * 2 ^ E := by
      rw [abs_sub_comm, Int.cast_pow, Int.cast_ofNat, abs_of_nonneg (sub_nonneg.mpr hfull)]
    _ < q - w := by linarith
    _ ≤ |w - q| := by
      rw [abs_sub_comm]
      exact le_abs_self _

theorem nearest_on_steps (h : Rounded q r E) (hw : OnSteps w E) :
    |(r : ℚ) * 2 ^ E - q| ≤ |w - q| := by
  rcases hw with ⟨j, rfl⟩ | ⟨hE, hsmall⟩
  · exact h.abs_le_multiple j
  · exact (h.abs_lt_small hE hsmall).le

/-- What else is nearest has an odd mantissa. -/
theorem eq_or_odd (h : Rounded q r E) (hq : 0 ≤ q) (hw : OnSteps w E)
    (heq : |w - q| = |(r : ℚ) * 2 ^ E - q|) :
    w = r * 2 ^ E ∨ Even r ∧ ∃ j : ℕ, ¬ Even j ∧ Canonical j E ∧ w = j * 2 ^ E := by
  rcases hw with ⟨j, rfl⟩ | ⟨hE, hsmall⟩
  · by_cases hne : j = r
    · exact .inl (by rw [hne, Int.cast_natCast])
    · -- The tie is between two neighbours, one of which is even.
      have hE := two_zpow_pos E
      rw [abs_sub_eq, abs_sub_eq] at heq
      have hcount := mul_right_cancel₀ hE.ne' heq
      obtain ⟨heven, hodd⟩ := h.nearest.odd_of_eq hne hcount
      have hnear : |(j : ℚ) - q / 2 ^ E| ≤ 1 / 2 := hcount.trans_le h.nearest.near
      have hnonneg : 0 ≤ j := by
        have hdiv := div_nonneg hq hE.le
        have hj : (-1 : ℚ) < j := by linarith [(abs_le.mp hnear).1]
        have hj' : -1 < j := by exact_mod_cast hj
        omega
      lift j to ℕ using hnonneg
      rw [Int.cast_natCast] at hnear
      rw [Int.even_coe_nat] at hodd
      refine .inr ⟨heven, j, hodd, ⟨?_, h.le, ?_⟩, by rw [Int.cast_natCast]⟩
      · refine lt_of_le_of_ne (le_of_near hnear (by exact_mod_cast h.lt)) ?_
        rintro rfl
        exact hodd (by decide)
      · exact h.full.imp_left fun hfull => ge_of_near hnear (by exact_mod_cast hfull)
  · exact absurd heq (h.abs_lt_small hE hsmall).ne'

end Rounded

/-! ## Rounded doubles -/

section Result

variable {x : Float} {negative : Bool} {r : ℕ} {E : ℤ}

theorem isFinite_of_rounded (hx : x.toModel.unpack = rounded (signOf negative) r E) :
    x.isFinite = true := by
  change x.toModel.unpack.isFinite = true
  rw [hx, rounded]
  split
  · rfl
  · split <;> rfl

theorem isNegative_of_rounded (hx : x.toModel.unpack = rounded (signOf negative) r E) :
    isNegative x = negative := by
  have hsign : (signOf negative == .negative) = negative := by cases negative <;> rfl
  rw [rounded] at hx
  rw [isNegative]
  split at hx
  · rw [hx]
    exact hsign
  · split at hx
    all_goals
      rw [hx]
      exact hsign

theorem value_of_rounded (hx : x.toModel.unpack = rounded (signOf negative) r E) (hr : r ≤ 2 ^ 53) :
    value x = signed negative (r * 2 ^ E) := by
  rw [rounded] at hx
  split at hx
  · next hzero =>
    rw [value_of_zero hx, hzero]
    cases negative <;> simp [signed]
  · split at hx
    · rw [value_of_finite hx, apply_signOf, signed_mul]
    · obtain rfl : r = 2 ^ 53 := by omega
      rw [value_of_finite hx, apply_signOf, signed_mul, zpow_add_one₀ (by norm_num : (2 : ℚ) ≠ 0)]
      congr 1
      push_cast
      ring

theorem even_mantissa_of_rounded (hx : x.toModel.unpack = rounded (signOf negative) r E)
    (hr : Even r) : Even (mantissa x) := by
  rw [rounded] at hx
  rw [mantissa]
  split at hx
  · rw [hx]
    exact ⟨0, rfl⟩
  · split at hx
    · rw [hx]
      exact hr
    · rw [hx]
      exact ⟨2 ^ 51, rfl⟩

end Result

/-! ## Doubles told by their numbers -/

section Told

variable {x y : Float}

/-- The mantissa of a double is that of the canonical pair of its number. -/
theorem mantissa_eq_of_abs_value (hx : x.isFinite = true) {j : ℕ} {E : ℤ} (hj : Canonical j E)
    (hpos : 0 < j) (heq : |value x| = j * 2 ^ E) : mantissa x = j := by
  rcases unpack_of_isFinite hx with ⟨s, hzero⟩ | ⟨s, m, e, hm, hfinite, hcanonical, -⟩
  · rw [value_of_zero hzero, abs_zero] at heq
    exact absurd heq (mul_pos (by exact_mod_cast hpos) (two_zpow_pos E)).ne
  · rw [abs_value_of_finite hfinite] at heq
    rw [mantissa, hfinite]
    exact (hcanonical.unique hj heq).1

/-- A finite double is told by its number and its sign. -/
theorem eq_of_value_eq (hx : x.isFinite = true) (hy : y.isFinite = true)
    (hvalue : value x = value y) (hsign : isNegative x = isNegative y) : x = y := by
  have hsigns : ∀ {s s' : Sign}, (s == .negative) = (s' == .negative) → s = s' := by
    rintro (_ | _) (_ | _) heq <;> first | rfl | exact absurd heq (by decide)
  refine eq_of_unpack_eq ?_
  have habs : |value x| = |value y| := congrArg _ hvalue
  rcases unpack_of_isFinite hx with ⟨s, hx⟩ | ⟨s, m, e, hm, hx, hcanonical, -⟩
  · rcases unpack_of_isFinite hy with ⟨s', hy⟩ | ⟨s', m', e', hm', hy, -, -⟩
    · rw [isNegative, isNegative, hx, hy] at hsign
      rw [hx, hy, hsigns hsign]
    · exact absurd (hvalue.symm.trans (value_of_zero hx)) (value_ne_zero hy)
  · rcases unpack_of_isFinite hy with ⟨s', hy⟩ | ⟨s', m', e', hm', hy, hcanonical', -⟩
    · exact absurd (hvalue.trans (value_of_zero hy)) (value_ne_zero hx)
    · rw [abs_value_of_finite hx, abs_value_of_finite hy] at habs
      obtain ⟨rfl, rfl⟩ := hcanonical.unique hcanonical' habs
      rw [isNegative, isNegative, hx, hy] at hsign
      rw [hx, hy, hsigns hsign]

end Told

/-! ## The double that is found -/

section Found

variable {x z : Float} {negative : Bool} {q : ℚ} {r : ℕ} {E : ℤ}

theorem distance_of_rounded (hx : x.toModel.unpack = rounded (signOf negative) r E)
    (h : Rounded q r E) : |value x - signed negative q| = |(r : ℚ) * 2 ^ E - q| := by
  rw [abs_sub_signed, value_of_rounded hx h.le_pow, signed_signed]

theorem nearest_of_rounded (hx : x.toModel.unpack = rounded (signOf negative) r E)
    (h : Rounded q r E) (hz : z.isFinite = true) :
    |value x - signed negative q| ≤ |value z - signed negative q| := by
  rw [distance_of_rounded hx h, abs_sub_signed]
  exact h.nearest_on_steps ((onSteps_value hz E).signed negative)

/-- Another double that is as near is the same number, or its mantissa is odd. -/
theorem tie_of_rounded (hx : x.toModel.unpack = rounded (signOf negative) r E) (h : Rounded q r E)
    (hq : 0 ≤ q) (hz : z.isFinite = true)
    (heq : |value z - signed negative q| = |value x - signed negative q|) :
    value z = value x ∨ Even r ∧ ¬ Even (mantissa z) := by
  rw [distance_of_rounded hx h, abs_sub_signed] at heq
  rcases h.eq_or_odd hq ((onSteps_value hz E).signed negative) heq with
    hsame | ⟨heven, j, hodd, hj, hvalue⟩
  · left
    rw [value_of_rounded hx h.le_pow, ← hsame, signed_signed]
  · right
    have hpos : 0 < j := Nat.pos_of_ne_zero fun hzero => hodd (hzero ▸ ⟨0, rfl⟩)
    have habs : |value z| = j * 2 ^ E := by
      rw [← abs_signed negative, hvalue,
        abs_of_nonneg (mul_nonneg (Nat.cast_nonneg j) (two_zpow_pos E).le)]
    rw [mantissa_eq_of_abs_value hz hj hpos habs]
    exact ⟨heven, hodd⟩

end Found

/-- **Rounding finds the double that a number is rounded to**, if there is one, and there is only
one. -/
theorem Rounds.roundsTo_iff {x y : Float} {negative : Bool} {q : ℚ} (hq : 0 ≤ q)
    (h : Rounds (signOf negative) q x.toModel.unpack) :
    RoundsTo negative (signed negative q) y ↔ y = x ∧ x.isFinite = true := by
  have habs : |signed negative q| = q := (abs_signed negative q).trans (abs_of_nonneg hq)
  generalize hx : x.toModel.unpack = u at h
  cases h with
  | infinite hlarge =>
    constructor
    · intro hy
      exact absurd (habs ▸ hy.small) (not_lt.mpr hlarge)
    · rintro ⟨-, hfinite⟩
      change x.toModel.unpack.isFinite = true at hfinite
      rw [hx] at hfinite
      cases hfinite
  | @finite r E hr hlt =>
    have hfinite := isFinite_of_rounded hx
    constructor
    · intro hy
      have heq : |value y - signed negative q| = |value x - signed negative q| :=
        le_antisymm (hy.nearest x hfinite) (nearest_of_rounded hx hr hy.finite)
      have hsame : value y = value x := by
        rcases tie_of_rounded hx hr hq hy.finite heq with hsame | ⟨-, hodd⟩
        · exact hsame
        · exact ((hy.even x hfinite heq.symm).resolve_right hodd).symm
      have hsign := hy.sign.trans (isNegative_of_rounded hx).symm
      exact ⟨eq_of_value_eq hy.finite hfinite hsame hsign, hfinite⟩
    · rintro ⟨rfl, -⟩
      exact {
        finite := hfinite
        small := habs.trans_lt hlt
        sign := isNegative_of_rounded hx
        nearest := fun z hz => nearest_of_rounded hx hr hz
        even := fun z hz heq => (tie_of_rounded hx hr hq hz heq).imp_right fun ⟨heven, _⟩ =>
          even_mantissa_of_rounded hx heven }

end Dialogue.Double
