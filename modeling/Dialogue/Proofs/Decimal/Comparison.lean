import Mathlib.Data.Int.Order.Basic
import Mathlib.Data.Prod.Lex
import Mathlib.Order.Compare

/-!
# Comparing numbers

Numbers are doubles, and no comparison with what is not a number is true. So the larger side of a
comparison that is true is a number (`isNumber_of_le`), which is how the program makes sure of it:
where it compares, it need not ask.

Numbers are in a linear order but for the two zeros, which are equal and yet told apart. The order
is that of their ranks (`compare_eq_some`), so what is known of a linear order is known of numbers:
any two of them are comparable (`le_of_not_lt`), and comparisons can be chained (`le_trans`), those
for equality too (`beq_trans`).
-/

namespace Dialogue.Decimal

open Float.Model

/-! ## Ranks -/

/-- The place of a number among the others: first the sign, which the infinities overdo, then the
exponent, then the mantissa, both of them turned round for numbers below zero. -/
def rank : UnpackedFloat → ℤ ×ₗ ℤ ×ₗ ℤ
  | .infinity .negative => toLex (-2, toLex (0, 0))
  | .finite .negative mantissa exponent _ => toLex (-1, toLex (-exponent, -mantissa))
  | .zero _ => toLex (0, toLex (0, 0))
  | .notANumber => toLex (0, toLex (0, 0))
  | .finite .positive mantissa exponent _ => toLex (1, toLex (exponent, mantissa))
  | .infinity .positive => toLex (2, toLex (0, 0))

theorem compare_natCast (m n : ℕ) : compare (m : ℤ) (n : ℤ) = compare m n := by
  rcases Nat.lt_trichotomy m n with h | rfl | h
  · rw [compare_lt_iff_lt.mpr h, compare_lt_iff_lt.mpr (Int.ofNat_lt.mpr h)]
  · rw [compare_eq_iff_eq.mpr rfl, compare_eq_iff_eq.mpr rfl]
  · rw [compare_gt_iff_gt.mpr h, compare_gt_iff_gt.mpr (Int.ofNat_lt.mpr h)]

theorem compare_neg (m n : ℤ) : compare (-m) (-n) = (compare m n).swap := by
  rcases Int.lt_trichotomy m n with h | rfl | h
  · rw [compare_lt_iff_lt.mpr h, compare_gt_iff_gt.mpr (Int.neg_lt_neg h)]
    rfl
  · rw [compare_eq_iff_eq.mpr rfl, compare_eq_iff_eq.mpr rfl]
    rfl
  · rw [compare_gt_iff_gt.mpr h, compare_lt_iff_lt.mpr (Int.neg_lt_neg h)]
    rfl

/-- Numbers are compared by their ranks. -/
theorem compare_eq_some {a b : UnpackedFloat} (ha : a.isNaN = false) (hb : b.isNaN = false) :
    a.compare b = some (compare (rank a) (rank b)) := by
  rcases a with ⟨_ | _⟩ | _ | _ | ⟨_ | _, m, e, hm⟩ <;>
    rcases b with ⟨_ | _⟩ | _ | _ | ⟨_ | _, n, f, hn⟩ <;>
    first | rfl | (cases ha; done) | (cases hb; done) | skip
  case finite.negative.finite.negative =>
    have hranks : compare (rank (.finite .negative m e hm)) (rank (.finite .negative n f hn)) =
        (compare (-e) (-f)).then (compare (-(m : ℤ)) (-(n : ℤ))) := rfl
    rw [hranks, compare_neg, compare_neg, compare_natCast, ← Ordering.swap_then]
    rfl
  case finite.positive.finite.positive =>
    have hranks : compare (rank (.finite .positive m e hm)) (rank (.finite .positive n f hn)) =
        (compare e f).then (compare (m : ℤ) (n : ℤ)) := rfl
    rw [hranks, compare_natCast]
    rfl

/-! ## Comparisons of unpacked numbers -/

/-- What is not a number has nothing below it. -/
theorem unpacked_isNumber_of_le {a b : UnpackedFloat} (h : a.le b = true) : b.isNaN = false := by
  cases b with
  | notANumber => cases a <;> cases h
  | zero sign => rfl
  | infinity sign => rfl
  | finite sign exponent mantissa => rfl

/-- What is not a number has nothing above it. -/
theorem unpacked_isNumber_of_le_left {a b : UnpackedFloat} (h : a.le b = true) :
    a.isNaN = false := by
  cases a with
  | notANumber => cases b <;> cases h
  | zero sign => rfl
  | infinity sign => rfl
  | finite sign exponent mantissa => rfl

theorem unpacked_le_iff {a b : UnpackedFloat} (ha : a.isNaN = false) (hb : b.isNaN = false) :
    a.le b = true ↔ rank a ≤ rank b := by
  rw [UnpackedFloat.le, compare_eq_some ha hb, Option.any_some]
  exact Ordering.isLE_iff_ne_gt.trans compare_le_iff_le

theorem unpacked_lt_iff {a b : UnpackedFloat} (ha : a.isNaN = false) (hb : b.isNaN = false) :
    a.lt b = true ↔ rank a < rank b := by
  rw [UnpackedFloat.lt, compare_eq_some ha hb, beq_iff_eq, Option.some_inj, compare_lt_iff_lt]

/-! ## Comparisons of numbers -/

theorem isNumber_of_le {x y : Float} (h : x ≤ y) : y.isNaN = false := by
  have hmodel : x.toModel.le y.toModel = true := of_decide_eq_true h
  exact unpacked_isNumber_of_le hmodel

theorem isNumber_of_le_left {x y : Float} (h : x ≤ y) : x.isNaN = false := by
  have hmodel : x.toModel.le y.toModel = true := of_decide_eq_true h
  exact unpacked_isNumber_of_le_left hmodel

/-- Numbers are ordered by their ranks. -/
theorem le_iff_rank_le {x y : Float} (hx : x.isNaN = false) (hy : y.isNaN = false) :
    x ≤ y ↔ rank x.toModel.unpack ≤ rank y.toModel.unpack :=
  ⟨fun h => (unpacked_le_iff hx hy).mp (of_decide_eq_true h),
    fun h => decide_eq_true ((unpacked_le_iff hx hy).mpr h)⟩

theorem lt_iff_rank_lt {x y : Float} (hx : x.isNaN = false) (hy : y.isNaN = false) :
    x < y ↔ rank x.toModel.unpack < rank y.toModel.unpack :=
  ⟨fun h => (unpacked_lt_iff hx hy).mp (of_decide_eq_true h),
    fun h => decide_eq_true ((unpacked_lt_iff hx hy).mpr h)⟩

theorem le_of_lt {x y : Float} (h : x < y) : x ≤ y := by
  have hlt : x.toModel.lt y.toModel = true := of_decide_eq_true h
  rw [Float.Model.lt, UnpackedFloat.lt, beq_iff_eq] at hlt
  have hle : x.toModel.le y.toModel = true := by
    rw [Float.Model.le, UnpackedFloat.le, hlt]
    rfl
  exact decide_eq_true hle

theorem le_refl {x : Float} (hx : x.isNaN = false) : x ≤ x :=
  (le_iff_rank_le hx hx).mpr le_rfl

/-- Comparisons can be chained. Their sides are numbers since they are true. -/
theorem le_trans {x y z : Float} (hxy : x ≤ y) (hyz : y ≤ z) : x ≤ z := by
  have hx := isNumber_of_le_left hxy
  have hy := isNumber_of_le hxy
  have hz := isNumber_of_le hyz
  rw [le_iff_rank_le hx hy] at hxy
  rw [le_iff_rank_le hy hz] at hyz
  rw [le_iff_rank_le hx hz]
  exact Trans.trans hxy hyz

/-- A number is equal to itself. -/
theorem beq_self {x : Float} (hx : x.isNaN = false) : (x == x) = true := by
  show (x.toModel.unpack.compare x.toModel.unpack == some .eq) = true
  rw [compare_eq_some hx hx, compare_eq_iff_eq.mpr rfl]
  rfl

/-- What is not a number is equal to nothing. -/
theorem isNumber_of_unpacked_beq {a b : UnpackedFloat} (h : a.compare b = some .eq) :
    a.isNaN = false ∧ b.isNaN = false := by
  cases a with
  | notANumber => cases h
  | zero | infinity | finite =>
    cases b with
    | notANumber => cases h
    | zero | infinity | finite => exact ⟨rfl, rfl⟩

/-- Two numbers are equal when they have the same rank. -/
theorem beq_eq_true_iff {x y : Float} :
    (x == y) = true ↔
      x.isNaN = false ∧ y.isNaN = false ∧ rank x.toModel.unpack = rank y.toModel.unpack := by
  have hmodel : (x == y) = (x.toModel.unpack.compare y.toModel.unpack == some .eq) := rfl
  rw [hmodel, beq_iff_eq]
  constructor
  · intro h
    obtain ⟨hx, hy⟩ := isNumber_of_unpacked_beq h
    rw [compare_eq_some hx hy, Option.some_inj, compare_eq_iff_eq] at h
    exact ⟨hx, hy, h⟩
  · rintro ⟨hx, hy, heq⟩
    rw [compare_eq_some hx hy, Option.some_inj, compare_eq_iff_eq]
    exact heq

theorem beq_comm (x y : Float) : (x == y) = (y == x) := by
  rw [Bool.eq_iff_iff, beq_eq_true_iff, beq_eq_true_iff]
  constructor
  · rintro ⟨hx, hy, heq⟩
    exact ⟨hy, hx, heq.symm⟩
  · rintro ⟨hy, hx, heq⟩
    exact ⟨hx, hy, heq.symm⟩

theorem beq_trans {x y z : Float} (hxy : (x == y) = true) (hyz : (y == z) = true) :
    (x == z) = true := by
  obtain ⟨hx, -, heq⟩ := beq_eq_true_iff.mp hxy
  obtain ⟨-, hz, heq'⟩ := beq_eq_true_iff.mp hyz
  exact beq_eq_true_iff.mpr ⟨hx, hz, heq.trans heq'⟩

theorem isNumber_of_isFinite {x : Float} (h : x.isFinite = true) : x.isNaN = false := by
  have hmodel : x.toModel.unpack.isFinite = true := h
  show x.toModel.unpack.isNaN = false
  cases hx : x.toModel.unpack with
  | notANumber =>
    rw [hx] at hmodel
    cases hmodel
  | _ => rfl

/-- Any two numbers are comparable. -/
theorem le_of_not_lt {x y : Float} (hx : x.isNaN = false) (hy : y.isNaN = false) (h : ¬ x < y) :
    y ≤ x := by
  rw [lt_iff_rank_lt hx hy] at h
  rw [le_iff_rank_le hy hx]
  exact not_lt.mp h

end Dialogue.Decimal
