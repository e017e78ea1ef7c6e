import Dialogue.Proofs.Decimal.Comparison
import Dialogue.Value

/-!
# Equality in conditions

Conditions compare a number with a text by the number that the text denotes, and two texts by their
characters. `Agrees` says the same as a relation (`looseEq_eq_true_iff`): two values agree if they
are the same text, truth value or null, or if they count as equal numbers and are not both texts.

Such an equality has one flaw, and no other: two texts may denote one number, which then agrees with
both of them, though they differ. In a chain of any other three values the ends agree like their
neighbours (`looseEq_laws`).
-/

namespace Dialogue.Value

/-- The value counts as a number that equals `x`. -/
def CountsAs (v : Value) (x : Float) : Prop := ∃ y, v.asNumber? = some y ∧ (y == x) = true

/-- Whether a value is a text. -/
def isText : Value → Bool
  | .string _ => true
  | _ => false

/-- The values are the same null, truth value or text, or they count as equal numbers and are not
both texts. -/
inductive Agrees : Value → Value → Prop
  | null : Agrees .null .null
  | bool (b : Bool) : Agrees (.bool b) (.bool b)
  | string (s : String) : Agrees (.string s) (.string s)
  | number {a b : Value} {x : Float} : a.CountsAs x → b.CountsAs x →
      (a.isText && b.isText) = false → Agrees a b

variable {a b c : Value} {x y : Float}

/-! ## Values that count as numbers -/

@[simp] theorem countsAs_number : (number x).CountsAs y ↔ (x == y) = true := by
  simp [CountsAs, asNumber?]

@[simp] theorem not_countsAs_bool {b : Bool} : ¬ (bool b).CountsAs x := by
  simp [CountsAs, asNumber?]

@[simp] theorem not_countsAs_null : ¬ null.CountsAs x := by
  simp [CountsAs, asNumber?]

/-- A value that counts as a number counts as every number that equals it. -/
theorem CountsAs.of_beq (h : a.CountsAs x) (hxy : (x == y) = true) : a.CountsAs y := by
  obtain ⟨z, hz, hzx⟩ := h
  exact ⟨z, hz, Decimal.beq_trans hzx hxy⟩

/-- A value counts as one number only. -/
theorem CountsAs.unique (hx : a.CountsAs x) (hy : a.CountsAs y) : (x == y) = true := by
  obtain ⟨z, hz, hzx⟩ := hx
  obtain ⟨z', hz', hzy⟩ := hy
  obtain rfl : z = z' := Option.some_inj.mp (hz.symm.trans hz')
  rw [Decimal.beq_comm] at hzx
  exact Decimal.beq_trans hzx hzy

/-- A value that counts as a number and is no text is a number. -/
theorem CountsAs.exists_eq_number (h : a.CountsAs x) (htext : a.isText = false) :
    ∃ z, a = .number z := by
  cases a with
  | number z => exact ⟨z, rfl⟩
  | bool b => exact absurd h not_countsAs_bool
  | null => exact absurd h not_countsAs_null
  | string s => cases htext

theorem exists_eq_string (h : a.isText = true) : ∃ s, a = .string s := by
  cases a with
  | string s => exact ⟨s, rfl⟩
  | number | bool | null => cases h

/-! ## The equality as a relation -/

/-- The comparison of what two values count as. -/
theorem countAlike_iff :
    (match a.asNumber?, b.asNumber? with
      | some x, some y => x == y
      | _, _ => false) = true ↔ ∃ x, a.CountsAs x ∧ b.CountsAs x := by
  constructor
  · intro h
    split at h
    · next x y ha hb =>
      have hy := (Decimal.beq_eq_true_iff.mp h).2.1
      exact ⟨y, ⟨x, ha, h⟩, ⟨y, hb, Decimal.beq_self hy⟩⟩
    · cases h
  · rintro ⟨z, ⟨x, ha, hxz⟩, ⟨y, hb, hyz⟩⟩
    rw [Decimal.beq_comm] at hyz
    rw [ha, hb]
    exact Decimal.beq_trans hxz hyz

theorem looseEq_eq_true_iff : a.looseEq b = true ↔ a.Agrees b := by
  constructor
  · intro h
    unfold looseEq at h
    split at h
    · exact .null
    · rw [beq_iff_eq.mp h]
      exact .string _
    · rw [beq_iff_eq.mp h]
      exact .bool _
    · next hstring _ =>
      obtain ⟨x, ha, hb⟩ := countAlike_iff.mp h
      refine .number ha hb ?_
      rw [← Bool.not_eq_true, Bool.and_eq_true]
      rintro ⟨htext, htext'⟩
      obtain ⟨s, rfl⟩ := exists_eq_string htext
      obtain ⟨t, rfl⟩ := exists_eq_string htext'
      exact hstring s t rfl rfl
  · intro h
    cases h with
    | null => rfl
    | bool b => exact beq_self_eq_true b
    | string s => exact beq_self_eq_true s
    | number ha hb htext =>
      unfold looseEq
      split
      · rfl
      · cases htext
      · exact absurd ha not_countsAs_bool
      · exact countAlike_iff.mpr ⟨_, ha, hb⟩

/-! ## The laws -/

theorem Agrees.symm (h : a.Agrees b) : b.Agrees a := by
  cases h with
  | null => exact .null
  | bool b => exact .bool b
  | string s => exact .string s
  | number ha hb htext => exact .number hb ha (by rwa [Bool.and_comm])

theorem agrees_self_iff : a.Agrees a ↔ ∀ x, a = .number x → x.isNaN = false := by
  constructor
  · rintro h x rfl
    cases h with
    | number ha _ _ => exact (Decimal.beq_eq_true_iff.mp (countsAs_number.mp ha)).1
  · intro h
    cases a with
    | null => exact .null
    | bool b => exact .bool b
    | string s => exact .string s
    | number x =>
      have hself := countsAs_number.mpr (Decimal.beq_self (h x rfl))
      exact .number hself hself rfl

/-- The ends of a chain agree, unless they are two texts with a number between them. -/
theorem Agrees.trans_or (hab : a.Agrees b) (hbc : b.Agrees c) :
    a.Agrees c ∨ ∃ s t x, a = .string s ∧ b = .number x ∧ c = .string t ∧ s ≠ t ∧
      a.CountsAs x ∧ c.CountsAs x := by
  cases hab with
  | null | bool | string => exact .inl hbc
  | @number _ _ x hax hbx htext =>
    cases hbc with
    | null => exact absurd hbx not_countsAs_null
    | bool => exact absurd hbx not_countsAs_bool
    | string => exact .inl (.number hax hbx htext)
    | number hby hcy _ =>
      have hcx := hcy.of_beq (hby.unique hbx)
      cases hac : a.isText && c.isText with
      | false => exact .inl (.number hax hcx hac)
      | true =>
        rw [Bool.and_eq_true] at hac
        obtain ⟨s, rfl⟩ := exists_eq_string hac.1
        obtain ⟨t, rfl⟩ := exists_eq_string hac.2
        obtain ⟨z, rfl⟩ := hbx.exists_eq_number htext
        by_cases hst : s = t
        · subst hst
          exact .inl (.string s)
        · have hxz := countsAs_number.mp hbx
          rw [Decimal.beq_comm] at hxz
          exact .inr ⟨s, t, z, rfl, rfl, rfl, hst, hax.of_beq hxz, hcx.of_beq hxz⟩

/-- Texts agree with every number that they denote. -/
theorem CountsAs.agrees_number (h : a.CountsAs x) : a.Agrees (.number x) := by
  obtain ⟨y, hy, hyx⟩ := h
  have hx := Decimal.beq_self (Decimal.beq_eq_true_iff.mp hyx).2.1
  exact .number ⟨y, hy, hyx⟩ (countsAs_number.mpr hx) (Bool.and_false _)

/-- **The laws of equality in conditions.** It is symmetric, and every value equals itself but for a
number that is none. It fails to be transitive in one case exactly: two different texts denote one
number. -/
theorem looseEq_laws :
    (∀ a b : Value, a.looseEq b = b.looseEq a) ∧
    (∀ a : Value, a.looseEq a = true ↔ ∀ x, a = .number x → x.isNaN = false) ∧
    ∀ a b c : Value, (a.looseEq b = true ∧ b.looseEq c = true ∧ a.looseEq c = false) ↔
      ∃ s t x, a = .string s ∧ b = .number x ∧ c = .string t ∧ s ≠ t ∧
        a.CountsAs x ∧ c.CountsAs x := by
  refine ⟨fun a b => ?_, fun a => ?_, fun a b c => ?_⟩
  · rw [Bool.eq_iff_iff, looseEq_eq_true_iff, looseEq_eq_true_iff]
    exact ⟨Agrees.symm, Agrees.symm⟩
  · rw [looseEq_eq_true_iff, agrees_self_iff]
  · rw [← Bool.not_eq_true, looseEq_eq_true_iff, looseEq_eq_true_iff, looseEq_eq_true_iff]
    constructor
    · rintro ⟨hab, hbc, hac⟩
      exact (hab.trans_or hbc).resolve_left hac
    · rintro ⟨s, t, x, rfl, rfl, rfl, hst, hs, ht⟩
      refine ⟨hs.agrees_number, ht.agrees_number.symm, fun h => ?_⟩
      cases h with
      | string => exact hst rfl
      | number _ _ htext => cases htext

/-- Two spellings of the number one. -/
example : (string "1").looseEq (.number 1) = true ∧ (number 1).looseEq (.string "1.0") = true ∧
    (string "1").looseEq (.string "1.0") = false := by
  decide +kernel

end Dialogue.Value
