import Dialogue.Proofs.Text.Lines
import Dialogue.Proofs.Text.Trimmed
import Dialogue.Value

/-!
# Numerals of a number

How a number is written in a script is left to the caller, who has to give a numeral that denotes
the number: `Denotes cs x`. A numeral holds digits, signs, points and the letter of a power only
(`isNumeralChar_of_denotes`), so it is trimmed, of one line, and neither a word nor a quoted text.
-/

namespace Dialogue

namespace Decimal

/-- The characters of numerals. -/
def isNumeralChar (c : Char) : Bool := c.isDigit || ['+', '-', '.', 'e', 'E'].contains c

theorem isNumeralChar_of_isDigit {c : Char} (h : c.isDigit = true) : isNumeralChar c = true := by
  simp [isNumeralChar, h]

/-- A numeral has no blanks in it: digits stand behind the first blanks of the table and before the
others. -/
theorem isBlank_of_isNumeralChar {c : Char} (h : isNumeralChar c = true) :
    Text.isBlank c = false := by
  rcases Bool.or_eq_true_iff.1 h with hdigit | hother
  · obtain ⟨hlow, hhigh⟩ : 48 ≤ c.toNat ∧ c.toNat ≤ 57 := by
      simpa [Char.isDigit, UInt32.le_iff_toNat_le] using hdigit
    simp only [Text.isBlank, Text.blankCodes, Text.inRanges]
    grind
  · obtain rfl | rfl | rfl | rfl | rfl : c = '+' ∨ c = '-' ∨ c = '.' ∨ c = 'e' ∨ c = 'E' := by
      simpa using hother
    all_goals decide

/-- A numeral does not look like a word: in lower case its characters are digits, signs, points and
the letter of a power. -/
theorem toLower_of_isNumeralChar {c : Char} (h : isNumeralChar c = true) :
    c.toLower ≠ 't' ∧ c.toLower ≠ 'f' := by
  rcases Bool.or_eq_true_iff.1 h with hdigit | hother
  · have hcapital : ¬ (c.val ≥ 'A'.val ∧ c.val ≤ 'Z'.val) := by
      simp only [Char.isDigit, Bool.and_eq_true, decide_eq_true_eq, UInt32.le_iff_toNat_le,
        ge_iff_le] at hdigit ⊢
      have hnine : '9'.val.toNat < 'A'.val.toNat := by decide
      omega
    rw [show c.toLower = c from dif_neg hcapital]
    constructor <;> rintro rfl <;> exact absurd hdigit (by decide)
  · obtain rfl | rfl | rfl | rfl | rfl : c = '+' ∨ c = '-' ∨ c = '.' ∨ c = 'e' ∨ c = 'E' := by
      simpa using hother
    all_goals decide

/-! ## The characters of a numeral -/

theorem isNumeralChar_of_mem_digits {c : Char} {cs : List Char} (h : c ∈ digits cs) :
    isNumeralChar c = true :=
  isNumeralChar_of_isDigit (isDigit_of_mem_digits h)

/-- A character of a text is its sign or stands behind it. -/
theorem isNumeralChar_or_mem_splitSign {c : Char} {cs : List Char} (h : c ∈ cs) :
    isNumeralChar c = true ∨ c ∈ (splitSign cs).2 := by
  unfold splitSign
  split
  · rcases List.mem_cons.1 h with rfl | h
    · exact .inl (by decide)
    · exact .inr h
  · rcases List.mem_cons.1 h with rfl | h
    · exact .inl (by decide)
    · exact .inr h
  · exact .inr h

/-- A character of a text is a point or a digit of its fraction, or stands behind it. -/
theorem isNumeralChar_or_mem_splitFraction {c : Char} {cs : List Char} (h : c ∈ cs) :
    isNumeralChar c = true ∨ c ∈ (splitFraction cs).2 := by
  unfold splitFraction
  split
  · next rest =>
    rcases List.mem_cons.1 h with rfl | h
    · exact .inl (by decide)
    · rw [← digits_append_afterDigits rest, List.mem_append] at h
      exact h.imp_left isNumeralChar_of_mem_digits
  · exact .inr h

theorem isNumeralChar_of_powerOfText? {cs : List Char} {k : Int} (h : powerOfText? cs = some k) :
    ∀ c ∈ cs, isNumeralChar c = true := by
  intro c hc
  cases cs with
  | nil => cases hc
  | cons e cs =>
    rw [powerOfText?] at h
    split at h
    · next he =>
      dsimp only at h
      split at h
      · next hdigits =>
        rcases List.mem_cons.1 hc with rfl | hc
        · rcases he with rfl | rfl <;> decide
        · rcases isNumeralChar_or_mem_splitSign hc with hc | hc
          · exact hc
          · exact isNumeralChar_of_isDigit (List.all_eq_true.1 hdigits.2 c hc)
      · cases h
    · cases h

theorem isNumeralChar_of_ofText? {cs : List Char} {d : Decimal} (h : ofText? cs = some d) :
    ∀ c ∈ cs, isNumeralChar c = true := by
  intro c hc
  rw [ofText?] at h
  dsimp only at h
  split at h
  · cases h
  · obtain ⟨k, hpower, -⟩ := Option.map_eq_some_iff.1 h
    -- From the front: the sign, the digits, the fraction, the power.
    rcases isNumeralChar_or_mem_splitSign hc with hc | hc
    · exact hc
    · rw [← digits_append_afterDigits (splitSign cs).2, List.mem_append] at hc
      rcases hc with hc | hc
      · exact isNumeralChar_of_mem_digits hc
      · rcases isNumeralChar_or_mem_splitFraction hc with hc | hc
        · exact hc
        · exact isNumeralChar_of_powerOfText? hpower c hc

theorem trimmed_of_ofText? {cs : List Char} {d : Decimal} (h : ofText? cs = some d) :
    Text.Trimmed cs :=
  Text.trimmed_of_not_blank fun c hc => isBlank_of_isNumeralChar (isNumeralChar_of_ofText? h c hc)

/-- A numeral is read as a number unless it is too large for a finite one. -/
theorem readNumber?_of_ofText? {cs : List Char} {d : Decimal} (h : ofText? cs = some d) :
    readNumber? (String.ofList cs) = if d.toFloat.isFinite then some d.toFloat else none := by
  simp only [readNumber?, String.toList_ofList, (trimmed_of_ofText? h).eq, h]

end Decimal

/-! ## Numerals that denote a number -/

/-- The text is a numeral of the finite number `x`. -/
structure Denotes (cs : List Char) (x : Float) : Prop where
  reads : (Decimal.ofText? cs).map Decimal.toFloat = some x
  finite : x.isFinite = true

instance (cs : List Char) (x : Float) : Decidable (Denotes cs x) :=
  decidable_of_iff ((Decimal.ofText? cs).map Decimal.toFloat = some x ∧ x.isFinite = true)
    ⟨fun ⟨h, h'⟩ => ⟨h, h'⟩, fun ⟨h, h'⟩ => ⟨h, h'⟩⟩

namespace Denotes

open Decimal

variable {cs : List Char} {x : Float}

theorem isNumeralChar (h : Denotes cs x) : ∀ c ∈ cs, isNumeralChar c = true := by
  obtain ⟨d, hd, -⟩ := Option.map_eq_some_iff.1 h.reads
  exact isNumeralChar_of_ofText? hd

theorem not_mem (h : Denotes cs x) {c : Char} (hc : Decimal.isNumeralChar c = false) : c ∉ cs := by
  intro hmem
  rw [h.isNumeralChar c hmem] at hc
  cases hc

theorem ne_nil (h : Denotes cs x) : cs ≠ [] := by
  rintro rfl
  cases h.reads

theorem oneLine (h : Denotes cs x) : Text.OneLine cs :=
  ⟨h.not_mem (by decide), h.not_mem (by decide)⟩

theorem trimmed (h : Denotes cs x) : Text.Trimmed cs := by
  obtain ⟨d, hd, -⟩ := Option.map_eq_some_iff.1 h.reads
  exact trimmed_of_ofText? hd

theorem readNumber? (h : Denotes cs x) : Dialogue.readNumber? (String.ofList cs) = some x := by
  obtain ⟨d, hd, rfl⟩ := Option.map_eq_some_iff.1 h.reads
  rw [readNumber?_of_ofText? hd, if_pos h.finite]

end Denotes

end Dialogue
