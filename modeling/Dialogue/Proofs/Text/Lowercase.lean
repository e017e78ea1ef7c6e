import Dialogue.Proofs.Text.Trimmed
import Dialogue.Text.Case
import Mathlib.Data.List.Basic

/-!
# Texts in lower case

The lower-case form of a character may depend on what stands around it, and may be two characters.
Of its result neither is true: the mapping leaves it as it is, wherever it stands (`IsLower`). So
the whole mapping leaves a text as it is that it has made, although it reads the context of every
sigma anew (`lowercase_lowercase`).

The mapping also makes no blanks, so the form of a trimmed text is trimmed (`Trimmed.lowercase`).

Both rest on the table of single characters: its rows lead to codes of characters that no row moves
further, that no other rule is about, and that are not blank (`settledCode_of_row`). The table is
checked row against row, not code by code (`all_settles`).
-/

namespace Dialogue.Text

/-- The mapping leaves the character as it is, wherever it stands. -/
structure IsLower (c : Char) : Prop where
  not_sigma : c ≠ '\u03a3'
  not_dotted : c ≠ '\u0130'
  lowerChar_eq : lowerChar c = c

instance (c : Char) : Decidable (IsLower c) :=
  decidable_of_iff (c ≠ '\u03a3' ∧ c ≠ '\u0130' ∧ lowerChar c = c)
    ⟨fun ⟨h, h', h''⟩ => ⟨h, h', h''⟩, fun ⟨h, h', h''⟩ => ⟨h, h', h''⟩⟩

/-! ## The table -/

/-- The code of a character that no rule changes and that is not blank. -/
structure SettledCode (n : Nat) : Prop where
  isValidChar : n.isValidChar
  lowerCode_eq : lowerCode n lowercaseRows = n
  not_sigma : n ≠ 0x3A3
  not_dotted : n ≠ 0x130
  not_blank : inRanges n blankCodes = false

/-- A code that changes is one of the codes of a row, and changes as this row says. -/
theorem exists_row_of_lowerCode_ne {n : Nat} {rows : List CaseRow} (h : lowerCode n rows ≠ n) :
    ∃ row ∈ rows, row.first ≤ n ∧ n ≤ row.last ∧ row.stride ∣ n - row.first ∧
      lowerCode n rows = n + row.up - row.down := by
  induction rows with
  | nil => exact absurd rfl h
  | cons row rest ih =>
    rw [lowerCode] at h ⊢
    split at h
    · exact absurd rfl h
    · next hfirst =>
      rw [if_neg hfirst]
      split at h
      · next hlast =>
        rw [if_pos hlast]
        split at h
        · next hstride =>
          exact ⟨row, List.mem_cons_self, Nat.le_of_not_lt hfirst, hlast,
            Nat.dvd_of_mod_eq_zero hstride, if_pos hstride⟩
        · exact absurd rfl h
      · next hlast =>
        rw [if_neg hlast]
        obtain ⟨row', hrow, hrest⟩ := ih h
        exact ⟨row', List.mem_cons_of_mem _ hrow, hrest⟩

/-- Whether the rows of an ordered table leave the codes `low, low + step, …, high` as they are. A
row does if it lies beside them, or if it moves every other code between its ends only and misses
them. -/
def leaves (low high step : Nat) : List CaseRow → Bool
  | [] => true
  | row :: rest =>
    Nat.blt high row.first ||
      (Nat.blt row.last low ||
          row.stride == 2 && (step == 2 || low == high) && (low + row.first) % 2 == 1) &&
        leaves low high step rest

theorem lowerCode_of_leaves {low high step n : Nat} {rows : List CaseRow}
    (h : leaves low high step rows = true) (hlow : low ≤ n) (hhigh : n ≤ high)
    (hstep : step ∣ n - low) : lowerCode n rows = n := by
  induction rows with
  | nil => rfl
  | cons row rest ih =>
    simp only [leaves, Nat.blt_eq, Bool.or_eq_true, Bool.and_eq_true, beq_iff_eq] at h
    rw [lowerCode]
    split
    · rfl
    · next hfirst =>
      obtain ⟨hrow, hrest⟩ := h.resolve_left (by omega)
      split
      · next hlast =>
        obtain ⟨⟨hstride, hsteps⟩, hodd⟩ := hrow.resolve_left (by omega)
        have heven : 2 ∣ n - low := by
          rcases hsteps with rfl | rfl
          · exact hstep
          · omega
        rw [hstride, if_neg (by omega)]
      · exact ih hrest

/-- What the table has to be checked for: the codes that a row leads to stay what they are. -/
def settles (row : CaseRow) : Bool :=
  let low := row.first + row.up - row.down
  let high := row.last + row.up - row.down
  Nat.ble row.down (row.first + row.up) && leaves low high row.stride lowercaseRows &&
    (Nat.blt high 0xD800 || Nat.blt 0xDFFF low && Nat.blt high 0x110000) &&
    (Nat.blt high 0x3A3 || Nat.blt 0x3A3 low) && (Nat.blt high 0x130 || Nat.blt 0x130 low) &&
    blankCodes.all fun r => Nat.blt high r.1 || Nat.blt r.2 low

theorem all_settles : lowercaseRows.all settles = true := by decide +kernel

theorem settledCode_of_row {row : CaseRow} (hrow : row ∈ lowercaseRows) {n : Nat}
    (hfirst : row.first ≤ n) (hlast : n ≤ row.last) (hstride : row.stride ∣ n - row.first) :
    SettledCode (n + row.up - row.down) := by
  have hsettles := List.all_eq_true.mp all_settles row hrow
  simp only [settles, Nat.ble_eq, Nat.blt_eq, Bool.and_eq_true, Bool.or_eq_true,
    List.all_eq_true] at hsettles
  obtain ⟨⟨⟨⟨⟨hdown, hleaves⟩, hvalid⟩, hsigma⟩, hdotted⟩, hblank⟩ := hsettles
  refine ⟨?_, lowerCode_of_leaves hleaves (by omega) (by omega) ?_, by omega, by omega, ?_⟩
  · rw [Nat.isValidChar]
    omega
  · rwa [show n + row.up - row.down - (row.first + row.up - row.down) = n - row.first by omega]
  · rw [← Bool.not_eq_true, inRanges_iff ordered_blankCodes]
    rintro ⟨r, hr, hlow, hhigh⟩
    have := hblank r hr
    omega

namespace SettledCode

variable {n : Nat}

theorem toNat_ofNat (h : SettledCode n) : (Char.ofNat n).toNat = n := by
  rw [Char.ofNat, dif_pos h.isValidChar]
  rfl

theorem isLower (h : SettledCode n) : IsLower (Char.ofNat n) where
  not_sigma heq := h.not_sigma (by rw [← h.toNat_ofNat, heq]; rfl)
  not_dotted heq := h.not_dotted (by rw [← h.toNat_ofNat, heq]; rfl)
  lowerChar_eq := by rw [lowerChar, h.toNat_ofNat, h.lowerCode_eq]

theorem isBlank (h : SettledCode n) : isBlank (Char.ofNat n) = false := by
  rw [Text.isBlank, h.toNat_ofNat]
  exact h.not_blank

end SettledCode

/-- The simple form of a character is the character itself, or the table leads to its code. -/
theorem lowerChar_eq_or_settled (c : Char) :
    lowerChar c = c ∨ ∃ n, SettledCode n ∧ lowerChar c = Char.ofNat n := by
  by_cases h : lowerCode c.toNat lowercaseRows = c.toNat
  · left
    rw [lowerChar, h, Char.ofNat_toNat]
  · right
    obtain ⟨row, hrow, hfirst, hlast, hstride, heq⟩ := exists_row_of_lowerCode_ne h
    exact ⟨_, settledCode_of_row hrow hfirst hlast hstride, congrArg Char.ofNat heq⟩

/-! ## The form of one character -/

variable {before after cs : List Char} {c d : Char}

theorem lowerAt_of_ne (hsigma : c ≠ '\u03a3') (hdotted : c ≠ '\u0130') :
    lowerAt before c after = [lowerChar c] := by
  rw [lowerAt, if_neg hsigma, if_neg hdotted]

theorem lowerAt_ne_nil (before : List Char) (c : Char) (after : List Char) :
    lowerAt before c after ≠ [] := by
  unfold lowerAt
  split
  · exact List.cons_ne_nil _ _
  · split <;> exact List.cons_ne_nil _ _

/-- **The form of a character is in lower case**: none of its characters is changed again. -/
theorem isLower_of_mem_lowerAt (h : d ∈ lowerAt before c after) : IsLower d := by
  by_cases hsigma : c = '\u03a3'
  · rw [lowerAt, if_pos hsigma, List.mem_singleton] at h
    subst h
    split <;> decide +kernel
  · by_cases hdotted : c = '\u0130'
    · rw [lowerAt, if_neg hsigma, if_pos hdotted, List.mem_pair] at h
      rcases h with rfl | rfl <;> decide +kernel
    · rw [lowerAt_of_ne hsigma hdotted, List.mem_singleton] at h
      subst h
      rcases lowerChar_eq_or_settled c with heq | ⟨n, hn, heq⟩
      · rw [heq]
        exact ⟨hsigma, hdotted, heq⟩
      · rw [heq]
        exact hn.isLower

/-- The form of a character that is not blank has no blanks. -/
theorem isBlank_of_mem_lowerAt (hc : isBlank c = false) (h : d ∈ lowerAt before c after) :
    isBlank d = false := by
  by_cases hsigma : c = '\u03a3'
  · rw [lowerAt, if_pos hsigma, List.mem_singleton] at h
    subst h
    split <;> decide
  · by_cases hdotted : c = '\u0130'
    · rw [lowerAt, if_neg hsigma, if_pos hdotted, List.mem_pair] at h
      rcases h with rfl | rfl <;> decide
    · rw [lowerAt_of_ne hsigma hdotted, List.mem_singleton] at h
      subst h
      rcases lowerChar_eq_or_settled c with heq | ⟨n, hn, heq⟩
      · rwa [heq]
      · rw [heq]
        exact hn.isBlank

theorem IsLower.lowerAt_eq (h : IsLower c) : lowerAt before c after = [c] := by
  rw [lowerAt_of_ne h.not_sigma h.not_dotted, h.lowerChar_eq]

/-! ## The form of a text -/

theorem isLower_of_mem_lowercaseAfter (h : d ∈ lowercaseAfter before cs) : IsLower d := by
  induction cs generalizing before with
  | nil => cases h
  | cons c after ih =>
    rw [lowercaseAfter, List.mem_append] at h
    rcases h with h | h
    · exact isLower_of_mem_lowerAt h
    · exact ih h

theorem lowercaseAfter_eq_self (h : ∀ c ∈ cs, IsLower c) : lowercaseAfter before cs = cs := by
  induction cs generalizing before with
  | nil => rfl
  | cons c after ih =>
    rw [lowercaseAfter, (h c List.mem_cons_self).lowerAt_eq,
      ih fun d hd => h d (List.mem_cons_of_mem _ hd)]
    rfl

/-- **The lower-case form of a text is in lower case.** -/
theorem lowercase_lowercase (cs : List Char) : lowercase (lowercase cs) = lowercase cs :=
  lowercaseAfter_eq_self fun _ h => isLower_of_mem_lowercaseAfter h

/-- The first character of the form belongs to the form of the first character. -/
theorem exists_of_mem_head?_lowercaseAfter (h : d ∈ (lowercaseAfter before cs).head?) :
    ∃ c ∈ cs.head?, ∃ before after, d ∈ lowerAt before c after := by
  cases cs with
  | nil => cases h
  | cons c after =>
    rw [lowercaseAfter, List.head?_append_of_ne_nil _ (lowerAt_ne_nil _ _ _)] at h
    exact ⟨c, rfl, before, after, List.mem_of_mem_head? h⟩

/-- The last character of the form belongs to the form of the last character. -/
theorem exists_of_mem_getLast?_lowercaseAfter (h : d ∈ (lowercaseAfter before cs).getLast?) :
    ∃ c ∈ cs.getLast?, ∃ before after, d ∈ lowerAt before c after := by
  induction cs generalizing before with
  | nil => cases h
  | cons c after ih =>
    cases after with
    | nil =>
      rw [lowercaseAfter, lowercaseAfter, List.append_nil] at h
      exact ⟨c, rfl, before, [], List.mem_of_mem_getLast? h⟩
    | cons c' after =>
      have hne : lowercaseAfter (c :: before) (c' :: after) ≠ [] :=
        List.append_ne_nil_of_left_ne_nil (lowerAt_ne_nil _ _ _) _
      rw [lowercaseAfter, List.getLast?_append_of_ne_nil _ hne] at h
      obtain ⟨last, hlast, hmem⟩ := ih h
      exact ⟨last, by rwa [List.getLast?_cons_cons], hmem⟩

/-- The lower-case form of a trimmed text is trimmed. -/
theorem Trimmed.lowercase (h : Trimmed cs) : Trimmed (lowercase cs) := by
  obtain ⟨hhead, hlast⟩ := trim_eq_self_iff.mp h
  refine trim_eq_self_iff.mpr ⟨fun d hd => ?_, fun d hd => ?_⟩
  · obtain ⟨c, hc, _, _, hmem⟩ := exists_of_mem_head?_lowercaseAfter hd
    exact isBlank_of_mem_lowerAt (hhead c hc) hmem
  · obtain ⟨c, hc, _, _, hmem⟩ := exists_of_mem_getLast?_lowercaseAfter hd
    exact isBlank_of_mem_lowerAt (hlast c hc) hmem

end Dialogue.Text
