import Dialogue.Text.CodeTable

/-!
# Blanks

`isBlank` is the White_Space property of Unicode. `trim` takes the blanks off both ends of a text,
and is the composition of `trimStart` and `trimEnd`. Texts are handled as lists of characters.

A text is left as it is exactly when it has no blank at its ends (`trim_eq_self_iff`), and what
`trim` leaves is such a text (`trim_trim`). Blanks added at an end make no difference
(`trim_append_of_blank`).
-/

namespace Dialogue.Text

/-- The code points with the White_Space property. -/
def blankCodes : List (Nat × Nat) :=
  [(0x9, 0xD), (0x20, 0x20), (0x85, 0x85), (0xA0, 0xA0), (0x1680, 0x1680), (0x2000, 0x200A),
   (0x2028, 0x2029), (0x202F, 0x202F), (0x205F, 0x205F), (0x3000, 0x3000)]

/-- Whether a character is blank: it has the White_Space property. -/
def isBlank (c : Char) : Bool := inRanges c.toNat blankCodes

/-- A text without its leading blanks. -/
def trimStart (cs : List Char) : List Char := cs.dropWhile isBlank

/-- A text without its trailing blanks. -/
def trimEnd (cs : List Char) : List Char := (cs.reverse.dropWhile isBlank).reverse

/-- A text without the blanks at its two ends. -/
def trim (cs : List Char) : List Char := trimEnd (trimStart cs)

theorem ordered_blankCodes : orderedFrom 0 blankCodes = true := by decide +kernel

/-! ### One end -/

/-- Nothing is dropped exactly when the first element, if any, may stay. -/
theorem dropWhile_eq_self_iff {α : Type} {p : α → Bool} {l : List α} :
    l.dropWhile p = l ↔ ∀ a ∈ l.head?, p a = false := by
  constructor
  · intro h a ha
    have hnot := List.head?_dropWhile_not p l
    rw [h, Option.mem_def.1 ha] at hnot
    exact hnot
  · intro h
    cases l with
    | nil => rfl
    | cons a l => exact List.dropWhile_cons_of_neg (by simp [h a rfl])

theorem trimStart_eq_self_iff {cs : List Char} :
    trimStart cs = cs ↔ ∀ c ∈ cs.head?, isBlank c = false :=
  dropWhile_eq_self_iff

/-- What is left without the leading blanks starts with a character that is not blank. -/
theorem head?_trimStart_not_blank {cs : List Char} :
    ∀ c ∈ (trimStart cs).head?, isBlank c = false := by
  intro c hc
  have h := List.head?_dropWhile_not isBlank cs
  rw [← trimStart, Option.mem_def.1 hc] at h
  exact h

theorem trimEnd_eq_self_iff {cs : List Char} :
    trimEnd cs = cs ↔ ∀ c ∈ cs.getLast?, isBlank c = false := by
  rw [trimEnd, ← List.head?_reverse, ← dropWhile_eq_self_iff]
  constructor
  · intro h
    rw [← List.reverse_reverse (cs.reverse.dropWhile isBlank), h]
  · intro h
    rw [h, List.reverse_reverse]

@[simp] theorem trimEnd_trimEnd (cs : List Char) : trimEnd (trimEnd cs) = trimEnd cs := by
  refine trimEnd_eq_self_iff.2 fun c hc => ?_
  rw [trimEnd, List.getLast?_reverse] at hc
  exact head?_trimStart_not_blank c hc

/-- Trailing blanks make no difference to what is left without them. -/
theorem trimEnd_append_of_blank {cs bs : List Char} (h : ∀ c ∈ bs, isBlank c = true) :
    trimEnd (cs ++ bs) = trimEnd cs := by
  rw [trimEnd, List.reverse_append, List.dropWhile_append_of_pos, trimEnd]
  intro c hc
  exact h c (List.mem_reverse.1 hc)

/-- What is left of a text is a part of it from its start. -/
theorem trimEnd_isPrefix (cs : List Char) : trimEnd cs <+: cs := by
  have h := List.dropWhile_suffix (l := cs.reverse) isBlank
  rw [← List.reverse_prefix, List.reverse_reverse] at h
  exact h

/-! ### Both ends -/

theorem head?_trim_not_blank {cs : List Char} : ∀ c ∈ (trim cs).head?, isBlank c = false := by
  intro c hc
  obtain ⟨rest, hrest⟩ := trimEnd_isPrefix (trimStart cs)
  have hstart : c ∈ (trimStart cs).head? := by
    rw [← hrest, ← trim]
    cases ht : trim cs with
    | nil => simp [ht] at hc
    | cons d ds => simpa [ht] using hc
  exact head?_trimStart_not_blank c hstart

theorem getLast?_trim_not_blank {cs : List Char} :
    ∀ c ∈ (trim cs).getLast?, isBlank c = false :=
  trimEnd_eq_self_iff.1 (trimEnd_trimEnd _)

/-- Trimming leaves a text as it is exactly when it has no blank at its ends. -/
theorem trim_eq_self_iff {cs : List Char} :
    trim cs = cs ↔
      (∀ c ∈ cs.head?, isBlank c = false) ∧ ∀ c ∈ cs.getLast?, isBlank c = false := by
  constructor
  · intro h
    rw [← h]
    exact ⟨head?_trim_not_blank, getLast?_trim_not_blank⟩
  · rintro ⟨hh, hl⟩
    rw [trim, trimStart_eq_self_iff.2 hh, trimEnd_eq_self_iff.2 hl]

@[simp] theorem trim_trim (cs : List Char) : trim (trim cs) = trim cs :=
  trim_eq_self_iff.2 ⟨head?_trim_not_blank, getLast?_trim_not_blank⟩

@[simp] theorem trim_nil : trim [] = [] := rfl

/-- Trailing blanks make no difference to a trimmed text. -/
theorem trim_append_of_blank {cs bs : List Char} (h : ∀ c ∈ bs, isBlank c = true) :
    trim (cs ++ bs) = trim cs := by
  rw [trim, trim, trimStart, trimStart, List.dropWhile_append]
  split
  · next hnil =>
    rw [List.isEmpty_iff] at hnil
    have hbs : (bs ++ []).dropWhile isBlank = [] := List.dropWhile_append_of_pos h
    rw [List.append_nil] at hbs
    rw [hnil, hbs]
  · exact trimEnd_append_of_blank h

end Dialogue.Text
