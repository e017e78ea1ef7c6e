import Dialogue.Text.Blank
import Mathlib.Data.List.DropRight

/-!
# Trimmed texts

A text is trimmed when `trim` leaves it as it is. What is written around a trimmed text in a script
are blanks and characters that are not blank: blanks in front or behind are taken off again, and
with an end that is not blank a text stays trimmed.
-/

namespace Dialogue.Text

/-- The text has no blank at its ends. -/
def Trimmed (cs : List Char) : Prop := trim cs = cs

instance (cs : List Char) : Decidable (Trimmed cs) := inferInstanceAs (Decidable (_ = _))

theorem Trimmed.eq {cs : List Char} (h : Trimmed cs) : trim cs = cs := h

theorem isBlank_getLast {c : Char} {cs : List Char} (h : Trimmed (cs ++ [c])) : isBlank c = false :=
  (trim_eq_self_iff.1 h).2 c (by simp)

/-- A text whose first and last characters are not blank is trimmed. -/
theorem trimmed_of_ends {c d : Char} {cs : List Char} (hc : isBlank c = false)
    (hd : isBlank d = false) : Trimmed (c :: cs ++ [d]) := by
  refine trim_eq_self_iff.2 ⟨?_, ?_⟩
  · intro a ha
    cases ha
    exact hc
  · intro a ha
    rw [List.getLast?_concat, Option.mem_some_iff] at ha
    subst ha
    exact hd

/-- A text without blanks is trimmed. -/
theorem trimmed_of_not_blank {cs : List Char} (h : ∀ c ∈ cs, isBlank c = false) : Trimmed cs :=
  trim_eq_self_iff.2 ⟨fun c hc => h c (List.mem_of_mem_head? hc),
    fun c hc => h c (List.mem_of_mem_getLast? hc)⟩

/-- Behind a character that is not blank a trimmed text that holds something stays trimmed. -/
theorem Trimmed.append {c : Char} {cs t : List Char} (ht : Trimmed t) (hne : t ≠ [])
    (hc : isBlank c = false) : Trimmed (c :: cs ++ t) := by
  obtain ⟨front, d, rfl⟩ : ∃ front d, t = front ++ [d] :=
    ⟨_, _, (List.dropLast_concat_getLast hne).symm⟩
  rw [← List.append_assoc]
  exact trimmed_of_ends hc (isBlank_getLast ht)

/-- Leading blanks make no difference. -/
theorem trim_blanks_append {bs cs : List Char} (h : ∀ c ∈ bs, isBlank c = true) :
    trim (bs ++ cs) = trim cs := by
  rw [trim, trimStart, List.dropWhile_append_of_pos h, trim, trimStart]

theorem isBlank_of_mem_spaces {n : Nat} : ∀ c ∈ List.replicate n ' ', isBlank c = true := by
  intro c hc
  rw [List.eq_of_mem_replicate hc]
  decide

theorem trim_spaces_append (n : Nat) (cs : List Char) :
    trim (List.replicate n ' ' ++ cs) = trim cs :=
  trim_blanks_append isBlank_of_mem_spaces

theorem trim_space_cons (cs : List Char) : trim (' ' :: cs) = trim cs := trim_spaces_append 1 cs

/-- A space in front of a trimmed text is taken off again. -/
theorem Trimmed.trim_space_cons {cs : List Char} (h : Trimmed cs) : trim (' ' :: cs) = cs :=
  (Text.trim_space_cons cs).trans h

theorem trim_append_space (cs : List Char) : trim (cs ++ [' ']) = trim cs :=
  trim_append_of_blank (isBlank_of_mem_spaces (n := 1))

/-- What stands in front of trailing blanks and starts with no blank is kept. -/
theorem trimEnd_cons {c : Char} {cs : List Char} (hc : isBlank c = false) :
    trimEnd (c :: cs) = c :: trimEnd cs := by
  rw [trimEnd, List.reverse_cons, List.dropWhile_append]
  split
  · next h =>
    rw [List.isEmpty_iff] at h
    simp [trimEnd, h, hc]
  · simp [trimEnd]

theorem trim_cons {c : Char} {cs : List Char} (hc : isBlank c = false) :
    trim (c :: cs) = c :: trimEnd cs := by
  rw [trim, trimStart, List.dropWhile_cons_of_neg (by simp [hc]), trimEnd_cons hc]

/-- What is taken off at the end of a text are blanks. -/
theorem exists_eq_trimEnd_append (cs : List Char) :
    ∃ back, (∀ c ∈ back, isBlank c = true) ∧ cs = trimEnd cs ++ back := by
  refine ⟨(cs.reverse.takeWhile isBlank).reverse, ?_, ?_⟩
  · intro c hc
    exact List.all_eq_true.1 List.all_takeWhile c (List.mem_reverse.1 hc)
  · rw [trimEnd, ← List.reverse_append, List.takeWhile_append_dropWhile, List.reverse_reverse]

/-- What is taken off at the start of a text are blanks. -/
theorem exists_eq_append_trimStart (cs : List Char) :
    ∃ front, (∀ c ∈ front, isBlank c = true) ∧ cs = front ++ trimStart cs :=
  ⟨cs.takeWhile isBlank, List.all_eq_true.1 List.all_takeWhile,
    List.takeWhile_append_dropWhile.symm⟩

/-- Taking off the trailing blanks first makes no difference. -/
theorem trim_trimEnd (cs : List Char) : trim (trimEnd cs) = trim cs := by
  obtain ⟨back, hback, heq⟩ := exists_eq_trimEnd_append cs
  calc trim (trimEnd cs) = trim (trimEnd cs ++ back) := (trim_append_of_blank hback).symm
    _ = trim cs := by rw [← heq]

/-- Taking off the leading blanks first makes no difference. -/
theorem trim_trimStart (cs : List Char) : trim (trimStart cs) = trim cs := by
  rw [trim, trimStart, trimStart, List.dropWhile_idempotent, trim, trimStart]

/-- In front of a character that is not blank nothing is taken off at the end. -/
theorem trimEnd_append_cons {c : Char} (hc : isBlank c = false) (a b : List Char) :
    trimEnd (a ++ c :: b) = a ++ c :: trimEnd b := by
  rw [trimEnd, List.reverse_append, List.reverse_cons, List.append_assoc, List.dropWhile_append]
  split
  · next h =>
    rw [List.isEmpty_iff] at h
    simp [trimEnd, h, hc]
  · simp [trimEnd]

/-- Behind a character that is not blank nothing is taken off at the start. -/
theorem trimStart_append_cons {c : Char} (hc : isBlank c = false) (a b : List Char) :
    trimStart (a ++ c :: b) = trimStart a ++ c :: b := by
  rw [trimStart, List.dropWhile_append]
  split
  · next h =>
    rw [List.isEmpty_iff] at h
    simp [trimStart, h, hc]
  · rfl

/-! ## What trimming takes off -/

theorem trimEnd_of_trimmed_end {a t : List Char} (ht : Trimmed t) (hne : t ≠ []) :
    trimEnd (a ++ t) = a ++ t := by
  rw [trimEnd_eq_self_iff]
  intro c hc
  rw [List.getLast?_append, List.getLast?_eq_some_getLast hne, Option.some_or] at hc
  rw [← List.getLast?_eq_some_getLast hne] at hc
  exact (trim_eq_self_iff.1 ht).2 c hc

/-- In front of a trimmed text that holds something nothing is taken off at the end. -/
theorem trimEnd_append_append {t : List Char} (ht : Trimmed t) (hne : t ≠ []) (a b : List Char) :
    trimEnd (a ++ (t ++ b)) = a ++ (t ++ trimEnd b) := by
  obtain ⟨front, d, rfl⟩ : ∃ front d, t = front ++ [d] :=
    ⟨_, _, (List.dropLast_concat_getLast hne).symm⟩
  have hd := trimEnd_append_cons (isBlank_getLast ht) (a ++ front) b
  simpa using hd

theorem exists_trimStart_eq (cs : List Char) :
    ∃ back, (∀ c ∈ back, isBlank c = true) ∧ trimStart cs = trim cs ++ back :=
  exists_eq_trimEnd_append (trimStart cs)

/-- A text is what is left of it between blanks. -/
theorem exists_blanks_around_trim (cs : List Char) :
    ∃ front back, cs = front ++ (trim cs ++ back) ∧ (∀ c ∈ front, isBlank c = true) ∧
      ∀ c ∈ back, isBlank c = true := by
  obtain ⟨front, hfront, heq⟩ := exists_eq_append_trimStart cs
  obtain ⟨back, hback, hstart⟩ := exists_trimStart_eq cs
  refine ⟨front, back, ?_, hfront, hback⟩
  rw [← hstart, ← heq]

/-- A character that is not blank is left. -/
theorem mem_trim_of_mem {c : Char} {cs : List Char} (h : c ∈ cs) (hc : isBlank c = false) :
    c ∈ trim cs := by
  obtain ⟨front, back, heq, hfront, hback⟩ := exists_blanks_around_trim cs
  rw [heq, List.mem_append, List.mem_append] at h
  rcases h with h | h | h
  · rw [hfront c h] at hc
    cases hc
  · exact h
  · rw [hback c h] at hc
    cases hc

/-- At the end of a text that is not blank nothing is taken off but what follows its last character
that is not blank. -/
theorem exists_trimEnd_eq {cs : List Char} (h : trim cs ≠ []) :
    ∃ front, (∀ c ∈ front, isBlank c = true) ∧ trimEnd cs = front ++ trim cs := by
  obtain ⟨front, back, heq, hfront, hback⟩ := exists_blanks_around_trim cs
  refine ⟨front, hfront, ?_⟩
  calc trimEnd cs = trimEnd (front ++ trim cs ++ back) := by rw [List.append_assoc, ← heq]
    _ = trimEnd (front ++ trim cs) := trimEnd_append_of_blank hback
    _ = front ++ trim cs := trimEnd_of_trimmed_end (trim_trim cs) h

/-- A text of blanks is blank from either end. -/
theorem trim_eq_nil_iff {cs : List Char} : trim cs = [] ↔ ∀ c ∈ cs, isBlank c = true := by
  constructor
  · intro h c hc
    cases hblank : isBlank c with
    | true => rfl
    | false =>
      have hmem := mem_trim_of_mem hc hblank
      rw [h] at hmem
      cases hmem
  · intro h
    have hnil : trim ([] ++ cs) = trim [] := trim_append_of_blank h
    exact hnil

theorem trimStart_eq_nil_iff {cs : List Char} : trimStart cs = [] ↔ trim cs = [] := by
  rw [trim_eq_nil_iff, trimStart, List.dropWhile_eq_nil_iff]

theorem trimEnd_eq_nil_iff {cs : List Char} : trimEnd cs = [] ↔ trim cs = [] := by
  rw [trim_eq_nil_iff, trimEnd, List.reverse_eq_nil_iff, List.dropWhile_eq_nil_iff]
  simp only [List.mem_reverse]

/-! ## Cuts

A text is cut at the first character that a predicate does not hold of, or that is a given one.
-/

theorem takeWhile_append_cons {p : Char → Bool} {a : List Char} {c : Char}
    (ha : ∀ x ∈ a, p x = true) (hc : p c = false) (b : List Char) :
    (a ++ c :: b).takeWhile p = a := by
  rw [List.takeWhile_append_of_pos ha, List.takeWhile_cons_of_neg (by simp [hc]), List.append_nil]

theorem dropWhile_append_cons {p : Char → Bool} {a : List Char} {c : Char}
    (ha : ∀ x ∈ a, p x = true) (hc : p c = false) (b : List Char) :
    (a ++ c :: b).dropWhile p = c :: b := by
  rw [List.dropWhile_append_of_pos ha, List.dropWhile_cons_of_neg (by simp [hc])]

theorem bne_of_mem_of_not_mem {a : List Char} {d : Char} (h : d ∉ a) :
    ∀ x ∈ a, (x != d) = true := by
  intro x hx
  rw [bne_iff_ne]
  rintro rfl
  exact h hx

theorem takeWhile_bne_append_cons {a : List Char} {d : Char} (h : d ∉ a) (b : List Char) :
    (a ++ d :: b).takeWhile (· != d) = a :=
  takeWhile_append_cons (bne_of_mem_of_not_mem h) (by simp) b

theorem dropWhile_bne_append_cons {a : List Char} {d : Char} (h : d ∉ a) (b : List Char) :
    (a ++ d :: b).dropWhile (· != d) = d :: b :=
  dropWhile_append_cons (bne_of_mem_of_not_mem h) (by simp) b

end Dialogue.Text
