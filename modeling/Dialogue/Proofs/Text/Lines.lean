import Dialogue.Text.Lines

/-!
# Texts of one line

A text is of one line when it holds no line ending. Lines that are written one after the other, a
line feed behind each, are split into the same lines again (`splitLines_flatMap`), with an empty
line behind the last line feed. Of two texts with a line feed between them each is split on its own
(`splitLines_append`), unless a carriage return at the end of the first one takes the line feed.
Each line of a text is of one line (`oneLine_of_mem_splitLines`).
-/

namespace Dialogue.Text

/-- The text holds no line ending. -/
def OneLine (cs : List Char) : Prop := '\n' ∉ cs ∧ '\r' ∉ cs

instance (cs : List Char) : Decidable (OneLine cs) := inferInstanceAs (Decidable (_ ∧ _))

@[simp] theorem oneLine_nil : OneLine [] := by decide

@[simp] theorem oneLine_append {a b : List Char} : OneLine (a ++ b) ↔ OneLine a ∧ OneLine b := by
  simp only [OneLine, List.mem_append, not_or]
  constructor
  · rintro ⟨⟨ha, hb⟩, ha', hb'⟩
    exact ⟨⟨ha, ha'⟩, hb, hb'⟩
  · rintro ⟨⟨ha, ha'⟩, hb, hb'⟩
    exact ⟨⟨ha, hb⟩, ha', hb'⟩

@[simp] theorem oneLine_cons {c : Char} {cs : List Char} :
    OneLine (c :: cs) ↔ (c ≠ '\n' ∧ c ≠ '\r') ∧ OneLine cs := by
  simp only [OneLine, List.mem_cons, not_or, ne_comm]
  constructor
  · rintro ⟨⟨hc, hcs⟩, hc', hcs'⟩
    exact ⟨⟨hc, hc'⟩, hcs, hcs'⟩
  · rintro ⟨⟨hc, hc'⟩, hcs, hcs'⟩
    exact ⟨⟨hc, hcs⟩, hc', hcs'⟩

/-- Where a text has no carriage returns it is left as it is. -/
theorem unifyNewlines_append {cs : List Char} (h : '\r' ∉ cs) (more : List Char) :
    unifyNewlines (cs ++ more) = cs ++ unifyNewlines more := by
  induction cs with
  | nil => rfl
  | cons c cs ih =>
    obtain ⟨hc, hcs⟩ := not_or.1 (mt List.mem_cons.2 h)
    rw [List.cons_append, unifyNewlines, ih hcs, if_neg (Ne.symm hc), List.cons_append]
    exact fun _ heq => absurd heq.symm hc

theorem unifyNewlines_eq_self {cs : List Char} (h : '\r' ∉ cs) : unifyNewlines cs = cs := by
  have happend := unifyNewlines_append h []
  rwa [unifyNewlines, List.append_nil] at happend

/-- The lines of two texts with a line feed between them. -/
theorem splitLines_append {cs : List Char} (h : '\r' ∉ cs) (more : List Char) :
    splitLines (cs ++ '\n' :: more) = splitLines cs ++ splitLines more := by
  rw [splitLines, unifyNewlines_append h, splitLines, unifyNewlines_eq_self h, splitLines]
  exact List.splitOn_append_cons_self cs (unifyNewlines more)

/-- **Lines are split where they were joined.** -/
theorem splitLines_flatMap {lines : List (List Char)} (h : ∀ line ∈ lines, OneLine line) :
    splitLines (lines.flatMap fun line => line ++ ['\n']) = lines ++ [[]] := by
  have hreturn : '\r' ∉ lines.flatMap fun line => line ++ ['\n'] := by
    intro hmem
    obtain ⟨line, hline, hmem⟩ := List.mem_flatMap.1 hmem
    have := (h line hline).2
    simp_all
  -- Without carriage returns splitting is splitting at the line feeds.
  rw [splitLines, unifyNewlines_eq_self hreturn]
  clear hreturn
  induction lines with
  | nil => rfl
  | cons line lines ih =>
    obtain ⟨hline, hlines⟩ := List.forall_mem_cons.1 h
    rw [List.flatMap_cons, List.append_assoc, List.singleton_append,
      List.splitOn_append_cons_self_of_not_mem hline.1, ih hlines, List.cons_append]

/-! ## The lines of a text -/

theorem not_mem_unifyNewlines (cs : List Char) : '\r' ∉ unifyNewlines cs := by
  induction cs using unifyNewlines.induct with
  | case1 => exact List.not_mem_nil
  | case2 cs ih =>
    rw [unifyNewlines, List.mem_cons, not_or]
    exact ⟨by decide, ih⟩
  | case3 c cs hpair ih =>
    have hcons : unifyNewlines (c :: cs) = (if c = '\r' then '\n' else c) :: unifyNewlines cs := by
      rw [unifyNewlines]
      exact hpair
    rw [hcons, List.mem_cons, not_or]
    refine ⟨?_, ih⟩
    split
    · decide
    · next hc => exact Ne.symm hc

/-- The pieces of a text have their characters from it, and none at which it is split. -/
theorem mem_of_mem_splitOnP {p : Char → Bool} {cs piece : List Char} (h : piece ∈ cs.splitOnP p) :
    ∀ c ∈ piece, c ∈ cs ∧ p c = false := by
  induction cs generalizing piece with
  | nil =>
    intro c hc
    cases List.mem_singleton.mp h
    cases hc
  | cons d cs ih =>
    rw [List.splitOnP_cons_eq_if_modifyHead] at h
    intro c hc
    split at h
    · rcases List.mem_cons.mp h with rfl | h
      · cases hc
      · exact (ih h c hc).imp_left (List.mem_cons_of_mem d)
    · next hd =>
      cases hsplit : cs.splitOnP p with
      | nil =>
        rw [hsplit] at h
        cases h
      | cons first rest =>
        rw [hsplit] at h ih
        rcases List.mem_cons.mp h with rfl | h
        · rcases List.mem_cons.mp hc with rfl | hc
          · exact ⟨List.mem_cons_self, Bool.eq_false_iff.mpr hd⟩
          · exact (ih List.mem_cons_self c hc).imp_left (List.mem_cons_of_mem d)
        · exact (ih (List.mem_cons_of_mem _ h) c hc).imp_left (List.mem_cons_of_mem d)

/-- **The lines of a text hold no line ending.** -/
theorem oneLine_of_mem_splitLines {cs line : List Char} (h : line ∈ splitLines cs) :
    OneLine line := by
  constructor
  · intro hmem
    obtain ⟨-, hfeed⟩ := mem_of_mem_splitOnP h '\n' hmem
    cases hfeed
  · intro hmem
    exact not_mem_unifyNewlines cs (mem_of_mem_splitOnP h '\r' hmem).1

/-- A part of a line is of one line. -/
theorem OneLine.of_subset {a b : List Char} (h : OneLine b) (hsub : a ⊆ b) : OneLine a :=
  ⟨fun hmem => h.1 (hsub hmem), fun hmem => h.2 (hsub hmem)⟩

end Dialogue.Text
