/-!
# Tables of character codes

A property of characters that a standard lays down is a table of inclusive ranges of code points,
in increasing order. `inRanges` searches such a table from the front and stops at the first range
that lies beyond the code, so the common low codes are answered at once.

The one law, `inRanges_iff`, says that for an ordered table stopping early loses nothing: a code is
found exactly when some range of the table holds it.
-/

namespace Dialogue.Text

/-- Whether some range of an ordered table of inclusive ranges holds the code `n`. -/
def inRanges (n : Nat) : List (Nat × Nat) → Bool
  | [] => false
  | (lo, hi) :: rest => if n < lo then false else n ≤ hi || inRanges n rest

/-- Whether the ranges of a table are non-empty, apart and increasing, none starting below
`least`. -/
def orderedFrom (least : Nat) : List (Nat × Nat) → Bool
  | [] => true
  | (lo, hi) :: rest => least ≤ lo && lo ≤ hi && orderedFrom (hi + 1) rest

/-- No range of an ordered table starts below its bound. -/
theorem le_of_mem_orderedFrom {table : List (Nat × Nat)} {least : Nat}
    (h : orderedFrom least table = true) : ∀ r ∈ table, least ≤ r.1 := by
  induction table generalizing least with
  | nil => simp
  | cons r rest ih =>
    obtain ⟨lo, hi⟩ := r
    simp only [orderedFrom, Bool.and_eq_true, decide_eq_true_eq] at h
    intro r hr
    rcases List.mem_cons.1 hr with rfl | hr
    · exact h.1.1
    · have := ih h.2 r hr
      omega

/-- In an ordered table the search finds exactly the codes that some range holds. -/
theorem inRanges_iff {table : List (Nat × Nat)} {least : Nat}
    (h : orderedFrom least table = true) (n : Nat) :
    inRanges n table = true ↔ ∃ r ∈ table, r.1 ≤ n ∧ n ≤ r.2 := by
  induction table generalizing least with
  | nil => simp [inRanges]
  | cons r rest ih =>
    obtain ⟨lo, hi⟩ := r
    simp only [orderedFrom, Bool.and_eq_true, decide_eq_true_eq] at h
    have beyond : ∀ r ∈ rest, hi + 1 ≤ r.1 := le_of_mem_orderedFrom h.2
    rw [inRanges]
    split
    · next hn =>
      constructor
      · simp
      · rintro ⟨r, hr, hle, _⟩
        rcases List.mem_cons.1 hr with rfl | hr
        · exact absurd hn (Nat.not_lt.2 hle)
        · have := beyond r hr
          omega
    · next hn =>
      rw [Bool.or_eq_true, decide_eq_true_eq, ih h.2]
      constructor
      · rintro (hle | ⟨r, hr, hin⟩)
        · exact ⟨_, List.mem_cons_self, Nat.not_lt.1 hn, hle⟩
        · exact ⟨r, List.mem_cons_of_mem _ hr, hin⟩
      · rintro ⟨r, hr, hin⟩
        rcases List.mem_cons.1 hr with rfl | hr
        · exact .inl hin.2
        · exact .inr ⟨r, hr, hin⟩

end Dialogue.Text
