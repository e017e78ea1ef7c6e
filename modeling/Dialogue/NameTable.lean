/-!
# Name tables

A table of things by name, its entries in increasing order of their names (by code points). The
order is part of the type, so two tables that answer every look-up alike are equal (`ext_find?`),
and listing a table gives every name once.

The laws are equations through the view `find?`: `find?_insert` and `find?_erase` say what a change
does to every look-up.
-/

namespace Dialogue

/-- Things by name, in increasing order of the names. -/
structure NameTable (α : Type) where
  entries : List (String × α)
  increasing : entries.Pairwise (fun a b => a.1 < b.1)

namespace NameTable

variable {α : Type}

/-! ### Changes of sorted lists -/

/-- The list with `v` under the name `k`, in its place. -/
def insertInto (k : String) (v : α) : List (String × α) → List (String × α)
  | [] => [(k, v)]
  | (j, w) :: rest =>
    if k < j then (k, v) :: (j, w) :: rest
    else if k = j then (k, v) :: rest
    else (j, w) :: insertInto k v rest

/-- The names after an insertion are the new one and the old ones. -/
theorem mem_insertInto {k : String} {v : α} {e : String × α} {l : List (String × α)}
    (h : e ∈ insertInto k v l) : e = (k, v) ∨ e ∈ l := by
  induction l with
  | nil => simpa [insertInto] using h
  | cons a rest ih =>
    obtain ⟨j, w⟩ := a
    rw [insertInto] at h
    split at h
    · simpa using h
    · split at h
      · rcases List.mem_cons.1 h with rfl | h
        · exact .inl rfl
        · exact .inr (List.mem_cons_of_mem _ h)
      · rcases List.mem_cons.1 h with rfl | h
        · exact .inr List.mem_cons_self
        · exact (ih h).imp_right (List.mem_cons_of_mem _)

theorem lt_of_not_lt_of_ne {a b : String} (h : ¬ a < b) (hne : a ≠ b) : b < a := by
  rcases Std.le_iff_lt_or_eq.1 (String.not_lt.1 h) with h | rfl
  · exact h
  · exact absurd rfl hne

/-- An insertion keeps the order of the names. -/
theorem pairwise_insertInto (k : String) (v : α) {l : List (String × α)}
    (h : l.Pairwise (fun a b => a.1 < b.1)) :
    (insertInto k v l).Pairwise (fun a b => a.1 < b.1) := by
  induction l with
  | nil => exact List.pairwise_singleton _ _
  | cons a rest ih =>
    obtain ⟨j, w⟩ := a
    have beyond : ∀ e ∈ rest, j < e.1 := fun e he => List.rel_of_pairwise_cons h he
    rw [insertInto]
    split
    · next hlt =>
      refine h.cons fun e he => ?_
      rcases List.mem_cons.1 he with rfl | he
      · exact hlt
      · exact String.lt_trans hlt (beyond e he)
    · next hlt =>
      split
      · next heq =>
        subst heq
        exact h.of_cons.cons beyond
      · next hne =>
        refine (ih h.of_cons).cons fun e he => ?_
        rcases mem_insertInto he with rfl | he
        · exact lt_of_not_lt_of_ne hlt hne
        · exact beyond e he

/-! ### Tables -/

/-- The table without entries. -/
def empty : NameTable α := ⟨[], .nil⟩

instance : Inhabited (NameTable α) := ⟨empty⟩

/-- What stands under a name. -/
def find? (t : NameTable α) (k : String) : Option α := t.entries.lookup k

/-- The table with `v` under the name `k`. -/
def insert (t : NameTable α) (k : String) (v : α) : NameTable α :=
  ⟨insertInto k v t.entries, pairwise_insertInto k v t.increasing⟩

/-- The table with nothing under the name `k`. -/
def erase (t : NameTable α) (k : String) : NameTable α :=
  ⟨t.entries.filter (fun e => e.1 != k), t.increasing.filter _⟩

/-- How many names a table holds. -/
def size (t : NameTable α) : Nat := t.entries.length

/-- The things in a table, in the order of their names. -/
def values (t : NameTable α) : List α := t.entries.map (·.2)

/-- The table of a list of named things; of two things of one name the later one counts. -/
def ofList (l : List (String × α)) : NameTable α := l.foldl (fun t e => t.insert e.1 e.2) empty

/-! ### Look-ups -/

@[simp] theorem find?_empty (k : String) : (empty : NameTable α).find? k = none := rfl

theorem lookup_insertInto (k j : String) (v : α) (l : List (String × α)) :
    (insertInto k v l).lookup j = if j = k then some v else l.lookup j := by
  induction l with
  | nil => simp only [insertInto, List.lookup_cons, List.lookup_nil]; split <;> simp_all
  | cons a rest ih =>
    obtain ⟨i, w⟩ := a
    rw [insertInto]
    split
    · simp only [List.lookup_cons]; split <;> simp_all
    · split
      · next heq => subst heq; simp only [List.lookup_cons]; split <;> simp_all
      · next hne => simp only [List.lookup_cons, ih]; split <;> grind

/-- After an insertion the new name finds the new thing, every other name what it found before. -/
theorem find?_insert (t : NameTable α) (k j : String) (v : α) :
    (t.insert k v).find? j = if j = k then some v else t.find? j :=
  lookup_insertInto k j v t.entries

theorem lookup_filter_ne (k j : String) (l : List (String × α)) :
    (l.filter (fun e => e.1 != k)).lookup j = if j = k then none else l.lookup j := by
  induction l with
  | nil => simp
  | cons a rest ih =>
    obtain ⟨i, w⟩ := a
    rw [List.filter_cons]
    split <;> grind

/-- After a removal the name finds nothing, every other name what it found before. -/
theorem find?_erase (t : NameTable α) (k j : String) :
    (t.erase k).find? j = if j = k then none else t.find? j :=
  lookup_filter_ne k j t.entries

/-! ### Extensionality -/

theorem lookup_eq_none_of_lt {k : String} {l : List (String × α)} (h : ∀ e ∈ l, k < e.1) :
    l.lookup k = none := by
  induction l with
  | nil => rfl
  | cons a rest ih =>
    obtain ⟨j, w⟩ := a
    have hne : k ≠ j := fun heq => String.lt_irrefl j (heq ▸ h _ List.mem_cons_self)
    rw [List.lookup_cons, beq_eq_false_iff_ne.2 hne]
    exact ih fun e he => h e (List.mem_cons_of_mem _ he)

/-- An ordered list finds nothing under a name before its first one. -/
theorem lookup_cons_eq_none_of_lt {i j : String} {w : α} {m : List (String × α)}
    (hm : ((j, w) :: m).Pairwise (fun a b => a.1 < b.1)) (hij : i < j) :
    ((j, w) :: m).lookup i = none := by
  refine lookup_eq_none_of_lt fun e he => ?_
  rcases List.mem_cons.1 he with rfl | he
  · exact hij
  · exact String.lt_trans hij (List.rel_of_pairwise_cons hm he)

/-- Two ordered lists that answer every look-up alike start with the same name. -/
theorem fst_eq_of_lookup_cons_eq {i j : String} {v w : α} {l m : List (String × α)}
    (hl : ((i, v) :: l).Pairwise (fun a b => a.1 < b.1))
    (hm : ((j, w) :: m).Pairwise (fun a b => a.1 < b.1))
    (h : ∀ k, ((i, v) :: l).lookup k = ((j, w) :: m).lookup k) : i = j := by
  apply Classical.byContradiction
  intro hne
  rcases Classical.em (i < j) with hlt | hlt
  · have hi := h i
    rw [List.lookup_cons_self, lookup_cons_eq_none_of_lt hm hlt] at hi
    cases hi
  · have hj := h j
    rw [List.lookup_cons_self, lookup_cons_eq_none_of_lt hl (lt_of_not_lt_of_ne hlt hne)] at hj
    cases hj

theorem eq_of_lookup_eq {l m : List (String × α)}
    (hl : l.Pairwise (fun a b => a.1 < b.1)) (hm : m.Pairwise (fun a b => a.1 < b.1))
    (h : ∀ k, l.lookup k = m.lookup k) : l = m := by
  induction l generalizing m with
  | nil =>
    cases m with
    | nil => rfl
    | cons b m =>
      obtain ⟨j, w⟩ := b
      simpa using h j
  | cons a l ih =>
    cases m with
    | nil =>
      obtain ⟨i, v⟩ := a
      simpa using h i
    | cons b m =>
      obtain ⟨i, v⟩ := a
      obtain ⟨j, w⟩ := b
      obtain rfl : i = j := fst_eq_of_lookup_cons_eq hl hm h
      obtain rfl : v = w := by simpa using h i
      congr 1
      refine ih hl.of_cons hm.of_cons fun k => ?_
      -- The first name is in neither rest, and any other is looked up there.
      rcases Classical.em (k = i) with rfl | hne
      · rw [lookup_eq_none_of_lt fun e he => List.rel_of_pairwise_cons hl he,
          lookup_eq_none_of_lt fun e he => List.rel_of_pairwise_cons hm he]
      · simpa [List.lookup_cons, beq_eq_false_iff_ne.2 hne] using h k

/-- Two tables that answer every look-up alike are equal. -/
theorem ext_find? {t u : NameTable α} (h : ∀ k, t.find? k = u.find? k) : t = u := by
  obtain ⟨l, hl⟩ := t
  obtain ⟨m, hm⟩ := u
  have := eq_of_lookup_eq hl hm h
  subst this
  rfl

end NameTable

end Dialogue
