import Dialogue.Proofs.Graph.WellKeyed
import Dialogue.Proofs.Text.Lowercase
import Dialogue.Store

/-!
# Listed names

A store lists its variables by folded names, and takes any name and folds it. A host that saves what
is listed and comes back with it relies on the listed names being their own folded forms
(`foldName_foldName`); then they address the very variables that they are listed with (`Addressed`).

Every name in a store has been folded when the variable was set, so this holds after any changes
(`addressed_after`).
-/

namespace Dialogue

/-- **The folded form of a name is its own folded form.** -/
@[simp] theorem foldName_foldName (name : String) : foldName (foldName name) = foldName name := by
  have htrim : Text.Trimmed (Text.lowercase (Text.trim name.toList)) :=
    Text.Trimmed.lowercase (Text.trim_trim _)
  simp only [foldName, String.toList_ofList, htrim.eq, Text.lowercase_lowercase]

/-- A sigma in the middle of a word and one at its end, a capital whose form is two characters, and
blanks. -/
example : foldName " ΟΔΥΣΣΕΥΣ İ " = "οδυσσευς i̇" ∧ foldName "οδυσσευς i̇" = "οδυσσευς i̇" := by
  decide +kernel

namespace NameTable

variable {α : Type} {t : NameTable α} {k : String} {v : α}

/-- An entry stands between entries of other names. -/
theorem exists_eq_append_of_mem (h : (k, v) ∈ t.entries) :
    ∃ front back, t.entries = front ++ (k, v) :: back ∧
      (∀ e ∈ front, e.1 ≠ k) ∧ ∀ e ∈ back, e.1 ≠ k := by
  obtain ⟨front, back, heq⟩ := List.append_of_mem h
  have hincreasing := t.increasing
  rw [heq, List.pairwise_append, List.pairwise_cons] at hincreasing
  obtain ⟨-, ⟨hback, -⟩, hfront⟩ := hincreasing
  refine ⟨front, back, heq, fun e he hk => ?_, fun e he hk => ?_⟩
  · have hlt : e.1 < k := hfront e he _ List.mem_cons_self
    exact String.lt_irrefl _ (hk ▸ hlt)
  · have hlt : k < e.1 := hback e he
    exact String.lt_irrefl _ (hk ▸ hlt)

theorem find?_of_mem (h : (k, v) ∈ t.entries) : t.find? k = some v := by
  obtain ⟨front, back, heq, hfront, -⟩ := exists_eq_append_of_mem h
  exact List.lookup_eq_some_iff.mpr
    ⟨front, back, heq, fun e he => bne_iff_ne.mpr (hfront e he).symm⟩

/-- Inserting an entry that is there already changes nothing. -/
theorem insert_of_mem (h : (k, v) ∈ t.entries) : t.insert k v = t := by
  refine ext_find? fun j => ?_
  rw [find?_insert]
  split
  · next hj => rw [hj, find?_of_mem h]
  · rfl

/-- Erasing the name of an entry takes this entry out and leaves all others where they are. -/
theorem exists_entries_erase_of_mem (h : (k, v) ∈ t.entries) :
    ∃ front back, t.entries = front ++ (k, v) :: back ∧ (t.erase k).entries = front ++ back := by
  obtain ⟨front, back, heq, hfront, hback⟩ := exists_eq_append_of_mem h
  refine ⟨front, back, heq, ?_⟩
  have hfilter : ∀ l : List (String × α), (∀ e ∈ l, e.1 ≠ k) → l.filter (·.1 != k) = l :=
    fun l hl => List.filter_eq_self.mpr fun e he => bne_iff_ne.mpr (hl e he)
  simp [erase, heq, hfilter front hfront, hfilter back hback]

end NameTable

namespace Store

/-- A change that a host makes to a store. -/
inductive Change where
  | set (name : String) (v : Value)
  | remove (name : String)
  | clear
  deriving DecidableEq, Repr

/-- The store after a change. -/
def apply (s : Store) : Change → Store
  | .set name v => s.set name v
  | .remove name => s.remove name
  | .clear => empty

/-- The store after some changes, made one after the other. -/
def after (s : Store) (changes : List Change) : Store := changes.foldl apply s

/-- The names that a store lists increase, and each of them addresses what it is listed with: it
finds this value, setting it to this value changes nothing, and removing it takes this entry out and
no other. -/
structure Addressed (s : Store) : Prop where
  increasing : (s.toList.map Prod.fst).Pairwise (· < ·)
  get?_eq : ∀ k v, (k, v) ∈ s.toList → s.get? k = some v
  set_eq : ∀ k v, (k, v) ∈ s.toList → s.set k v = s
  remove_eq : ∀ k v, (k, v) ∈ s.toList →
    ∃ front back, s.toList = front ++ (k, v) :: back ∧ (s.remove k).toList = front ++ back

/-- Every listed name is its own folded form. -/
def ListsFolded (s : Store) : Prop := ∀ e ∈ s.toList, foldName e.1 = e.1

theorem listsFolded_empty : empty.ListsFolded := by
  intro e he
  cases he

theorem ListsFolded.apply {s : Store} (hs : s.ListsFolded) (change : Change) :
    (s.apply change).ListsFolded := by
  cases change with
  | set name v =>
    intro e he
    rcases NameTable.mem_insertInto he with rfl | he
    · exact foldName_foldName name
    · exact hs e he
  | remove name => exact fun e he => hs e (List.mem_of_mem_filter he)
  | clear => exact listsFolded_empty

theorem ListsFolded.after {s : Store} (hs : s.ListsFolded) (changes : List Change) :
    (s.after changes).ListsFolded := by
  induction changes generalizing s with
  | nil => exact hs
  | cons change rest ih => exact ih (hs.apply change)

theorem ListsFolded.addressed {s : Store} (hs : s.ListsFolded) : s.Addressed where
  increasing := List.pairwise_map.mpr s.table.increasing
  get?_eq k v h := by
    rw [get?, hs _ h]
    exact NameTable.find?_of_mem h
  set_eq k v h := by
    rw [set, hs _ h]
    exact congrArg Store.mk (NameTable.insert_of_mem h)
  remove_eq k v h := by
    rw [remove, hs _ h]
    exact NameTable.exists_entries_erase_of_mem h

/-- **Listed names address their own variables.** Folding a name twice is folding it once, and
whatever variables have been set, removed and cleared, every name that the store lists addresses
what it is listed with. -/
theorem addressed_after :
    (∀ name, foldName (foldName name) = foldName name) ∧
      ∀ changes : List Change, (empty.after changes).Addressed :=
  ⟨foldName_foldName, fun changes => (listsFolded_empty.after changes).addressed⟩

end Store

end Dialogue
