import Dialogue.Script.Graph

/-!
# One graph over another

A graph is *overwritten* by another one when the nodes of the other are inserted into it: the result
has the nodes of both, and under a name that both have it has the node of the other. The laws are
those of the tables below. `find?_overwrite` says what a look-up finds, and `overwrite_insert` that
a node may be inserted before or after.
-/

namespace Dialogue

namespace NameTable

variable {α : Type}

/-- The table with the things of another one, which go before its own. -/
def overwrite (t u : NameTable α) : NameTable α := u.entries.foldl (fun t e => t.insert e.1 e.2) t

/-- Inserting a list of things in the order of their names, a look-up finds what stands in the list,
or else what it found before. -/
theorem find?_foldl_insert (t : NameTable α) {l : List (String × α)}
    (h : l.Pairwise (fun a b => a.1 < b.1)) (k : String) :
    (l.foldl (fun t e => t.insert e.1 e.2) t).find? k = (l.lookup k).or (t.find? k) := by
  induction l generalizing t with
  | nil => rfl
  | cons e rest ih =>
    obtain ⟨j, v⟩ := e
    rw [List.foldl_cons, ih (t.insert j v) h.of_cons, find?_insert, List.lookup_cons]
    by_cases hk : k = j
    · subst hk
      -- The name comes once only, so what is inserted later does not replace it.
      have hrest : rest.lookup k = none :=
        lookup_eq_none_of_lt fun e he => List.rel_of_pairwise_cons h he
      rw [hrest, if_pos rfl, BEq.rfl]
      rfl
    · rw [if_neg hk, beq_eq_false_iff_ne.mpr hk]

/-- A look-up finds what the other table has, or else what the table had. -/
theorem find?_overwrite (t u : NameTable α) (k : String) :
    (t.overwrite u).find? k = (u.find? k).or (t.find? k) :=
  find?_foldl_insert t u.increasing k

theorem overwrite_insert (t u : NameTable α) (k : String) (v : α) :
    t.overwrite (u.insert k v) = (t.overwrite u).insert k v := by
  apply ext_find?
  intro j
  rw [find?_overwrite, find?_insert, find?_insert, find?_overwrite]
  by_cases hj : j = k
  · rw [if_pos hj, if_pos hj]
    rfl
  · rw [if_neg hj, if_neg hj]

end NameTable

namespace Graph

/-- The graph with the nodes of another one, which go before its own. -/
def overwrite (g h : Graph) : Graph := ⟨g.nodes.overwrite h.nodes⟩

/-- A name finds the node of the other graph, or else the node of the graph itself. -/
theorem get?_overwrite (g h : Graph) (name : String) :
    (g.overwrite h).get? name = (h.get? name).or (g.get? name) :=
  g.nodes.find?_overwrite h.nodes (foldName name)

theorem overwrite_insert (g h : Graph) (n : Node) :
    g.overwrite (h.insert n) = (g.overwrite h).insert n :=
  congrArg Graph.mk (g.nodes.overwrite_insert h.nodes (foldName n.name) n)

end Graph

end Dialogue
