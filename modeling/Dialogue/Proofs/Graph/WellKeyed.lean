import Dialogue.Proofs.Outcome
import Dialogue.Script.Draft

/-!
# Well-keyed graphs

A graph is *well-keyed* when every node stands under the folded form of its own name. In such a
graph the name that a node gives itself finds the node again (`WellKeyed.get?_name`), so a cursor
may keep the name and look the node up whenever it needs it.

Graphs that are built by insertion are well-keyed (`wellKeyed_empty`, `WellKeyed.insert`), and so is
every graph that is read from a script (`wellKeyed_of_ofText`): reading only ever inserts.
-/

namespace Dialogue

/-! ## Entries and look-ups -/

/-- What a look-up finds stands in the table. -/
theorem NameTable.mem_of_find? {α : Type} {t : NameTable α} {k : String} {v : α}
    (h : t.find? k = some v) : (k, v) ∈ t.entries := by
  obtain ⟨before, after, heq, -⟩ := List.lookup_eq_some_iff.mp h
  rw [heq]
  exact List.mem_append_right _ List.mem_cons_self

namespace Graph

/-- Every node stands under the folded form of its own name. -/
def WellKeyed (g : Graph) : Prop := ∀ e ∈ g.nodes.entries, e.1 = foldName e.2.name

instance (g : Graph) : Decidable g.WellKeyed := inferInstanceAs (Decidable (∀ e ∈ _, _))

/-- The name that a node gives itself finds the node again. -/
theorem WellKeyed.get?_name {g : Graph} (hg : g.WellKeyed) {name : String} {n : Node}
    (h : g.get? name = some n) : g.get? n.name = some n := by
  have hkey : foldName name = foldName n.name := hg _ (NameTable.mem_of_find? h)
  rw [get?, ← hkey]
  exact h

/-! ## Building a graph -/

theorem wellKeyed_empty : empty.WellKeyed := by
  intro e he
  simp [empty, NameTable.empty] at he

theorem WellKeyed.insert {g : Graph} (hg : g.WellKeyed) (n : Node) : (g.insert n).WellKeyed := by
  intro e he
  rcases NameTable.mem_insertInto he with rfl | he
  · rfl
  · exact hg e he

end Graph

/-! ## Reading a graph

Every part of the reader either leaves the graph of a draft as it is or inserts a node. -/

namespace Draft

theorem wellKeyed_closeNode {d d' : Draft} {fault : ScriptFault} (hd : d.graph.WellKeyed)
    (h : d.closeNode fault = .ok d') : d'.graph.WellKeyed := by
  unfold closeNode at h
  split at h
  · cases h
    exact hd
  · cases h
    exact hd.insert _
  · split at h
    · cases h
      exact hd.insert _
    · cases h

theorem wellKeyed_readSettled {d d' : Draft} {number : Nat} {line : List Char}
    (hd : d.graph.WellKeyed) (h : d.readSettled number line = .ok d') : d'.graph.WellKeyed := by
  unfold readSettled at h
  dsimp only at h
  split at h
  · -- a title closes the node before it
    unfold readTitle at h
    split at h
    · cases h
    · next closed hclosed =>
      split at h
      · cases h
      · -- The header of the next node does not touch the graph.
        cases h
        have hgraph : closed.graph.WellKeyed := wellKeyed_closeNode hd hclosed
        exact hgraph
  · split at h
    · exact wellKeyed_closeNode hd h
    · split at h
      · unfold readFence at h
        split at h <;> cases h <;> exact hd
      · split at h
        · split at h
          · cases h
            exact hd
          · obtain ⟨b, -, rfl⟩ := Outcome.map_eq_ok_iff.mp h
            exact hd
        · cases h
          exact hd

theorem settle_graph (d : Draft) : d.settle.graph = d.graph := by
  unfold settle
  split <;> rfl

theorem wellKeyed_readLine {d d' : Draft} {number : Nat} {line : List Char}
    (hd : d.graph.WellKeyed) (h : d.readLine number line = .ok d') : d'.graph.WellKeyed := by
  unfold readLine at h
  split at h
  · split at h
    · exact wellKeyed_readSettled hd h
    · split at h
      · cases h
      · cases h
        exact hd
      · exact wellKeyed_readSettled (d.settle_graph ▸ hd) h
  · exact wellKeyed_readSettled hd h

theorem wellKeyed_readLines {d d' : Draft} {number : Nat} {lines : List String}
    (hd : d.graph.WellKeyed) (h : d.readLines number lines = .ok d') : d'.graph.WellKeyed := by
  induction lines generalizing d number with
  | nil =>
    cases h
    exact hd
  | cons line rest ih =>
    rw [readLines] at h
    split at h
    · cases h
    · next d₁ hline => exact ih (wellKeyed_readLine hd hline) h

end Draft

namespace Graph

variable {name text : String} {g : Graph}

/-- The graph of a script is what its lines leave of the draft at the start, once that is
finished. -/
theorem exists_draft_of_ofText (h : ofText name text = .ok g) :
    ∃ d, Draft.start.readLines 1 (Source.ofText name text).lines = .ok d ∧ d.finish = .ok g := by
  rw [ofText, ofSource] at h
  split at h
  · cases h
  · next d hread =>
    split at h
    · cases h
    · next g' hfinish =>
      cases h
      exact ⟨d, hread, hfinish⟩

/-- **Every graph that is read from a script is well-keyed.** -/
theorem wellKeyed_of_ofText (h : ofText name text = .ok g) : g.WellKeyed := by
  obtain ⟨d, hread, hfinish⟩ := exists_draft_of_ofText h
  have hd : d.graph.WellKeyed := Draft.wellKeyed_readLines wellKeyed_empty hread
  obtain ⟨closed, hclosed, rfl⟩ := Outcome.map_eq_ok_iff.mp hfinish
  exact Draft.wellKeyed_closeNode (d.settle_graph ▸ hd) hclosed

end Graph

end Dialogue
