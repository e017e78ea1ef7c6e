import Dialogue.Script.Graph

/-!
# Scripts up to spans

Spans tell where something was read. Two graphs that differ in nothing else are equal once their
spans are erased. Erasing spans goes through every part of a graph, and takes the insertion of a
node to the insertion of the node without spans (`eraseSpans_insert`).
-/

namespace Dialogue

/-- The span that stands for no span. -/
def Span.erased : Span := ⟨0, 0, 0⟩

/-! ## Steps -/

def Entry.eraseSpans (e : Entry) : Entry := { e with span := .erased }

def Choice.eraseSpans (c : Choice) : Choice :=
  { c with entries := c.entries.map Entry.eraseSpans, span := .erased }

mutual
/-- The step without its spans. -/
def Step.eraseSpans : Step → Step
  | .line text _ => .line text .erased
  | .choice c => .choice c.eraseSpans
  | .command c _ => .command c .erased
  | .branch condition thenSteps elseSteps _ =>
    .branch condition (Step.eraseAll thenSteps) (Step.eraseAll elseSteps) .erased

/-- The steps without their spans. -/
def Step.eraseAll : List Step → List Step
  | [] => []
  | s :: rest => s.eraseSpans :: Step.eraseAll rest
end

theorem Step.eraseAll_eq_map (steps : List Step) :
    Step.eraseAll steps = steps.map Step.eraseSpans := by
  induction steps with
  | nil => rfl
  | cons s rest ih => rw [eraseAll, ih, List.map_cons]

/-! ## Nodes and graphs -/

/-- The node without its spans. -/
def Node.eraseSpans (n : Node) : Node :=
  { n with steps := n.steps.map Step.eraseSpans, span := .erased }

namespace NameTable

variable {α β : Type}

/-- The table with every thing replaced by what `f` makes of it. -/
def map (f : α → β) (t : NameTable α) : NameTable β :=
  ⟨t.entries.map fun e => (e.1, f e.2), t.increasing.map _ fun _ _ h => h⟩

theorem map_insertInto (f : α → β) (k : String) (v : α) (l : List (String × α)) :
    (insertInto k v l).map (fun e => (e.1, f e.2)) =
      insertInto k (f v) (l.map fun e => (e.1, f e.2)) := by
  induction l with
  | nil => rfl
  | cons e rest ih =>
    obtain ⟨j, w⟩ := e
    simp only [insertInto, List.map_cons]
    split
    · rfl
    · split
      · rfl
      · rw [List.map_cons, ih]

theorem map_insert (f : α → β) (k : String) (v : α) (t : NameTable α) :
    (t.insert k v).map f = (t.map f).insert k (f v) := by
  simp only [map, insert, map_insertInto]

end NameTable

namespace Graph

/-- The graph without its spans. -/
def eraseSpans (g : Graph) : Graph := ⟨g.nodes.map Node.eraseSpans⟩

/-- The graph of some nodes; of two nodes of one name the later one counts. -/
def ofNodes (nodes : List Node) : Graph := nodes.foldl insert empty

theorem eraseSpans_insert (g : Graph) (n : Node) :
    (g.insert n).eraseSpans = g.eraseSpans.insert n.eraseSpans := by
  simp only [eraseSpans, insert, NameTable.map_insert]
  rfl

/-- Inserting nodes that differ in their spans only keeps graphs that differ in spans only. -/
theorem eraseSpans_insert_congr {g h : Graph} {n m : Node} (hg : g.eraseSpans = h.eraseSpans)
    (hn : n.eraseSpans = m.eraseSpans) : (g.insert n).eraseSpans = (h.insert m).eraseSpans := by
  rw [eraseSpans_insert, eraseSpans_insert, hg, hn]

end Graph

end Dialogue
