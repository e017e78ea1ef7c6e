import Dialogue.Proofs.Script.Printable

/-!
# Written lines are lines

No line of a node that can be written holds a line ending, so splitting a written script gives the
lines back.
-/

namespace Dialogue

variable {numeral : Float → List Char}

/-! ## Commands -/

theorem Value.oneLine_setText {v : Value} (h : v.Printable numeral) :
    Text.OneLine (v.setText numeral) := by
  cases v with
  | bool b => cases b <;> simp [Value.setText]
  | number x => exact Denotes.oneLine h
  | string s =>
    have hs : Text.OneLine s.toList := h
    simp [Value.setText, hs]
  | null => exact h.elim

theorem Command.oneLine_render {c : Command} (h : c.Printable numeral) :
    Text.OneLine (c.render numeral) := by
  cases c with
  | jump target => simp [h.1.oneLine]
  | set name v => simp [h.1.oneLine, Value.oneLine_setText h.2.2.2]

theorem oneLine_commandLine {body : List Char} (h : Text.OneLine body) :
    Text.OneLine (commandLine body) := by
  simp [commandLine, h]

/-! ## Choices -/

theorem oneLine_tagText {keyword body : List Char} (hkeyword : Text.OneLine keyword)
    (hbody : Text.OneLine body) : Text.OneLine (tagText keyword body) := by
  simp [tagText, hkeyword, hbody]

theorem Entry.oneLine_of_mem_render {timeLimit : Option Float} {e : Entry} (h : e.Printable numeral)
    (htime : ∀ t ∈ timeLimit, Denotes (numeral t) t) :
    ∀ line ∈ e.render numeral timeLimit, Text.OneLine line := by
  have hif : Text.OneLine ((e.condition.map fun c => tagText ['i', 'f'] c.toList).getD []) := by
    cases hc : e.condition with
    | none => exact Text.oneLine_nil
    | some c => exact oneLine_tagText (by decide) (h.condition c hc).1.oneLine
  have htime : Text.OneLine
      ((timeLimit.map fun t => tagText ['t', 'i', 'm', 'e'] (numeral t)).getD []) := by
    cases timeLimit with
    | none => exact Text.oneLine_nil
    | some t => exact oneLine_tagText (by decide) (htime t rfl).oneLine
  intro line hline
  rcases List.mem_cons.1 hline with rfl | hline
  · -- The line of the entry: the arrow, the label and the two tags.
    simp only [Text.oneLine_append]
    exact ⟨⟨⟨by decide, h.label.oneLine⟩, hif⟩, htime⟩
  · obtain ⟨c, hc, rfl⟩ := List.mem_map.1 hline
    rw [Text.oneLine_append]
    exact ⟨by decide, oneLine_commandLine (Command.oneLine_render (h.commands c hc))⟩

theorem Choice.oneLine_of_mem_render {c : Choice} (h : c.Printable numeral) :
    ∀ line ∈ c.render numeral, Text.OneLine line := by
  intro line hline
  rcases List.mem_append.1 hline with hline | hline
  · obtain ⟨e, he, hline⟩ := List.mem_flatMap.1 hline
    exact Entry.oneLine_of_mem_render (h.entries e he) (fun t ht => (h.timeLimit t ht).1) line hline
  · rw [List.mem_singleton] at hline
    subst hline
    exact Text.oneLine_nil

/-! ## Steps and nodes -/

mutual
theorem Step.oneLine_of_mem_render : (s : Step) → s.Printable numeral →
    ∀ cs ∈ s.render numeral, Text.OneLine cs
  | .line text span, h, cs, hline => by
    rw [Step.render, List.mem_singleton] at hline
    subst hline
    exact h.oneLine
  | .choice c, h, cs, hline => Choice.oneLine_of_mem_render h cs hline
  | .command c span, h, cs, hline => by
    rw [Step.render, List.mem_singleton] at hline
    subst hline
    exact oneLine_commandLine (Command.oneLine_render h)
  | .branch condition thenSteps elseSteps span, h, cs, hline => by
    obtain ⟨hcondition, hthen, helse⟩ := h
    simp only [Step.render, List.mem_append, List.mem_cons, List.not_mem_nil, or_false] at hline
    obtain ((rfl | hline) | rfl | hline) | rfl := hline
    · exact oneLine_commandLine (Text.oneLine_append.2 ⟨by decide, hcondition.oneLine⟩)
    · exact Step.oneLine_of_mem_renderAll thenSteps hthen cs hline
    · exact oneLine_commandLine (by decide)
    · exact Step.oneLine_of_mem_renderAll elseSteps helse cs hline
    · exact oneLine_commandLine (by decide)

theorem Step.oneLine_of_mem_renderAll : (steps : List Step) → Step.AllPrintable numeral steps →
    ∀ cs ∈ Step.renderAll numeral steps, Text.OneLine cs
  | [], _, cs, hline => by cases hline
  | s :: rest, h, cs, hline => by
    rcases List.mem_append.1 hline with hline | hline
    · exact Step.oneLine_of_mem_render s h.1 cs hline
    · exact Step.oneLine_of_mem_renderAll rest h.2 cs hline
end

/-- Every line of a node that can be written is one line. -/
theorem Node.oneLine_of_mem_render {n : Node} (h : n.Printable numeral) :
    ∀ line ∈ n.render numeral, Text.OneLine line := by
  intro line hline
  simp only [Node.render, List.mem_append, List.mem_cons, List.not_mem_nil, or_false] at hline
  obtain (rfl | rfl | hline) | rfl := hline
  · exact Text.oneLine_append.2 ⟨by decide, h.name.oneLine⟩
  · decide
  · exact Step.oneLine_of_mem_renderAll n.steps h.steps line hline
  · decide

/-- The lines of a written script are the lines of its nodes and an empty one. -/
theorem splitLines_renderScript {nodes : List Node} (h : ∀ n ∈ nodes, n.Printable numeral) :
    Text.splitLines (renderScript numeral nodes) =
      nodes.flatMap (Node.render numeral) ++ [[]] := by
  have hone : ∀ line ∈ nodes.flatMap (Node.render numeral), Text.OneLine line := by
    intro line hline
    obtain ⟨n, hn, hline⟩ := List.mem_flatMap.1 hline
    exact Node.oneLine_of_mem_render (h n hn) line hline
  rw [← Text.splitLines_flatMap hone, List.flatMap_assoc]
  rfl

end Dialogue
