import Dialogue.Proofs.Script.Spans
import Dialogue.Proofs.Script.Taking
import Dialogue.Proofs.Script.Written

/-!
# Scripts are read as they were written

Nodes that can be written are read back from their script, up to spans.

## Structure

* **Steps** (`Step.takes_render`, `Step.takes_renderAll`). The lines of a step are taken in by any
  body without an open choice, and push the step up to its spans. The statement is about every body,
  so it can be used inside of a branch, where the innermost open branch takes the step.
* **Choices** (`takes_choice`). Between the first line and the blank one the choice is open, and
  every line belongs to it.
* **Nodes and scripts** (`takes_nodes`, `ofText_renderScript`). Between two nodes no body is open,
  and the graph holds the nodes so far.
-/

namespace Dialogue

variable {numeral : Float → List Char} {g : Graph}

/-! ## Pushing steps -/

namespace BodyDraft

/-- The body with some more steps, pushed one after the other. -/
def pushAll (b : BodyDraft) (steps : List Step) : BodyDraft := steps.foldl push b

@[simp] theorem choice_push (b : BodyDraft) (s : Step) : (b.push s).choice = b.choice := by
  unfold push
  split <;> rfl

@[simp] theorem choice_pushAll (b : BodyDraft) (steps : List Step) :
    (b.pushAll steps).choice = b.choice := by
  induction steps generalizing b with
  | nil => rfl
  | cons s rest ih => exact (ih (b.push s)).trans (choice_push b s)

/-- Outside of branches the steps go to the body. -/
theorem pushAll_of_branches_eq_nil {b : BodyDraft} (h : b.branches = []) (steps : List Step) :
    b.pushAll steps = { b with steps := steps.reverse ++ b.steps } := by
  induction steps generalizing b with
  | nil => rfl
  | cons s rest ih =>
    have hpush : b.push s = { b with steps := s :: b.steps } := by rw [push, h]
    show (b.push s).pushAll rest = _
    rw [ih (b := b.push s) (by rw [hpush]; exact h), hpush]
    simp

/-- Inside of a branch the steps go to its current arm. -/
theorem pushAll_of_branches_eq_cons {b : BodyDraft} {top : BranchDraft} {outer : List BranchDraft}
    (h : b.branches = top :: outer) (steps : List Step) :
    b.pushAll steps = { b with branches := steps.foldl BranchDraft.push top :: outer } := by
  induction steps generalizing b top with
  | nil =>
    show b = { b with branches := top :: outer }
    rw [← h]
  | cons s rest ih =>
    have hpush : b.push s = { b with branches := top.push s :: outer } := by rw [push, h]
    show (b.push s).pushAll rest = _
    rw [hpush, ih rfl]
    rfl

end BodyDraft

namespace BranchDraft

theorem foldl_push_then {b : BranchDraft} (h : b.inElse = false) (steps : List Step) :
    steps.foldl push b = { b with thenSteps := steps.reverse ++ b.thenSteps } := by
  induction steps generalizing b with
  | nil => rfl
  | cons s rest ih =>
    have hpush : b.push s = { b with thenSteps := s :: b.thenSteps } := by simp [push, h]
    rw [List.foldl_cons, ih (b := b.push s) (by rw [hpush]; exact h), hpush]
    simp

theorem foldl_push_else {b : BranchDraft} (h : b.inElse = true) (steps : List Step) :
    steps.foldl push b = { b with elseSteps := steps.reverse ++ b.elseSteps } := by
  induction steps generalizing b with
  | nil => rfl
  | cons s rest ih =>
    have hpush : b.push s = { b with elseSteps := s :: b.elseSteps } := by simp [push, h]
    rw [List.foldl_cons, ih (b := b.push s) (by rw [hpush]; exact h), hpush]
    simp

end BranchDraft

/-! ## Choices -/

namespace ChoiceDraft

@[simp] theorem shorter_none (limit : Option Float) : shorter none limit = limit := rfl

@[simp] theorem shorter_self (limit : Option Float) : shorter limit limit = limit := by
  cases limit <;> simp [shorter]

end ChoiceDraft

namespace BodyDraft

variable {b : BodyDraft} {c : ChoiceDraft} {e : Entry} {timeLimit : Option Float}

/-- The commands under an entry are taken in one by one. -/
theorem takes_commands {commands : List Command} (h : ∀ c ∈ commands, c.Printable numeral)
    {entries : List Entry} (hchoice : b.choice = some c) (hentries : c.entries = e :: entries)
    (number : Nat) :
    (⟨g, .body b⟩ : Draft).Takes number
      (commands.map fun c => List.replicate 4 ' ' ++ commandLine (c.render numeral))
      ⟨g, .body { b with choice := some { c with
        entries := { e with commands := e.commands ++ commands } :: entries } }⟩ := by
  induction commands generalizing b c e number with
  | nil =>
    have hb : ({ b with choice := some { c with
        entries := { e with commands := e.commands ++ [] } :: entries } } : BodyDraft) = b := by
      rw [List.append_nil, ← hentries, ← hchoice]
    rw [hb]
    exact .nil _ _
  | cons command commands ih =>
    obtain ⟨hcommand, hcommands⟩ := List.forall_mem_cons.1 h
    have hadd : c.addCommand command =
        { c with entries := { e with commands := e.commands ++ [command] } :: entries } := by
      rw [ChoiceDraft.addCommand, hentries]
    refine .cons (readLine_optionCommand hchoice hcommand number) ?_
    have hrest := ih hcommands (b := { b with choice := some (c.addCommand command) }) rfl
      (by rw [hadd]) (number + 1)
    simpa [hadd] using hrest

/-- Behind the line of an entry come its commands. -/
theorem takes_entry_of_readLine (h : e.Printable numeral) {span : Span} {number : Nat}
    (hline : (⟨g, .body b⟩ : Draft).readLine number
        ('-' :: '>' :: e.behindArrow numeral timeLimit) =
      .ok ⟨g, .body { b with
        choice := some (c.withEntry timeLimit { e with commands := [], span := span }) }⟩) :
    (⟨g, .body b⟩ : Draft).Takes number (e.render numeral timeLimit)
      ⟨g, .body { b with choice := some (c.withEntry timeLimit { e with span := span }) }⟩ := by
  rw [Entry.render_eq]
  refine .cons hline ?_
  exact takes_commands (c := c.withEntry timeLimit { e with commands := [], span := span })
    h.commands rfl rfl (number + 1)

/-- The further entries of a choice all have the time limit of the first one. -/
theorem takes_entries (htime : ∀ t ∈ timeLimit, Denotes (numeral t) t ∧ 0 ≤ t)
    {entries : List Entry} (h : ∀ e ∈ entries, e.Printable numeral)
    (hchoice : b.choice = some c) (hlimit : c.timeLimit = timeLimit) (number : Nat) :
    ∃ read : List Entry, read.map Entry.eraseSpans = entries.map Entry.eraseSpans ∧
      (⟨g, .body b⟩ : Draft).Takes number (entries.flatMap (Entry.render numeral timeLimit))
        ⟨g, .body { b with choice := some { c with entries := read.reverse ++ c.entries } }⟩ := by
  induction entries generalizing b c number with
  | nil =>
    refine ⟨[], rfl, ?_⟩
    have hb : ({ b with
        choice := some { c with entries := [].reverse ++ c.entries } } : BodyDraft) = b := by
      show { b with choice := some c } = b
      rw [← hchoice]
    rw [hb]
    exact .nil _ _
  | cons e entries ih =>
    obtain ⟨he, hentries⟩ := List.forall_mem_cons.1 h
    obtain ⟨span, hline⟩ := readLine_nextEntry hchoice he htime number
    have hentry := takes_entry_of_readLine he hline
    obtain ⟨read, hread, hrest⟩ := ih hentries
      (b := { b with choice := some (c.withEntry timeLimit { e with span := span }) }) rfl
      (by simp [ChoiceDraft.withEntry, hlimit]) (number + (e.render numeral timeLimit).length)
    refine ⟨{ e with span := span } :: read, ?_, ?_⟩
    · simp [hread, Entry.eraseSpans]
    · rw [List.flatMap_cons]
      have htaken := hentry.append hrest
      simpa [ChoiceDraft.withEntry, hlimit] using htaken

/-- **Choices.** The lines of a choice push the choice. -/
theorem takes_choice {c : Choice} (h : c.Printable numeral) (hchoice : b.choice = none)
    (number : Nat) :
    ∃ read : Choice, read.eraseSpans = c.eraseSpans ∧
      (⟨g, .body b⟩ : Draft).Takes number (c.render numeral)
        ⟨g, .body (b.push (.choice read))⟩ := by
  obtain ⟨e, entries, hentries⟩ := List.exists_cons_of_ne_nil h.entries_ne_nil
  obtain ⟨he, hrest⟩ := List.forall_mem_cons.1 (hentries ▸ h.entries)
  obtain ⟨span, hline⟩ := readLine_entry (g := g) hchoice he h.timeLimit number
  have hfirst := takes_entry_of_readLine he hline
  -- The draft behind the first entry, and the one behind all of them.
  let first : ChoiceDraft := .withEntry ⟨span, [], none⟩ c.timeLimit { e with span := span }
  obtain ⟨read, hread, hmore⟩ := takes_entries (g := g) (b := { b with choice := some first })
    h.timeLimit hrest rfl rfl (number + (e.render numeral c.timeLimit).length)
  let last : ChoiceDraft := { first with entries := read.reverse ++ first.entries }
  have hblank (k : Nat) := Draft.Takes.single
    (readLine_blank (g := g) (b := { b with choice := some last }) rfl k)
  have hclose : last.close = .choice ⟨{ e with span := span } :: read, c.timeLimit, 0, span⟩ := by
    simp [last, first, ChoiceDraft.close, ChoiceDraft.withEntry]
  have hb : { b with choice := none } = b := by rw [← hchoice]
  refine ⟨⟨{ e with span := span } :: read, c.timeLimit, 0, span⟩, ?_, ?_⟩
  · simp [Choice.eraseSpans, hread, hentries, Entry.eraseSpans, h.defaultOption]
  · rw [Choice.render, hentries, List.flatMap_cons, List.append_assoc, ← hclose]
    have htaken := hfirst.append (hmore.append (hblank _))
    rwa [hb] at htaken

end BodyDraft

/-! ## Steps -/

/-- The lines of a branch, when the lines of its arms push their steps. -/
theorem BodyDraft.takes_branch {condition : List Char} (hcondition : Text.Trimmed condition)
    {thenLines elseLines : List (List Char)} {thenSteps elseSteps : List Step} {b : BodyDraft}
    (hchoice : b.choice = none)
    (hthen : ∀ {b : BodyDraft}, b.choice = none → ∀ number, ∃ read : List Step,
      read.map Step.eraseSpans = thenSteps.map Step.eraseSpans ∧
        (⟨g, .body b⟩ : Draft).Takes number thenLines ⟨g, .body (b.pushAll read)⟩)
    (helse : ∀ {b : BodyDraft}, b.choice = none → ∀ number, ∃ read : List Step,
      read.map Step.eraseSpans = elseSteps.map Step.eraseSpans ∧
        (⟨g, .body b⟩ : Draft).Takes number elseLines ⟨g, .body (b.pushAll read)⟩)
    (number : Nat) :
    ∃ (readThen readElse : List Step) (span : Span),
      readThen.map Step.eraseSpans = thenSteps.map Step.eraseSpans ∧
      readElse.map Step.eraseSpans = elseSteps.map Step.eraseSpans ∧
      (⟨g, .body b⟩ : Draft).Takes number
        (commandLine ("if ".toList ++ condition) :: thenLines ++
          commandLine "else".toList :: elseLines ++ [commandLine "endif".toList])
        ⟨g, .body (b.push (.branch (String.ofList condition) readThen readElse span))⟩ := by
  let span := lineSpan number (commandLine ("if ".toList ++ condition))
  have hopen := BodyDraft.readLine_opener (g := g) number hchoice hcondition
  -- The first arm goes to the branch just opened.
  obtain ⟨readThen, hreadThen, htakenThen⟩ :=
    hthen (b := b.openBranch condition span) hchoice (number + 1)
  let top : BranchDraft := ⟨String.ofList condition, span, readThen.reverse, [], false⟩
  have hpushThen : (b.openBranch condition span).pushAll readThen =
      { b with branches := top :: b.branches } := by
    rw [pushAll_of_branches_eq_cons rfl, BranchDraft.foldl_push_then rfl, List.append_nil]
    rfl
  rw [hpushThen] at htakenThen
  have helseLine (k : Nat) := readLine_else (g := g)
    (b := { b with branches := top :: b.branches }) k hchoice rfl
  -- The second arm goes to the same branch.
  obtain ⟨readElse, hreadElse, htakenElse⟩ :=
    helse (b := { b with branches := { top with inElse := true } :: b.branches }) hchoice
      (number + 1 + thenLines.length + 1)
  let both : BranchDraft := { top with inElse := true, elseSteps := readElse.reverse }
  have hpushElse :
      ({ b with branches := { top with inElse := true } :: b.branches } : BodyDraft).pushAll
        readElse = { b with branches := both :: b.branches } := by
    rw [pushAll_of_branches_eq_cons rfl, BranchDraft.foldl_push_else rfl, List.append_nil]
  rw [hpushElse] at htakenElse
  have hendif (k : Nat) := Draft.Takes.single (readLine_endif (g := g)
    (b := { b with branches := both :: b.branches }) k hchoice rfl)
  have hclose : both.close = .branch (String.ofList condition) readThen readElse span := by
    simp [both, top, BranchDraft.close]
  refine ⟨readThen, readElse, span, hreadThen, hreadElse, ?_⟩
  rw [← hclose, List.append_assoc]
  exact .cons hopen (htakenThen.append (.cons (helseLine _) (htakenElse.append (hendif _))))

mutual
/-- **Steps.** The lines of a step push the step. -/
theorem Step.takes_render : (s : Step) → s.Printable numeral → ∀ {b : BodyDraft},
    b.choice = none → ∀ number, ∃ read : Step, read.eraseSpans = s.eraseSpans ∧
      (⟨g, .body b⟩ : Draft).Takes number (s.render numeral) ⟨g, .body (b.push read)⟩
  | .line text span, h, b, hchoice, number => by
    have hline := BodyDraft.readLine_spoken (g := g) number hchoice h
    rw [String.ofList_toList] at hline
    exact ⟨.line text (lineSpan number text.toList), rfl, .single hline⟩
  | .choice c, h, b, hchoice, number => by
    obtain ⟨read, hread, htaken⟩ := BodyDraft.takes_choice (g := g) h hchoice number
    exact ⟨.choice read, congrArg Step.choice hread, htaken⟩
  | .command c span, h, b, hchoice, number =>
    ⟨.command c (lineSpan number (commandLine (c.render numeral))), rfl,
      .single (BodyDraft.readLine_command number hchoice h)⟩
  | .branch condition thenSteps elseSteps span, h, b, hchoice, number => by
    obtain ⟨hcondition, hthen, helse⟩ := h
    obtain ⟨readThen, readElse, span', hreadThen, hreadElse, htaken⟩ :=
      BodyDraft.takes_branch (g := g) hcondition.trimmed hchoice
        (Step.takes_renderAll thenSteps hthen) (Step.takes_renderAll elseSteps helse) number
    refine ⟨.branch condition readThen readElse span', ?_, ?_⟩
    · simp only [Step.eraseSpans, Step.eraseAll_eq_map, hreadThen, hreadElse]
    · rwa [String.ofList_toList] at htaken

/-- The lines of some steps push the steps. -/
theorem Step.takes_renderAll : (steps : List Step) → Step.AllPrintable numeral steps →
    ∀ {b : BodyDraft}, b.choice = none → ∀ number,
    ∃ read : List Step, read.map Step.eraseSpans = steps.map Step.eraseSpans ∧
      (⟨g, .body b⟩ : Draft).Takes number (Step.renderAll numeral steps) ⟨g, .body (b.pushAll read)⟩
  | [], _, b, _, number => ⟨[], rfl, .nil _ _⟩
  | s :: rest, h, b, hchoice, number => by
    obtain ⟨hs, hrest⟩ := h
    obtain ⟨read, hread, htaken⟩ := Step.takes_render s hs hchoice number
    obtain ⟨more, hmore, htaken'⟩ := Step.takes_renderAll rest hrest (b := b.push read)
      (by rw [BodyDraft.choice_push, hchoice]) (number + (s.render numeral).length)
    exact ⟨read :: more, by simp [hread, hmore], htaken.append htaken'⟩
end

/-! ## Nodes and scripts -/

/-- **Nodes.** The lines of a node add the node to the graph. -/
theorem Node.takes_render {n : Node} (h : n.Printable numeral) (g : Graph) (number : Nat) :
    ∃ read : Node, read.eraseSpans = n.eraseSpans ∧
      (⟨g, .outside⟩ : Draft).Takes number (n.render numeral) ⟨g.insert read, .outside⟩ := by
  let span := lineSpan number ("title: ".toList ++ n.name.toList)
  have htitle := Draft.readLine_title (g := g) h.name.trimmed h.name_ne_nil number
  rw [String.ofList_toList] at htitle
  have hfence := Draft.readLine_fence (g := g) n.name span (number + 1)
  obtain ⟨read, hread, htaken⟩ := Step.takes_renderAll (g := g) n.steps h.steps
    (b := .start n.name span) rfl (number + 1 + 1)
  have hclose (k : Nat) := Draft.Takes.single (Draft.readLine_close (g := g)
    (b := (BodyDraft.start n.name span).pushAll read) (BodyDraft.choice_pushAll _ _)
    (by rw [BodyDraft.pushAll_of_branches_eq_nil rfl]; rfl) k)
  have hnode : ((BodyDraft.start n.name span).pushAll read).toNode = ⟨n.name, read, span⟩ := by
    rw [BodyDraft.pushAll_of_branches_eq_nil rfl]
    simp [BodyDraft.toNode, BodyDraft.start]
  rw [hnode] at hclose
  refine ⟨⟨n.name, read, span⟩, ?_, ?_⟩
  · simp [Node.eraseSpans, hread]
  · exact .cons htitle (.cons hfence (htaken.append (hclose _)))

/-- The lines of some nodes add the nodes in their order. -/
theorem takes_nodes {nodes : List Node} (h : ∀ n ∈ nodes, n.Printable numeral) {g g₀ : Graph}
    (hg : g.eraseSpans = g₀.eraseSpans) (number : Nat) :
    ∃ g' : Graph, g'.eraseSpans = (nodes.foldl Graph.insert g₀).eraseSpans ∧
      (⟨g, .outside⟩ : Draft).Takes number (nodes.flatMap (Node.render numeral))
        ⟨g', .outside⟩ := by
  induction nodes generalizing g g₀ number with
  | nil => exact ⟨g, hg, .nil _ _⟩
  | cons n nodes ih =>
    obtain ⟨hn, hnodes⟩ := List.forall_mem_cons.1 h
    obtain ⟨read, hread, htaken⟩ := n.takes_render hn g number
    obtain ⟨g', hg', htaken'⟩ := ih hnodes (Graph.eraseSpans_insert_congr hg hread)
      (number + (n.render numeral).length)
    exact ⟨g', hg', htaken.append htaken'⟩

/-- **Round trip.** A script of nodes that can be written is read as the graph of these nodes, up to
spans. -/
theorem ofText_renderScript {numeral : Float → List Char} {nodes : List Node}
    (h : ∀ n ∈ nodes, n.Printable numeral) (name : String) :
    (Graph.ofText name (String.ofList (renderScript numeral nodes))).map Graph.eraseSpans =
      .ok (Graph.ofNodes nodes).eraseSpans := by
  obtain ⟨g', hg', htaken⟩ := takes_nodes h (rfl : Graph.empty.eraseSpans = _) 1
  have hread : Draft.start.readLines 1 ((Text.splitLines (renderScript numeral nodes)).map
      String.ofList) = .ok ⟨g', .outside⟩ := by
    rw [splitLines_renderScript h]
    exact htaken.append (.single (Draft.readLine_blank_outside _))
  rw [Graph.ofText, Graph.ofSource]
  simp only [Source.ofText, String.toList_ofList, hread]
  exact congrArg Except.ok hg'

/-- A node with every kind of step: two choices in a row inside of a branch, with a condition, a
time limit and commands, and lines in front of and behind them. -/
def marketNode : Node :=
  ⟨"Market", [
    .line "  Good morning!" .erased,
    .branch "gold >= 2" [
        .choice ⟨[⟨"Buy", some "!sold", [.set "sold" (.bool true), .jump "Home"], .erased⟩,
          ⟨"", none, [], .erased⟩], some 2.5, 0, .erased⟩,
        .choice ⟨[⟨"Leave", none, [], .erased⟩], none, 0, .erased⟩]
      [.branch "" [] [.command (.set "mood" (.string "else >>")) .erased] .erased] .erased,
    .command (.set "gold" (.number 1.5)) .erased], .erased⟩

theorem ofText_renderScript_marketNode :
    (∀ n ∈ [marketNode], n.Printable fun x => (floatText x).toList) ∧
      (Graph.ofText "market" (String.ofList
          (renderScript (fun x => (floatText x).toList) [marketNode]))).map Graph.eraseSpans =
        .ok (Graph.ofNodes [marketNode]).eraseSpans :=
  ⟨by decide +kernel, ofText_renderScript (by decide +kernel) "market"⟩

/-! ## Texts that are not read as they are

Of a label, a condition and the name of a variable, the blanks at the ends are not read, and a line
ending ends the line, so none of the conditions on these texts can be left out.
-/

/-- A node with one step. -/
def Node.ofStep (s : Step) : Node := ⟨"A", [s], .erased⟩

/-- A choice with one entry without commands. -/
def Step.ofEntry (label : String) (condition : Option String) : Step :=
  .choice ⟨[⟨label, condition, [], .erased⟩], none, 0, .erased⟩

/-- The script of a node is read as the node, up to spans. -/
def Node.ReadsBack (n : Node) : Prop :=
  (Graph.ofText "script" (String.ofList (renderScript (fun x => (floatText x).toList) [n]))).map
    Graph.eraseSpans = .ok (Graph.ofNodes [n]).eraseSpans

/-- The texts of the entries of a graph and the names of the variables it sets, branches aside. -/
def Graph.texts (g : Graph) : List String :=
  g.toList.flatMap fun n => n.steps.flatMap fun
    | .choice c => c.entries.flatMap fun e => e.text :: e.condition.toList
    | .command (.set name _) _ => [name]
    | _ => []

theorem not_readsBack_of_blanks_or_line_feed :
    ¬ (Node.ofStep (.ofEntry " x" none)).ReadsBack ∧
      ¬ (Node.ofStep (.ofEntry "x\ny" none)).ReadsBack ∧
      ¬ (Node.ofStep (.ofEntry "x" (some " y"))).ReadsBack ∧
      ¬ (Node.ofStep (.command (.set "x\ny" (.bool true)) .erased)).ReadsBack := by
  -- The texts of the graph that is read differ from those of the node.
  refine ⟨fun h => ?_, fun h => ?_, fun h => ?_, fun h => ?_⟩ <;>
    exact absurd (congrArg (fun read => read.toOption.map Graph.texts) h) (by decide +kernel)

end Dialogue
