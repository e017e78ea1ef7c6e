import Dialogue.Proofs.Graph.Overwrite
import Dialogue.Proofs.Outcome
import Dialogue.Proofs.Script.Spans
import Dialogue.Script.Draft

/-!
# Scripts moved down

The same lines further down in a script are read in the same way, but for the places that are
written down. `mapSpans` changes the spans in whatever the reader makes, and commutes with all that
it does to a draft. A draft that is moved down, and whose finished nodes lie over another graph, is
read on as if it were neither (`readLine_movedOnto`, `finish_movedOnto`): the reader never looks at
a span or at a node that is finished.
-/

namespace Dialogue

/-! ## Spans -/

/-- The span some lines further down. -/
def Span.moveDown (n : Nat) (s : Span) : Span := { s with line := .ofNat n + s.line }

theorem lineSpan_add (n number : Nat) (line : List Char) :
    lineSpan (n + number) line = (lineSpan number line).moveDown n := by
  simp only [lineSpan, Span.wholeLine, Span.between, Span.moveDown, UInt32.ofNat_add]

theorem Span.point_add (n number : Nat) (column : UInt32) :
    point (.ofNat (n + number)) column = (point (.ofNat number) column).moveDown n := by
  simp only [point, between, moveDown, UInt32.ofNat_add]

/-! ## Changing spans -/

section MapSpans

variable (f : Span → Span)

def Entry.mapSpans (e : Entry) : Entry := { e with span := f e.span }

def Choice.mapSpans (c : Choice) : Choice :=
  { c with entries := c.entries.map (Entry.mapSpans f), span := f c.span }

mutual
/-- The step with its spans changed. -/
def Step.mapSpans : Step → Step
  | .line text s => .line text (f s)
  | .choice c => .choice (c.mapSpans f)
  | .command c s => .command c (f s)
  | .branch condition thenSteps elseSteps s =>
    .branch condition (Step.mapAllSpans thenSteps) (Step.mapAllSpans elseSteps) (f s)

/-- The steps with their spans changed. -/
def Step.mapAllSpans : List Step → List Step
  | [] => []
  | s :: rest => s.mapSpans :: Step.mapAllSpans rest
end

theorem Step.mapAllSpans_eq_map (steps : List Step) :
    Step.mapAllSpans f steps = steps.map (Step.mapSpans f) := by
  induction steps with
  | nil => rfl
  | cons s rest ih => rw [mapAllSpans, ih, List.map_cons]

def Node.mapSpans (n : Node) : Node :=
  { n with steps := n.steps.map (Step.mapSpans f), span := f n.span }

def Graph.mapSpans (g : Graph) : Graph := ⟨g.nodes.map (Node.mapSpans f)⟩

theorem Graph.mapSpans_insert (g : Graph) (n : Node) :
    (g.insert n).mapSpans f = (g.mapSpans f).insert (n.mapSpans f) := by
  simp only [mapSpans, insert, NameTable.map_insert]
  rfl

/-! ### Drafts -/

def ChoiceDraft.mapSpans (c : ChoiceDraft) : ChoiceDraft :=
  { c with span := f c.span, entries := c.entries.map (Entry.mapSpans f) }

def BranchDraft.mapSpans (b : BranchDraft) : BranchDraft :=
  { b with
    span := f b.span
    thenSteps := b.thenSteps.map (Step.mapSpans f)
    elseSteps := b.elseSteps.map (Step.mapSpans f) }

def BodyDraft.mapSpans (b : BodyDraft) : BodyDraft :=
  { b with
    span := f b.span
    steps := b.steps.map (Step.mapSpans f)
    branches := b.branches.map (BranchDraft.mapSpans f)
    choice := b.choice.map (ChoiceDraft.mapSpans f) }

def Place.mapSpans : Place → Place
  | .outside => .outside
  | .header name span => .header name (f span)
  | .body b => .body (b.mapSpans f)

theorem ChoiceDraft.close_mapSpans (c : ChoiceDraft) :
    (c.mapSpans f).close = c.close.mapSpans f := by
  simp only [close, mapSpans, Step.mapSpans, Choice.mapSpans, List.map_reverse]

theorem ChoiceDraft.addCommand_mapSpans (c : ChoiceDraft) (command : Command) :
    (c.mapSpans f).addCommand command = (c.addCommand command).mapSpans f := by
  obtain ⟨span, entries, timeLimit⟩ := c
  cases entries <;> rfl

theorem BranchDraft.push_mapSpans (b : BranchDraft) (s : Step) :
    (b.mapSpans f).push (s.mapSpans f) = (b.push s).mapSpans f := by
  obtain ⟨condition, span, thenSteps, elseSteps, inElse⟩ := b
  cases inElse <;> rfl

theorem BranchDraft.close_mapSpans (b : BranchDraft) :
    (b.mapSpans f).close = b.close.mapSpans f := by
  simp only [close, mapSpans, Step.mapSpans, Step.mapAllSpans_eq_map, List.map_reverse]

namespace BodyDraft

theorem push_mapSpans (b : BodyDraft) (s : Step) :
    (b.mapSpans f).push (s.mapSpans f) = (b.push s).mapSpans f := by
  obtain ⟨name, span, steps, branches, choice⟩ := b
  cases branches with
  | nil => rfl
  | cons top outer => simp only [push, mapSpans, List.map_cons, BranchDraft.push_mapSpans]

theorem settle_mapSpans (b : BodyDraft) : (b.mapSpans f).settle = b.settle.mapSpans f := by
  cases hc : b.choice with
  | none => simp only [settle, mapSpans, hc, Option.map_none]
  | some c =>
    have hpush := push_mapSpans f { b with choice := none } c.close
    rw [← ChoiceDraft.close_mapSpans] at hpush
    simp only [settle, mapSpans, hc, Option.map_some] at hpush ⊢
    exact hpush

theorem toNode_mapSpans (b : BodyDraft) : (b.mapSpans f).toNode = b.toNode.mapSpans f := by
  simp only [toNode, mapSpans, Node.mapSpans, List.map_reverse]

end BodyDraft

end MapSpans

/-! ## Outcomes -/

/-- What reading gives, changed by `f`, with its faults some lines further down. -/
def Outcome.moveDown {α β : Type} (n : Nat) (f : α → β) :
    Except PlacedFault α → Except PlacedFault β
  | .ok a => .ok (f a)
  | .error (e, span) => .error (e, span.moveDown n)

variable (n : Nat)

/-! ## Reading bodies -/

namespace BodyDraft

theorem readEntry_add (number : Nat) (before rest : List Char) :
    readEntry (n + number) before rest = Outcome.moveDown n id (readEntry number before rest) := by
  rw [readEntry, readEntry]
  cases EntryText.ofText rest with
  | ok e => rfl
  | error e => simp only [Outcome.moveDown, Span.point_add]

theorem readOptionCommand_add (number : Nat) (line body : List Char) :
    readOptionCommand (n + number) line body =
      Outcome.moveDown n id (readOptionCommand number line body) := by
  rw [readOptionCommand, readOptionCommand, lineSpan_add]
  split
  · rfl
  · split <;> rfl

theorem readInChoice_mapSpans (b : BodyDraft) (c : ChoiceDraft) (number : Nat) (line : List Char) :
    (b.mapSpans (.moveDown n)).readInChoice (c.mapSpans (.moveDown n)) (n + number) line =
      Outcome.moveDown n (Option.map (mapSpans (.moveDown n))) (b.readInChoice c number line) := by
  rw [readInChoice, readInChoice]
  split
  · next before rest _ =>
    rw [readEntry_add, lineSpan_add]
    cases readEntry number before rest with
    | ok e => rfl
    | error e => rfl
  · split
    · next body _ =>
      rw [readOptionCommand_add]
      cases readOptionCommand number line body with
      | ok command =>
        simp only [Outcome.moveDown, Outcome.map_ok, Option.map_some, id,
          ChoiceDraft.addCommand_mapSpans, mapSpans]
      | error e => rfl
    · rfl

theorem readPlainCommand_mapSpans (b : BodyDraft) (number : Nat) (line body : List Char) :
    (b.mapSpans (.moveDown n)).readPlainCommand (n + number) line body =
      Outcome.moveDown n (mapSpans (.moveDown n)) (b.readPlainCommand number line body) := by
  rw [readPlainCommand, readPlainCommand, lineSpan_add]
  cases ifCondition? body with
  | some condition => rfl
  | none =>
    cases Command.ofText body with
    | ok c =>
      have hpush := push_mapSpans (.moveDown n) b (.command c (lineSpan number line))
      exact congrArg Except.ok hpush
    | error e => rfl

theorem readCommandLine_mapSpans (b : BodyDraft) (number : Nat) (line body : List Char) :
    (b.mapSpans (.moveDown n)).readCommandLine (n + number) line body =
      Outcome.moveDown n (mapSpans (.moveDown n)) (b.readCommandLine number line body) := by
  have hplain := readPlainCommand_mapSpans n b number line body
  obtain ⟨name, span, steps, branches, choice⟩ := b
  cases branches with
  | nil => exact hplain
  | cons top outer =>
    cases helse : isElse body with
    | true =>
      simp only [readCommandLine, mapSpans, helse, List.map_cons, Outcome.moveDown,
        BranchDraft.mapSpans]
    | false =>
      cases hendif : isEndif body with
      | true =>
        have hclose := push_mapSpans (.moveDown n) ⟨name, span, steps, outer, choice⟩ top.close
        rw [← BranchDraft.close_mapSpans] at hclose
        simp only [readCommandLine, mapSpans, helse, hendif, List.map_cons, Outcome.moveDown]
        exact congrArg Except.ok hclose
      | false =>
        simp only [readCommandLine, helse, hendif]
        exact hplain

theorem readStep_mapSpans (b : BodyDraft) (number : Nat) (line : List Char) :
    (b.mapSpans (.moveDown n)).readStep (n + number) line =
      Outcome.moveDown n (mapSpans (.moveDown n)) (b.readStep number line) := by
  rw [readStep, readStep]
  split
  · next before rest _ =>
    rw [readEntry_add, lineSpan_add]
    cases readEntry number before rest with
    | ok e => rfl
    | error e => rfl
  · split
    · next body _ => exact readCommandLine_mapSpans n b number line body
    · next hline =>
      rw [lineSpan_add]
      exact congrArg Except.ok (push_mapSpans (.moveDown n) b
        (.line (String.ofList (Text.trimEnd line)) (lineSpan number line)))

end BodyDraft

/-! ## Reading drafts -/

namespace Draft

variable (g : Graph)

/-- The draft some lines further down, with its finished nodes over those of `g`. -/
def movedOnto (d : Draft) : Draft :=
  ⟨g.overwrite (d.graph.mapSpans (.moveDown n)), d.place.mapSpans (.moveDown n)⟩

/-- A node may be inserted before moving or after it. -/
theorem insert_movedOnto (h : Graph) (node : Node) :
    (⟨h.insert node, .outside⟩ : Draft).movedOnto n g =
      ⟨(g.overwrite (h.mapSpans (.moveDown n))).insert (node.mapSpans (.moveDown n)),
        .outside⟩ := by
  rw [movedOnto, Graph.mapSpans_insert, Graph.overwrite_insert]
  rfl

theorem closeNode_movedOnto (d : Draft) (fault : ScriptFault) :
    (d.movedOnto n g).closeNode fault =
      Outcome.moveDown n (movedOnto n g) (d.closeNode fault) := by
  obtain ⟨graph, place⟩ := d
  cases place with
  | outside => rfl
  | header name span => exact congrArg Except.ok (insert_movedOnto n g graph ⟨name, [], span⟩).symm
  | body b =>
    cases hb : b.branches with
    | nil =>
      have hnode := insert_movedOnto n g graph b.toNode
      rw [← BodyDraft.toNode_mapSpans] at hnode
      simp only [closeNode, movedOnto, Place.mapSpans, BodyDraft.mapSpans, hb, List.map_nil,
        Outcome.moveDown] at hnode ⊢
      rw [hnode]
    | cons top outer =>
      simp only [closeNode, movedOnto, Place.mapSpans, BodyDraft.mapSpans, hb, List.map_cons]
      rfl

theorem readTitle_movedOnto (d : Draft) (number : Nat) (line name : List Char) :
    (d.movedOnto n g).readTitle (n + number) line name =
      Outcome.moveDown n (movedOnto n g) (d.readTitle number line name) := by
  rw [readTitle, readTitle, closeNode_movedOnto, lineSpan_add]
  cases d.closeNode .openIfAtEndOfNode with
  | error e => rfl
  | ok closed =>
    simp only [Outcome.moveDown]
    split <;> rfl

theorem readFence_movedOnto (d : Draft) (number : Nat) (line : List Char) :
    (d.movedOnto n g).readFence (n + number) line =
      Outcome.moveDown n (movedOnto n g) (d.readFence number line) := by
  obtain ⟨graph, place⟩ := d
  cases place with
  | outside =>
    simp only [readFence, movedOnto, Place.mapSpans, Outcome.moveDown, lineSpan_add]
  | header name span => rfl
  | body b => rfl

theorem inBranch_movedOnto (d : Draft) : (d.movedOnto n g).inBranch = d.inBranch := by
  obtain ⟨graph, place⟩ := d
  cases place with
  | outside => rfl
  | header name span => rfl
  | body b => simp only [inBranch, movedOnto, Place.mapSpans, BodyDraft.mapSpans, List.isEmpty_map]

theorem readSettled_movedOnto (d : Draft) (number : Nat) (line : List Char) :
    (d.movedOnto n g).readSettled (n + number) line =
      Outcome.moveDown n (movedOnto n g) (d.readSettled number line) := by
  rw [readSettled, readSettled, inBranch_movedOnto]
  cases titleName? (Text.trim line) with
  | some name => exact readTitle_movedOnto n g d number line name
  | none =>
    dsimp only
    split
    · exact closeNode_movedOnto n g d _
    · split
      · exact readFence_movedOnto n g d number line
      · obtain ⟨graph, place⟩ := d
        cases place with
        | outside => rfl
        | header name span => rfl
        | body b =>
          simp only [movedOnto, Place.mapSpans, BodyDraft.readStep_mapSpans]
          split
          · rfl
          · cases b.readStep number line <;> rfl

theorem settle_movedOnto (d : Draft) : (d.movedOnto n g).settle = d.settle.movedOnto n g := by
  obtain ⟨graph, place⟩ := d
  cases place with
  | outside => rfl
  | header name span => rfl
  | body b => simp only [settle, movedOnto, Place.mapSpans, BodyDraft.settle_mapSpans]

theorem readLine_movedOnto (d : Draft) (number : Nat) (line : List Char) :
    (d.movedOnto n g).readLine (n + number) line =
      Outcome.moveDown n (movedOnto n g) (d.readLine number line) := by
  have hsettled := readSettled_movedOnto n g d number line
  have hbehind := readSettled_movedOnto n g d.settle number line
  rw [← settle_movedOnto] at hbehind
  obtain ⟨graph, place⟩ := d
  cases place with
  | outside => exact hsettled
  | header name span => exact hsettled
  | body b =>
    cases hc : b.choice with
    | none =>
      have hc' : (b.mapSpans (.moveDown n)).choice = none := by
        rw [BodyDraft.mapSpans, hc, Option.map_none]
      simp only [readLine, hc]
      rw [← hsettled]
      simp only [movedOnto, Place.mapSpans, hc']
    | some c =>
      have hc' : (b.mapSpans (.moveDown n)).choice = some (c.mapSpans (.moveDown n)) := by
        rw [BodyDraft.mapSpans, hc, Option.map_some]
      have hchoice := BodyDraft.readInChoice_mapSpans n b c number line
      simp only [readLine, hc]
      simp only [movedOnto, Place.mapSpans, hc', hchoice] at hbehind ⊢
      cases b.readInChoice c number line with
      | error e => rfl
      | ok taken =>
        cases taken with
        | some next => rfl
        | none => exact hbehind

theorem readLines_movedOnto (d : Draft) (number : Nat) (lines : List String) :
    (d.movedOnto n g).readLines (n + number) lines =
      Outcome.moveDown n (movedOnto n g) (d.readLines number lines) := by
  induction lines generalizing d number with
  | nil => rfl
  | cons line rest ih =>
    rw [readLines, readLines, readLine_movedOnto]
    cases d.readLine number line.toList with
    | error e => rfl
    | ok next => exact ih next (number + 1)

theorem finish_movedOnto (d : Draft) :
    (d.movedOnto n g).finish =
      Outcome.moveDown n (fun h => g.overwrite (h.mapSpans (.moveDown n))) d.finish := by
  rw [finish, finish, settle_movedOnto, closeNode_movedOnto]
  cases d.settle.closeNode .openIfAtEndOfScript <;> rfl

end Draft

end Dialogue
