import Dialogue.Proofs.Outcome
import Dialogue.Script.Draft

/-!
# Where faults are shown

A fault is shown at a line that has been read: at the last one, or where a branch was opened that is
still open. A draft therefore remembers nothing but lines that have been read (`Draft.OpenedUpTo`),
which every line keeps, and the fault of a script is shown at one of its lines
(`Graph.upTo_ofLines`).

The number of a line in a span has 32 bits. Places are told by the numbers that lines have in their
source, so all of this holds for sources of any length.
-/

namespace Dialogue

/-- The span lies on one of the first `last` lines. -/
def Span.UpTo (last : Nat) (s : Span) : Prop := ∃ k, 0 < k ∧ k ≤ last ∧ s.line = .ofNat k

theorem Span.UpTo.mono {last last' : Nat} {s : Span} (h : s.UpTo last) (hle : last ≤ last') :
    s.UpTo last' := by
  obtain ⟨k, hpos, hk, hline⟩ := h
  exact ⟨k, hpos, Nat.le_trans hk hle, hline⟩

theorem lineSpan_upTo (last : Nat) (line : List Char) :
    (lineSpan (last + 1) line).UpTo (last + 1) :=
  ⟨last + 1, Nat.succ_pos last, Nat.le_refl _, rfl⟩

theorem Span.point_upTo (last : Nat) (column : UInt32) :
    (point (.ofNat (last + 1)) column).UpTo (last + 1) :=
  ⟨last + 1, Nat.succ_pos last, Nat.le_refl _, rfl⟩

/-- Results have the property `P`, and faults are shown at one of the first `last` lines. -/
def Outcome.UpTo {α : Type} (last : Nat) (P : α → Prop) : Except PlacedFault α → Prop
  | .ok a => P a
  | .error (_, span) => span.UpTo last

theorem Outcome.UpTo.map {α β : Type} {last : Nat} {P : α → Prop} {Q : β → Prop} {f : α → β}
    {x : Except PlacedFault α} (h : UpTo last P x) (hf : ∀ a, P a → Q (f a)) :
    UpTo last Q (x.map f) := by
  cases x with
  | ok a => exact hf a h
  | error e => exact h

/-! ## Bodies -/

namespace BodyDraft

/-- Every open branch was opened at one of the first `last` lines. -/
def OpenedUpTo (last : Nat) (b : BodyDraft) : Prop := ∀ top ∈ b.branches, top.span.UpTo last

variable {last : Nat} {b : BodyDraft}

theorem OpenedUpTo.mono {last' : Nat} (h : b.OpenedUpTo last) (hle : last ≤ last') :
    b.OpenedUpTo last' :=
  fun top htop => (h top htop).mono hle

theorem openedUpTo_start (last : Nat) (name : String) (span : Span) :
    (start name span).OpenedUpTo last :=
  fun _ h => absurd h List.not_mem_nil

theorem OpenedUpTo.openBranch {span : Span} (h : b.OpenedUpTo last) (condition : List Char)
    (hspan : span.UpTo last) : (b.openBranch condition span).OpenedUpTo last :=
  List.forall_mem_cons.2 ⟨hspan, h⟩

theorem OpenedUpTo.push (h : b.OpenedUpTo last) (s : Step) : (b.push s).OpenedUpTo last := by
  obtain ⟨name, span, steps, branches, choice⟩ := b
  cases branches with
  | nil => exact h
  | cons top outer =>
    obtain ⟨htop, houter⟩ := List.forall_mem_cons.1 h
    refine List.forall_mem_cons.2 ⟨?_, houter⟩
    rw [BranchDraft.push]
    split <;> exact htop

theorem OpenedUpTo.settle (h : b.OpenedUpTo last) : b.settle.OpenedUpTo last := by
  rw [BodyDraft.settle]
  split
  · exact h
  · exact OpenedUpTo.push (b := { b with choice := none }) h _

theorem readEntry_upTo (last : Nat) (before rest : List Char) :
    Outcome.UpTo (last + 1) (fun _ => True) (readEntry (last + 1) before rest) := by
  rw [readEntry]
  split
  · trivial
  · exact Span.point_upTo last _

theorem readOptionCommand_upTo (last : Nat) (line body : List Char) :
    Outcome.UpTo (last + 1) (fun _ => True) (readOptionCommand (last + 1) line body) := by
  rw [readOptionCommand]
  split
  · exact lineSpan_upTo last line
  · split
    · trivial
    · exact lineSpan_upTo last line

theorem OpenedUpTo.readInChoice (h : b.OpenedUpTo (last + 1)) (c : ChoiceDraft) (line : List Char) :
    Outcome.UpTo (last + 1) (fun taken => ∀ b ∈ taken, OpenedUpTo (last + 1) b)
      (b.readInChoice c (last + 1) line) := by
  rw [BodyDraft.readInChoice]
  split
  · refine (readEntry_upTo last _ _).map fun e _ b' hb' => ?_
    cases hb'
    exact h
  · split
    · refine (readOptionCommand_upTo last line _).map fun e _ b' hb' => ?_
      cases hb'
      exact h
    · intro b' hb'
      cases hb'

theorem OpenedUpTo.readPlainCommand (h : b.OpenedUpTo (last + 1)) (line body : List Char) :
    Outcome.UpTo (last + 1) (OpenedUpTo (last + 1)) (b.readPlainCommand (last + 1) line body) := by
  have hspan := lineSpan_upTo last line
  rw [BodyDraft.readPlainCommand]
  split
  · exact h.openBranch _ hspan
  · split
    · exact h.push _
    · exact hspan

theorem OpenedUpTo.readCommandLine (h : b.OpenedUpTo (last + 1)) (line body : List Char) :
    Outcome.UpTo (last + 1) (OpenedUpTo (last + 1)) (b.readCommandLine (last + 1) line body) := by
  rw [BodyDraft.readCommandLine]
  split
  · next top outer hb _ =>
    rw [OpenedUpTo, hb] at h
    obtain ⟨htop, houter⟩ := List.forall_mem_cons.1 h
    exact List.forall_mem_cons.2 ⟨htop, houter⟩
  · next top outer hb _ _ =>
    rw [OpenedUpTo, hb] at h
    obtain ⟨-, houter⟩ := List.forall_mem_cons.1 h
    exact OpenedUpTo.push (b := { b with branches := outer }) houter _
  · exact h.readPlainCommand line body

theorem OpenedUpTo.readStep (h : b.OpenedUpTo (last + 1)) (line : List Char) :
    Outcome.UpTo (last + 1) (OpenedUpTo (last + 1)) (b.readStep (last + 1) line) := by
  rw [BodyDraft.readStep]
  split
  · exact (readEntry_upTo last _ _).map fun _ _ => h
  · split
    · exact h.readCommandLine line _
    · exact h.push _

end BodyDraft

/-! ## Drafts -/

namespace Draft

/-- Every open branch was opened at one of the first `last` lines. -/
def OpenedUpTo (last : Nat) (d : Draft) : Prop := ∀ b, d.place = .body b → b.OpenedUpTo last

variable {last : Nat} {d : Draft}

theorem OpenedUpTo.mono {last' : Nat} (h : d.OpenedUpTo last) (hle : last ≤ last') :
    d.OpenedUpTo last' :=
  fun b hb => (h b hb).mono hle

theorem openedUpTo_outside (last : Nat) (g : Graph) : OpenedUpTo last ⟨g, .outside⟩ :=
  fun _ h => nomatch h

theorem openedUpTo_start (last : Nat) : start.OpenedUpTo last := openedUpTo_outside last _

theorem openedUpTo_header (last : Nat) (g : Graph) (name : String) (span : Span) :
    OpenedUpTo last ⟨g, .header name span⟩ :=
  fun _ h => nomatch h

theorem openedUpTo_body {g : Graph} {b : BodyDraft} :
    OpenedUpTo last ⟨g, .body b⟩ ↔ b.OpenedUpTo last := by
  refine ⟨fun h => h b rfl, fun h b' hb' => ?_⟩
  cases hb'
  exact h

theorem OpenedUpTo.settle (h : d.OpenedUpTo last) : d.settle.OpenedUpTo last := by
  rw [Draft.settle]
  split
  · next b hb => exact openedUpTo_body.2 (h b hb).settle
  · exact h

theorem OpenedUpTo.closeNode (h : d.OpenedUpTo last) (fault : ScriptFault) :
    Outcome.UpTo last (OpenedUpTo last) (d.closeNode fault) := by
  rw [Draft.closeNode]
  split
  · exact h
  · exact openedUpTo_outside last _
  · next b hb =>
    split
    · exact openedUpTo_outside last _
    · next top outer hbranches => exact h b hb top (hbranches ▸ List.mem_cons_self)

theorem OpenedUpTo.readTitle (h : d.OpenedUpTo (last + 1)) (line name : List Char) :
    Outcome.UpTo (last + 1) (OpenedUpTo (last + 1)) (d.readTitle (last + 1) line name) := by
  have hclose := h.closeNode .openIfAtEndOfNode
  rw [Draft.readTitle]
  split
  · next hfault => rwa [hfault] at hclose
  · split
    · exact lineSpan_upTo last line
    · exact openedUpTo_header _ _ _ _

theorem OpenedUpTo.readFence (h : d.OpenedUpTo (last + 1)) (line : List Char) :
    Outcome.UpTo (last + 1) (OpenedUpTo (last + 1)) (d.readFence (last + 1) line) := by
  rw [Draft.readFence]
  split
  · exact lineSpan_upTo last line
  · exact openedUpTo_body.2 (BodyDraft.openedUpTo_start _ _ _)
  · exact h

theorem OpenedUpTo.readSettled (h : d.OpenedUpTo (last + 1)) (line : List Char) :
    Outcome.UpTo (last + 1) (OpenedUpTo (last + 1)) (d.readSettled (last + 1) line) := by
  rw [Draft.readSettled]
  split
  · exact h.readTitle line _
  · split
    · exact h.closeNode _
    · split
      · exact h.readFence line
      · split
        · next b hb =>
          split
          · exact h
          · exact ((h b hb).readStep line).map fun _ => openedUpTo_body.2
        · exact h

theorem OpenedUpTo.readLine (h : d.OpenedUpTo last) (line : List Char) :
    Outcome.UpTo (last + 1) (OpenedUpTo (last + 1)) (d.readLine (last + 1) line) := by
  have hnext := h.mono (Nat.le_succ last)
  rw [Draft.readLine]
  split
  · next b hb =>
    split
    · exact hnext.readSettled line
    · next c _ =>
      have hchoice := (hnext b hb).readInChoice c line
      split
      · next hfault => rwa [hfault] at hchoice
      · next b' htaken =>
        rw [htaken] at hchoice
        exact openedUpTo_body.2 (hchoice b' rfl)
      · exact hnext.settle.readSettled line
  · exact hnext.readSettled line

/-- **Lines that are read keep the places of a draft among the lines that have been read.** -/
theorem OpenedUpTo.readLines (h : d.OpenedUpTo last) (lines : List String) :
    Outcome.UpTo (last + lines.length) (OpenedUpTo (last + lines.length))
      (d.readLines (last + 1) lines) := by
  induction lines generalizing d last with
  | nil => exact h
  | cons line rest ih =>
    have hline := h.readLine line.toList
    rw [Draft.readLines, List.length_cons, Nat.add_comm rest.length, ← Nat.add_assoc]
    split
    · next hfault =>
      rw [hfault] at hline
      exact Span.UpTo.mono hline (Nat.le_add_right _ _)
    · next next hread =>
      rw [hread] at hline
      exact ih hline

theorem OpenedUpTo.finish (h : d.OpenedUpTo last) :
    Outcome.UpTo last (fun _ => True) d.finish :=
  (h.settle.closeNode _).map fun _ _ => trivial

end Draft

/-! ## Scripts -/

namespace Graph

/-- The graph of a script that is given by its lines, or its first fault. -/
def ofLines (lines : List String) : Except PlacedFault Graph :=
  match Draft.start.readLines 1 lines with
  | .error e => .error e
  | .ok d => d.finish

/-- A source is read by its lines; its name and its lines are needed for the report of a fault
only. -/
theorem ofSource_eq_ofLines (s : Source) :
    ofSource s =
      match ofLines s.lines with
      | .error (e, span) => .error (.ofFault s e span)
      | .ok g => .ok g := by
  rw [ofSource, ofLines]
  cases Draft.start.readLines 1 s.lines <;> rfl

/-- **A fault is shown at a line of its script.** -/
theorem upTo_ofLines (lines : List String) :
    Outcome.UpTo lines.length (fun _ => True) (ofLines lines) := by
  have hlines := (Draft.openedUpTo_start 0).readLines lines
  simp only [Nat.zero_add] at hlines
  rw [ofLines]
  split
  · next hfault => rwa [hfault] at hlines
  · next d hread =>
    rw [hread] at hlines
    exact hlines.finish

end Graph

end Dialogue
