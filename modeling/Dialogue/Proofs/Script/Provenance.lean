import Dialogue.Proofs.Graph.Within
import Dialogue.Proofs.Script.Coverage

/-!
# Where steps come from

Every step of a script has been read from a line of it, and what the line looks like says what the
step is. `Step.ComesFrom lines inArm s` says which steps can be read from given lines: a line of
dialogue from a line that is nothing else, a command and the opener of a branch from a command line,
an entry of a choice from the text behind an arrow. `inArm` says whether the step stands in an arm
of a branch, where a fence is a line of dialogue like any other.

Nothing is said here of the order of the lines. The predicate is an invariant of the reader: it
holds of all pieces of a draft, and one line keeps it (`Draft.ComesFrom.readLine`). So it holds of
the graph that is read from a text (`Graph.comesFrom_of_ofText`), and a law of all steps of a script
is one about the constructors of `Step.ComesFrom`.
-/

namespace Dialogue

/-! ## Steps and lines -/

/-- The entry has been read from the text behind the arrow of one of the lines, and its commands
from others of them. -/
structure Entry.ComesFrom (lines : List (String × Nat)) (text : EntryText) (e : Entry) : Prop where
  line : ∃ line ∈ lines, ∃ before rest, arrow? line.1.toList = some (before, rest) ∧
    EntryText.ofText rest = .ok text ∧ e.span = lineSpan line.2 line.1.toList
  label : e.text = String.ofList text.label
  condition : e.condition = text.condition.map String.ofList
  commands : ∀ c ∈ e.commands, ∃ line ∈ lines, Role.FitsLine line (.option c)

/-- The shortest of the times that some entries give. -/
def EntryText.timeLimit (texts : List EntryText) : Option Float :=
  (texts.map seconds).foldl ChoiceDraft.shorter none

theorem EntryText.timeLimit_append (texts : List EntryText) (text : EntryText) :
    timeLimit (texts ++ [text]) = ChoiceDraft.shorter (timeLimit texts) text.seconds := by
  rw [timeLimit, List.map_append, List.foldl_append]
  rfl

/-- The choice has been read from these texts of entries, of which there is one at least. -/
structure Choice.ComesFrom (lines : List (String × Nat)) (texts : List EntryText) (c : Choice) :
    Prop where
  entries : List.Forall₂ (Entry.ComesFrom lines) texts c.entries
  texts_ne_nil : texts ≠ []
  timeLimit : c.timeLimit = EntryText.timeLimit texts
  default : c.defaultOption = 0

/-- The step has been read from the lines, in an arm of a branch or outside of all. -/
inductive Step.ComesFrom (lines : List (String × Nat)) : Bool → Step → Prop
  | line {inArm : Bool} {line : String × Nat} {text : String} {span : Span} : line ∈ lines →
      Role.FitsLine line (.spoken text span) → endsBody line.1.toList = false →
      (isFence (Text.trim line.1.toList) = true → inArm = true) →
      ComesFrom lines inArm (.line text span)
  | command {inArm : Bool} {line : String × Nat} {c : Command} {span : Span} : line ∈ lines →
      Role.FitsLine line (.command c span) → ComesFrom lines inArm (.command c span)
  | choice {inArm : Bool} {texts : List EntryText} {c : Choice} : c.ComesFrom lines texts →
      ComesFrom lines inArm (.choice c)
  | branch {inArm : Bool} {line : String × Nat} {condition : String}
      {thenSteps elseSteps : List Step} {span : Span} : line ∈ lines →
      Role.FitsLine line (.opener condition span) → (∀ s ∈ thenSteps, ComesFrom lines true s) →
      (∀ s ∈ elseSteps, ComesFrom lines true s) →
      ComesFrom lines inArm (.branch condition thenSteps elseSteps span)

namespace Step

variable {lines : List (String × Nat)} {inArm : Bool} {s : Step} {steps : List Step}

/-- What can be read outside of all branches can be read in an arm. -/
theorem ComesFrom.toArm (h : s.ComesFrom lines inArm) : s.ComesFrom lines true := by
  cases h with
  | line hline hfits hend _ => exact .line hline hfits hend fun _ => rfl
  | command hline hfits => exact .command hline hfits
  | choice hc => exact .choice hc
  | branch hline hfits hthen helse => exact .branch hline hfits hthen helse

theorem ComesFrom.of_mem_arm (h : s.ComesFrom lines inArm) {arm : Arm} {step : Step}
    (hstep : step ∈ s.arm arm) : step.ComesFrom lines true := by
  cases h with
  | branch _ _ hthen helse =>
    cases arm with
    | thenArm => exact hthen step hstep
    | elseArm => exact helse step hstep
  | _ => cases hstep

/-- Steps at any depth come from the lines that those at the top come from. -/
theorem ComesFrom.of_within {step : Step} (h : ∀ s ∈ steps, s.ComesFrom lines inArm)
    (hwithin : step.Within steps) : step.ComesFrom lines true := by
  induction hwithin generalizing inArm with
  | here hmem => exact (h _ hmem).toArm
  | inArm arm houter _ ih => exact ih fun s hs => (h _ houter).of_mem_arm hs

end Step

/-! ## Drafts -/

/-- The pieces of an open branch come from the lines. -/
structure BranchDraft.ComesFrom (lines : List (String × Nat)) (top : BranchDraft) : Prop where
  opener : ∃ line ∈ lines, Role.FitsLine line (.opener top.condition top.span)
  thenSteps : ∀ s ∈ top.thenSteps, s.ComesFrom lines true
  elseSteps : ∀ s ∈ top.elseSteps, s.ComesFrom lines true

/-- The entries of an open choice, which stand there in reverse, come from these texts. -/
structure ChoiceDraft.ComesFrom (lines : List (String × Nat)) (texts : List EntryText)
    (c : ChoiceDraft) : Prop where
  entries : List.Forall₂ (Entry.ComesFrom lines) texts c.entries.reverse
  timeLimit : c.timeLimit = EntryText.timeLimit texts

/-- The pieces of an open body come from the lines. -/
structure BodyDraft.ComesFrom (lines : List (String × Nat)) (b : BodyDraft) : Prop where
  steps : ∀ s ∈ b.steps, s.ComesFrom lines false
  branches : ∀ top ∈ b.branches, top.ComesFrom lines
  choice : ∀ c ∈ b.choice, ∃ texts, texts ≠ [] ∧ c.ComesFrom lines texts

/-- The steps of all nodes come from the lines. -/
def Graph.ComesFrom (lines : List (String × Nat)) (g : Graph) : Prop :=
  ∀ n ∈ g.toList, ∀ s ∈ n.steps, s.ComesFrom lines false

/-- All that has been read comes from the lines. -/
structure Draft.ComesFrom (lines : List (String × Nat)) (d : Draft) : Prop where
  graph : d.graph.ComesFrom lines
  body : ∀ b, d.place = .body b → b.ComesFrom lines

variable {lines : List (String × Nat)}

/-! ### Branches and choices -/

namespace BranchDraft.ComesFrom

variable {top : BranchDraft}

theorem push (h : top.ComesFrom lines) {s : Step} (hs : s.ComesFrom lines true) :
    (top.push s).ComesFrom lines := by
  rw [BranchDraft.push]
  split
  · exact ⟨h.opener, h.thenSteps, List.forall_mem_cons.mpr ⟨hs, h.elseSteps⟩⟩
  · exact ⟨h.opener, List.forall_mem_cons.mpr ⟨hs, h.thenSteps⟩, h.elseSteps⟩

theorem close (h : top.ComesFrom lines) (inArm : Bool) : top.close.ComesFrom lines inArm := by
  obtain ⟨line, hline, hfits⟩ := h.opener
  refine .branch hline hfits ?_ ?_
  · intro s hs
    exact h.thenSteps s (List.mem_reverse.mp hs)
  · intro s hs
    exact h.elseSteps s (List.mem_reverse.mp hs)

end BranchDraft.ComesFrom

namespace ChoiceDraft

variable {c : ChoiceDraft} {texts : List EntryText} {text : EntryText} {line : String × Nat}
  {before rest : List Char}

theorem comesFrom_empty (span : Span) : ComesFrom lines [] ⟨span, [], none⟩ := ⟨.nil, rfl⟩

theorem ComesFrom.addEntry (h : c.ComesFrom lines texts) (hline : line ∈ lines)
    (harrow : arrow? line.1.toList = some (before, rest))
    (htext : EntryText.ofText rest = .ok text) :
    (c.addEntry text (lineSpan line.2 line.1.toList)).ComesFrom lines (texts ++ [text]) := by
  constructor
  case entries =>
    rw [ChoiceDraft.addEntry, List.reverse_cons]
    refine List.rel_append h.entries (.cons ⟨?_, rfl, rfl, ?_⟩ .nil)
    · exact ⟨line, hline, before, rest, harrow, htext, rfl⟩
    · intro command hcommand
      cases hcommand
  case timeLimit =>
    rw [EntryText.timeLimit_append, ← h.timeLimit]
    rfl

/-- A command goes to the latest entry, which there is if there is a text. -/
theorem ComesFrom.addCommand (h : c.ComesFrom lines texts) {command : Command}
    (hline : line ∈ lines) (hfits : Role.FitsLine line (.option command)) :
    (c.addCommand command).ComesFrom lines texts := by
  obtain ⟨span, entries, timeLimit⟩ := c
  cases entries with
  | nil => exact h
  | cons e entries =>
    refine ⟨?_, h.timeLimit⟩
    have hentries := List.forall₂_reverse_iff.mpr h.entries
    rw [List.reverse_reverse] at hentries
    rw [ChoiceDraft.addCommand, ← List.forall₂_reverse_iff, List.reverse_reverse]
    cases htexts : texts.reverse with
    | nil =>
      rw [htexts] at hentries
      cases hentries
    | cons text more =>
      rw [htexts] at hentries
      cases hentries with
      | cons he hmore =>
        refine .cons ⟨he.line, he.label, he.condition, ?_⟩ hmore
        intro c hc
        rcases List.mem_append.mp hc with hc | hc
        · exact he.commands c hc
        · cases List.mem_singleton.mp hc
          exact ⟨line, hline, hfits⟩

theorem ComesFrom.close (h : c.ComesFrom lines texts) (hne : texts ≠ []) (inArm : Bool) :
    c.close.ComesFrom lines inArm :=
  .choice ⟨h.entries, hne, h.timeLimit, rfl⟩

end ChoiceDraft

/-! ### Bodies -/

namespace BodyDraft

variable {b b' : BodyDraft} {line : String × Nat} {body : List Char}

theorem comesFrom_start (name : String) (span : Span) : (start name span).ComesFrom lines := by
  constructor
  case steps =>
    intro s hs
    cases hs
  case branches =>
    intro top htop
    cases htop
  case choice =>
    intro c hc
    cases hc

/-- A step goes to the innermost open branch, if there is one. -/
theorem ComesFrom.push (h : b.ComesFrom lines) {s : Step}
    (hs : s.ComesFrom lines (!b.branches.isEmpty)) : (b.push s).ComesFrom lines := by
  obtain ⟨name, span, steps, branches, choice⟩ := b
  cases branches with
  | nil => exact ⟨List.forall_mem_cons.mpr ⟨hs, h.steps⟩, h.branches, h.choice⟩
  | cons top outer =>
    obtain ⟨htop, houter⟩ := List.forall_mem_cons.mp h.branches
    exact ⟨h.steps, List.forall_mem_cons.mpr ⟨htop.push hs, houter⟩, h.choice⟩

theorem ComesFrom.settle (h : b.ComesFrom lines) : b.settle.ComesFrom lines := by
  rw [BodyDraft.settle]
  split
  · exact h
  · next c hc =>
    obtain ⟨texts, hne, htexts⟩ := h.choice c hc
    have hclosed : ({ b with choice := none } : BodyDraft).ComesFrom lines :=
      ⟨h.steps, h.branches, fun c hc => by cases hc⟩
    exact hclosed.push (htexts.close hne _)

theorem ComesFrom.readInChoice {c : ChoiceDraft} (h : b.ComesFrom lines) (hc : b.choice = some c)
    (hline : line ∈ lines)
    (hread : b.readInChoice c line.2 line.1.toList = .ok (some b')) : b'.ComesFrom lines := by
  obtain ⟨texts, hne, htexts⟩ := h.choice c hc
  rw [BodyDraft.readInChoice] at hread
  split at hread
  · next before rest harrow =>
    obtain ⟨text, htext, heq⟩ := Outcome.map_eq_ok_iff.mp hread
    cases heq
    refine ⟨h.steps, h.branches, fun c hc => ?_⟩
    cases hc
    exact ⟨texts ++ [text], List.append_ne_nil_of_left_ne_nil hne _,
      htexts.addEntry hline harrow (readEntry_eq_ok htext)⟩
  · split at hread
    · next body hoption =>
      obtain ⟨command, hcommand, heq⟩ := Outcome.map_eq_ok_iff.mp hread
      cases heq
      obtain ⟨hindented, hbody⟩ := optionCommand?_eq_some hoption
      obtain ⟨hcondition, hcommand⟩ := readOptionCommand_eq_ok hcommand
      refine ⟨h.steps, h.branches, fun c hc => ?_⟩
      cases hc
      exact ⟨texts, hne, htexts.addCommand hline (.option hindented hbody hcondition hcommand)⟩
    · cases hread

theorem ComesFrom.readPlainCommand (h : b.ComesFrom lines) (hline : line ∈ lines)
    (hbody : commandBody? line.1.toList = some body)
    (hread : b.readPlainCommand line.2 line.1.toList body = .ok b') : b'.ComesFrom lines := by
  rw [BodyDraft.readPlainCommand] at hread
  split at hread
  · next condition hcondition =>
    cases hread
    refine ⟨h.steps, List.forall_mem_cons.mpr ⟨⟨?_, ?_, ?_⟩, h.branches⟩, h.choice⟩
    · exact ⟨line, hline, .opener hbody hcondition⟩
    · intro s hs
      cases hs
    · intro s hs
      cases hs
  · next hcondition =>
    split at hread
    · next c hcommand =>
      cases hread
      exact h.push (.command hline (.command hbody hcondition hcommand))
    · cases hread

theorem ComesFrom.readCommandLine (h : b.ComesFrom lines) (hline : line ∈ lines)
    (hbody : commandBody? line.1.toList = some body)
    (hread : b.readCommandLine line.2 line.1.toList body = .ok b') : b'.ComesFrom lines := by
  rw [BodyDraft.readCommandLine.eq_def] at hread
  split at hread
  · next top outer hbranches _ =>
    cases hread
    obtain ⟨htop, houter⟩ := List.forall_mem_cons.mp (hbranches ▸ h.branches)
    have hturned : ({ top with inElse := true } : BranchDraft).ComesFrom lines :=
      ⟨htop.opener, htop.thenSteps, htop.elseSteps⟩
    exact ⟨h.steps, List.forall_mem_cons.mpr ⟨hturned, houter⟩, h.choice⟩
  · next top outer hbranches _ _ =>
    cases hread
    obtain ⟨htop, houter⟩ := List.forall_mem_cons.mp (hbranches ▸ h.branches)
    have hpopped : ({ b with branches := outer } : BodyDraft).ComesFrom lines :=
      ⟨h.steps, houter, h.choice⟩
    exact hpopped.push (htop.close _)
  · exact h.readPlainCommand hline hbody hread

/-- A line that ends no body is read as a step; a fence comes here in a branch only. -/
theorem ComesFrom.readStep (h : b.ComesFrom lines) (hline : line ∈ lines)
    (hblank : Text.trim line.1.toList ≠ []) (hend : endsBody line.1.toList = false)
    (hfence : isFence (Text.trim line.1.toList) = true → (!b.branches.isEmpty) = true)
    (hread : b.readStep line.2 line.1.toList = .ok b') : b'.ComesFrom lines := by
  rw [BodyDraft.readStep] at hread
  split at hread
  · next before rest harrow =>
    obtain ⟨text, htext, rfl⟩ := Outcome.map_eq_ok_iff.mp hread
    refine ⟨h.steps, h.branches, fun c hc => ?_⟩
    cases hc
    exact ⟨[text], List.cons_ne_nil _ _,
      (ChoiceDraft.comesFrom_empty _).addEntry hline harrow (readEntry_eq_ok htext)⟩
  · next harrow =>
    split at hread
    · next body hbody => exact h.readCommandLine hline hbody hread
    · next hbody =>
      cases hread
      exact h.push (.line hline (.spoken hblank harrow hbody) hend hfence)

end BodyDraft

/-! ### Nodes -/

theorem Graph.ComesFrom.insert {g : Graph} (h : g.ComesFrom lines) {n : Node}
    (hn : ∀ s ∈ n.steps, s.ComesFrom lines false) : (g.insert n).ComesFrom lines := by
  intro n' hn'
  obtain ⟨e, he, rfl⟩ := List.mem_map.mp hn'
  rcases NameTable.mem_insertInto he with rfl | he
  · exact hn
  · exact h e.2 (List.mem_map_of_mem he)

namespace Draft

variable {d d' : Draft} {line : String × Nat}

theorem comesFrom_start : start.ComesFrom lines := by
  constructor
  case graph =>
    intro n hn
    cases hn
  case body =>
    intro b hb
    cases hb

theorem ComesFrom.settle (h : d.ComesFrom lines) : d.settle.ComesFrom lines := by
  rw [Draft.settle]
  split
  · next b hb =>
    refine ⟨h.graph, fun b' hb' => ?_⟩
    cases hb'
    exact (h.body b hb).settle
  · exact h

theorem ComesFrom.closeNode {fault : ScriptFault} (h : d.ComesFrom lines)
    (hread : d.closeNode fault = .ok d') : d'.ComesFrom lines := by
  rw [Draft.closeNode.eq_def] at hread
  split at hread
  · cases hread
    exact h
  · cases hread
    refine ⟨h.graph.insert fun s hs => ?_, fun b hb => ?_⟩
    · cases hs
    · cases hb
  · next b hb =>
    split at hread
    · cases hread
      refine ⟨h.graph.insert fun s hs => ?_, fun b hb => ?_⟩
      · exact (h.body b hb).steps s (List.mem_reverse.mp hs)
      · cases hb
    · cases hread

theorem ComesFrom.readTitle {name : List Char} (h : d.ComesFrom lines)
    (hread : d.readTitle line.2 line.1.toList name = .ok d') : d'.ComesFrom lines := by
  rw [Draft.readTitle] at hread
  split at hread
  · cases hread
  · next closed hclosed =>
    split at hread
    · cases hread
    · cases hread
      refine ⟨(h.closeNode hclosed).graph, fun b hb => ?_⟩
      cases hb

theorem ComesFrom.readFence (h : d.ComesFrom lines)
    (hread : d.readFence line.2 line.1.toList = .ok d') : d'.ComesFrom lines := by
  rw [Draft.readFence] at hread
  split at hread
  · cases hread
  · cases hread
    refine ⟨h.graph, fun b hb => ?_⟩
    cases hb
    exact BodyDraft.comesFrom_start _ _
  · cases hread
    exact h

theorem ComesFrom.readSettled (h : d.ComesFrom lines) (hline : line ∈ lines)
    (hread : d.readSettled line.2 line.1.toList = .ok d') : d'.ComesFrom lines := by
  rw [Draft.readSettled] at hread
  split at hread
  · exact h.readTitle hread
  · next htitle =>
    split at hread
    · exact h.closeNode hread
    · next hclose =>
      have hend : endsBody line.1.toList = false :=
        endsBody_eq_false_iff.mpr ⟨htitle, Bool.not_eq_true _ ▸ hclose⟩
      split at hread
      · exact h.readFence hread
      · next hfence =>
        split at hread
        · next b hb =>
          split at hread
          · cases hread
            exact h
          · next hblank =>
            obtain ⟨b', hb', rfl⟩ := Outcome.map_eq_ok_iff.mp hread
            -- A fence that has not been read as one stands in a branch.
            have hinner : isFence (Text.trim line.1.toList) = true →
                (!b.branches.isEmpty) = true := by
              intro hisFence
              simpa [hisFence, inBranch, hb] using hfence
            refine ⟨h.graph, fun b'' hb'' => ?_⟩
            cases hb''
            exact (h.body b hb).readStep hline hblank hend hinner hb'
        · cases hread
          exact h

/-- **One line.** What is read from a line comes from it. -/
theorem ComesFrom.readLine (h : d.ComesFrom lines) (hline : line ∈ lines)
    (hread : d.readLine line.2 line.1.toList = .ok d') : d'.ComesFrom lines := by
  rw [Draft.readLine] at hread
  split at hread
  · next b hb =>
    split at hread
    · exact h.readSettled hline hread
    · next c hc =>
      split at hread
      · cases hread
      · next b' htaken =>
        cases hread
        refine ⟨h.graph, fun b'' hb'' => ?_⟩
        cases hb''
        exact (h.body b hb).readInChoice hc hline htaken
      · exact h.settle.readSettled hline hread
  · exact h.readSettled hline hread

theorem ComesFrom.readLines {number : Nat} {texts : List String} (h : d.ComesFrom lines)
    (hsub : texts.zipIdx number ⊆ lines) (hread : d.readLines number texts = .ok d') :
    d'.ComesFrom lines := by
  induction texts generalizing d number with
  | nil =>
    cases hread
    exact h
  | cons text rest ih =>
    rw [List.zipIdx_cons, List.cons_subset] at hsub
    rw [Draft.readLines] at hread
    split at hread
    · cases hread
    · next next hnext => exact ih (h.readLine hsub.1 hnext) hsub.2 hread

end Draft

/-! ## Scripts -/

/-- The lines of a source with their numbers, counted from one. -/
def Source.numbered (s : Source) : List (String × Nat) := s.lines.zipIdx 1

namespace Graph

/-- **Every step of a script comes from its lines.** -/
theorem comesFrom_of_ofText {name text : String} {g : Graph} (h : ofText name text = .ok g) :
    g.ComesFrom (Source.ofText name text).numbered := by
  obtain ⟨d, hread, hfinish⟩ := exists_draft_of_ofText h
  obtain ⟨closed, hclosed, rfl⟩ := Outcome.map_eq_ok_iff.mp hfinish
  have hd : d.ComesFrom (Source.ofText name text).numbered :=
    Draft.comesFrom_start.readLines (List.Subset.refl _) hread
  exact (hd.settle.closeNode hclosed).graph

/-- The steps that the graph of a script holds come from its lines, at any depth. -/
theorem ComesFrom.of_holds {g : Graph} (h : g.ComesFrom lines) {step : Step}
    (hstep : g.Holds step) : step.ComesFrom lines true := by
  obtain ⟨n, hn, hwithin⟩ := hstep
  exact Step.ComesFrom.of_within (h n hn) hwithin

end Graph

end Dialogue
