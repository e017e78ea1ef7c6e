import Dialogue.Proofs.Script.Concatenation
import Dialogue.Proofs.Script.Layout
import Dialogue.Proofs.Script.RoundTrip

/-!
# Drafts and the lines read into them

A draft holds what has been read of a body in pieces: finished steps, open branches with the steps
of their arms, and a choice that may still grow. `BodyDraft.SoFar b roles` says that lines with
these roles have been read into the body `b`. The pieces lie on the lines in one order only: the
finished steps come first, then the open branches from the outermost one on, and the choice last.

`Draft.grown_readLine` is the step: a line that does not end a body has one role in it, which comes
behind those of the lines before. Everything that closes a piece (a branch, a choice, the body)
makes steps of it that lie on the same lines.
-/

namespace Dialogue

/-! ## Drafts and the lines read into them -/

/-- Lines with these roles, from the opener on, have been read into an open branch. -/
inductive BranchDraft.SoFar : BranchDraft → List Role → Prop
  | inThen {condition : String} {span : Span} {thenSteps : List Step} {thenRoles : List Role} :
      Laid (some .thenArm) thenSteps.reverse thenRoles →
      SoFar ⟨condition, span, thenSteps, [], false⟩ (.opener condition span :: thenRoles)
  | inElse {condition : String} {span : Span} {thenSteps elseSteps : List Step}
      {thenRoles elseRoles : List Role} :
      Laid (some .thenArm) thenSteps.reverse thenRoles →
      Laid (some .elseArm) elseSteps.reverse elseRoles →
      SoFar ⟨condition, span, thenSteps, elseSteps, true⟩
        (.opener condition span :: thenRoles ++ .turn :: elseRoles)

namespace BranchDraft.SoFar

variable {top : BranchDraft} {roles more : List Role}

theorem push (h : top.SoFar roles) {s : Step} (hs : ∀ arm, Laid arm [s] more) :
    (top.push s).SoFar (roles ++ more) := by
  cases h with
  | inThen hthen =>
    refine .inThen ?_
    rw [List.reverse_cons]
    exact hthen.append (hs _)
  | inElse hthen helse =>
    rw [List.append_assoc]
    refine .inElse hthen ?_
    rw [List.reverse_cons]
    exact helse.append (hs _)

theorem blank (h : top.SoFar roles) : top.SoFar (roles ++ [.blank]) := by
  cases h with
  | inThen hthen => exact .inThen (hthen.append_lines (.blank .nil))
  | inElse hthen helse =>
    rw [List.append_assoc]
    exact .inElse hthen (helse.append_lines (.blank .nil))

/-- A line that turns to the other arm turns to it again if it is the current one. -/
theorem turn (h : top.SoFar roles) :
    BranchDraft.SoFar { top with inElse := true } (roles ++ [.turn]) := by
  cases h with
  | inThen hthen =>
    have helse : Laid (some .elseArm) ([] : List Step).reverse [] := .nil
    exact .inElse hthen helse
  | inElse hthen helse =>
    rw [List.append_assoc]
    exact .inElse hthen (helse.append_lines (.turn .nil))

theorem close (h : top.SoFar roles) (arm : Option Arm) :
    Laid arm [top.close] (roles ++ [.close]) := by
  cases h with
  | inThen hthen => exact .branch _ _ hthen .nil
  | inElse hthen helse => exact .branchElse _ _ hthen helse .nil

end BranchDraft.SoFar

/-- Lines with these roles have been read into an open choice. Its span is that of its first
entry, which stands last in the draft. -/
structure ChoiceDraft.SoFar (c : ChoiceDraft) (roles : List Role) : Prop where
  roles_eq : roles = c.entries.reverse.flatMap Entry.roles
  first : c.entries.getLast?.map Entry.span = some c.span

namespace ChoiceDraft

variable {c : ChoiceDraft} {roles : List Role}

theorem soFar_addEntry (e : EntryText) (span : Span) :
    (addEntry ⟨span, [], none⟩ e span).SoFar
      [.entry (String.ofList e.label) (e.condition.map String.ofList) span] :=
  ⟨rfl, rfl⟩

theorem SoFar.addEntry (h : c.SoFar roles) (e : EntryText) (span : Span) :
    (c.addEntry e span).SoFar
      (roles ++ [.entry (String.ofList e.label) (e.condition.map String.ofList) span]) := by
  constructor
  case roles_eq =>
    rw [h.roles_eq, ChoiceDraft.addEntry, List.reverse_cons, List.flatMap_append]
    rfl
  case first =>
    obtain ⟨first, hlast, hspan⟩ := Option.map_eq_some_iff.mp h.first
    rw [ChoiceDraft.addEntry, List.getLast?_cons, hlast]
    exact congrArg some hspan

theorem SoFar.addCommand (h : c.SoFar roles) (command : Command) :
    (c.addCommand command).SoFar (roles ++ [.option command]) := by
  obtain ⟨span, entries, timeLimit⟩ := c
  obtain ⟨rfl, hfirst⟩ := h
  cases entries with
  | nil => cases hfirst
  | cons e rest =>
    constructor
    case roles_eq => simp [ChoiceDraft.addCommand, Entry.roles]
    case first =>
      rw [List.getLast?_cons] at hfirst
      rw [ChoiceDraft.addCommand, List.getLast?_cons]
      cases hrest : rest.getLast? with
      | none =>
        rw [hrest] at hfirst
        exact hfirst
      | some first =>
        rw [hrest] at hfirst
        exact hfirst

theorem SoFar.close (h : c.SoFar roles) (arm : Option Arm) : Laid arm [c.close] roles := by
  obtain ⟨span, entries, timeLimit⟩ := c
  obtain ⟨rfl, hfirst⟩ := h
  obtain ⟨first, hlast, rfl⟩ := Option.map_eq_some_iff.mp hfirst
  rw [← List.head?_reverse] at hlast
  obtain ⟨more, hentries⟩ := List.head?_eq_some_iff.mp hlast
  have hchoice : Laid arm _ _ := .choice first more timeLimit .nil
  rw [List.append_nil, ← hentries] at hchoice
  exact hchoice

end ChoiceDraft

/-- Lines with these roles have been read into a body without an open choice: its finished steps,
and then the open branches, from the outermost one to the innermost one. -/
inductive OpenSoFar (steps : List Step) : List BranchDraft → List Role → Prop
  | node {roles : List Role} : Laid none steps.reverse roles → OpenSoFar steps [] roles
  | inBranch {outer : List BranchDraft} {top : BranchDraft} {roles topRoles : List Role} :
      OpenSoFar steps outer roles → top.SoFar topRoles →
      OpenSoFar steps (top :: outer) (roles ++ topRoles)

theorem OpenSoFar.blank {steps : List Step} {branches : List BranchDraft} {roles : List Role}
    (h : OpenSoFar steps branches roles) : OpenSoFar steps branches (roles ++ [.blank]) := by
  cases h with
  | node hsteps => exact .node (hsteps.append_lines (.blank .nil))
  | inBranch houter htop =>
    rw [List.append_assoc]
    exact .inBranch houter htop.blank

/-- Lines with these roles have been read into a body; those of its open choice come last. -/
def BodyDraft.SoFar (b : BodyDraft) (roles : List Role) : Prop :=
  match b.choice with
  | none => OpenSoFar b.steps b.branches roles
  | some c =>
    ∃ before own, OpenSoFar b.steps b.branches before ∧ c.SoFar own ∧ roles = before ++ own

namespace BodyDraft

variable {b : BodyDraft} {roles more : List Role} {number : Nat} {line : List Char}

theorem soFar_iff (hchoice : b.choice = none) :
    b.SoFar roles ↔ OpenSoFar b.steps b.branches roles := by
  rw [SoFar, hchoice]

@[simp] theorem name_push (b : BodyDraft) (s : Step) : (b.push s).name = b.name := by
  rw [push]
  split <;> rfl

@[simp] theorem span_push (b : BodyDraft) (s : Step) : (b.push s).span = b.span := by
  rw [push]
  split <;> rfl

theorem push_soFar {s : Step} (hopen : OpenSoFar b.steps b.branches roles)
    (hs : ∀ arm, Laid arm [s] more) :
    OpenSoFar (b.push s).steps (b.push s).branches (roles ++ more) := by
  obtain ⟨name, span, steps, branches, choice⟩ := b
  cases hopen with
  | node hsteps =>
    refine .node ?_
    rw [push, List.reverse_cons]
    exact hsteps.append (hs _)
  | inBranch houter htop =>
    rw [List.append_assoc]
    exact .inBranch houter (htop.push hs)

theorem soFar_push {s : Step} (hchoice : b.choice = none)
    (hopen : OpenSoFar b.steps b.branches roles) (hs : ∀ arm, Laid arm [s] more) :
    (b.push s).SoFar (roles ++ more) := by
  rw [soFar_iff (by rw [choice_push, hchoice])]
  exact push_soFar hopen hs

theorem choice_settle (b : BodyDraft) : b.settle.choice = none := by
  rw [settle]
  split
  · next hchoice => exact hchoice
  · rw [choice_push]

@[simp] theorem name_settle (b : BodyDraft) : b.settle.name = b.name := by
  rw [settle]
  split
  · rfl
  · rw [name_push]

@[simp] theorem span_settle (b : BodyDraft) : b.settle.span = b.span := by
  rw [settle]
  split
  · rfl
  · rw [span_push]

/-- A choice is closed without another line. -/
theorem SoFar.settle (h : b.SoFar roles) : OpenSoFar b.settle.steps b.settle.branches roles := by
  obtain ⟨name, span, steps, branches, choice⟩ := b
  cases choice with
  | none => exact h
  | some c =>
    obtain ⟨before, own, hopen, hown, rfl⟩ := h
    exact push_soFar (b := ⟨name, span, steps, branches, none⟩) hopen hown.close

/-! ## One line -/

/-- The body `b'` is the body `b`, into which lines with these roles have been read, with the line
of the number, which has a role, behind them. -/
structure Grown (number : Nat) (line : List Char) (b b' : BodyDraft) (roles : List Role) :
    Prop where
  name : b'.name = b.name
  span : b'.span = b.span
  soFar : ∃ role : Role, role.Fits number line ∧ b'.SoFar (roles ++ [role])

variable {b' : BodyDraft} {body : List Char}

theorem grown_readPlainCommand (hchoice : b.choice = none)
    (hopen : OpenSoFar b.steps b.branches roles) (hbody : commandBody? line = some body)
    (h : b.readPlainCommand number line body = .ok b') : Grown number line b b' roles := by
  rw [readPlainCommand] at h
  split at h
  · next condition hcondition =>
    cases h
    exact ⟨rfl, rfl, _, .opener hbody hcondition,
      (soFar_iff (b := b.openBranch ..) hchoice).mpr (.inBranch hopen (.inThen .nil))⟩
  · next hcondition =>
    split at h
    · next c hc =>
      cases h
      refine ⟨name_push .., span_push .., _, .command hbody hcondition hc, ?_⟩
      exact soFar_push hchoice hopen fun arm => .command c _ .nil
    · cases h

theorem grown_readCommandLine (hchoice : b.choice = none)
    (hopen : OpenSoFar b.steps b.branches roles) (hbody : commandBody? line = some body)
    (h : b.readCommandLine number line body = .ok b') : Grown number line b b' roles := by
  obtain ⟨name, span, steps, branches, choice⟩ := b
  rw [readCommandLine] at h
  split at h
  · next top outer hbranches helse =>
    cases h
    subst hbranches
    cases hopen with
    | inBranch houter htop =>
      refine ⟨rfl, rfl, _, .turn hbody helse, ?_⟩
      rw [List.append_assoc]
      exact (soFar_iff (by exact hchoice)).mpr (.inBranch houter htop.turn)
  · next top outer hbranches _ hendif =>
    cases h
    subst hbranches
    cases hopen with
    | inBranch houter htop =>
      refine ⟨name_push .., span_push .., _, .close hbody hendif, ?_⟩
      rw [List.append_assoc]
      exact soFar_push (b := ⟨name, span, steps, outer, choice⟩) hchoice houter htop.close
  · -- Outside of branches the words that turn and close them are read like any others.
    exact grown_readPlainCommand hchoice hopen hbody h

theorem readEntry_eq_ok {before rest : List Char} {e : EntryText}
    (h : readEntry number before rest = .ok e) : EntryText.ofText rest = .ok e := by
  rw [readEntry] at h
  split at h
  · next he =>
    cases h
    exact he
  · cases h

theorem grown_readStep (hchoice : b.choice = none) (hopen : OpenSoFar b.steps b.branches roles)
    (hline : Text.trim line ≠ []) (h : b.readStep number line = .ok b') :
    Grown number line b b' roles := by
  rw [readStep] at h
  split at h
  · next before rest harrow =>
    obtain ⟨e, he, rfl⟩ := Outcome.map_eq_ok_iff.mp h
    exact ⟨rfl, rfl, _, .entry harrow (readEntry_eq_ok he),
      roles, _, hopen, ChoiceDraft.soFar_addEntry e _, rfl⟩
  · next harrow =>
    split at h
    · next body hbody => exact grown_readCommandLine hchoice hopen hbody h
    · next hbody =>
      cases h
      exact ⟨name_push .., span_push .., _, .spoken hline harrow hbody,
        soFar_push hchoice hopen fun arm => .line _ _ .nil⟩

theorem readOptionCommand_eq_ok {c : Command} (h : readOptionCommand number line body = .ok c) :
    ifCondition? body = none ∧ Command.ofText body = .ok c := by
  rw [readOptionCommand] at h
  split at h
  · cases h
  · next hcondition =>
    split at h
    · next hc =>
      cases h
      exact ⟨Option.not_isSome_iff_eq_none.mp hcondition, hc⟩
    · cases h

theorem optionCommand?_eq_some (h : optionCommand? line = some body) :
    isIndented line = true ∧ commandBody? line = some body := by
  rw [optionCommand?] at h
  split at h
  · next hindented => exact ⟨hindented, (Option.filter_eq_some_iff.mp h).1⟩
  · cases h

theorem grown_readInChoice {c : ChoiceDraft} (hchoice : b.choice = some c) (hb : b.SoFar roles)
    (h : b.readInChoice c number line = .ok (some b')) : Grown number line b b' roles := by
  obtain ⟨name, span, steps, branches, choice⟩ := b
  subst hchoice
  obtain ⟨before, own, hopen, hown, rfl⟩ := hb
  rw [readInChoice] at h
  split at h
  · next blanks rest harrow =>
    obtain ⟨e, he, heq⟩ := Outcome.map_eq_ok_iff.mp h
    cases heq
    exact ⟨rfl, rfl, _, .entry harrow (readEntry_eq_ok he),
      before, _, hopen, hown.addEntry e _, List.append_assoc ..⟩
  · split at h
    · next body hoption =>
      obtain ⟨command, hread, heq⟩ := Outcome.map_eq_ok_iff.mp h
      cases heq
      obtain ⟨hindented, hbody⟩ := optionCommand?_eq_some hoption
      obtain ⟨hcondition, hcommand⟩ := readOptionCommand_eq_ok hread
      exact ⟨rfl, rfl, _, .option hindented hbody hcondition hcommand,
        before, _, hopen, hown.addCommand command, List.append_assoc ..⟩
    · cases h

end BodyDraft

/-- Whether a line ends the body of a node: the title of the next one, or a close. -/
def endsBody (line : List Char) : Bool :=
  (titleName? (Text.trim line)).isSome || isClose (Text.trim line)

theorem endsBody_eq_false_iff {line : List Char} :
    endsBody line = false ↔
      titleName? (Text.trim line) = none ∧ isClose (Text.trim line) = false := by
  rw [endsBody, Bool.or_eq_false_iff, ← Bool.not_eq_true, Option.not_isSome_iff_eq_none]

namespace Draft

variable {g : Graph} {d' : Draft} {b : BodyDraft} {roles : List Role} {number : Nat}
  {line : List Char}

theorem grown_readSettled (hchoice : b.choice = none) (hopen : OpenSoFar b.steps b.branches roles)
    (hend : endsBody line = false) (h : (⟨g, .body b⟩ : Draft).readSettled number line = .ok d') :
    ∃ b', d' = ⟨g, .body b'⟩ ∧ BodyDraft.Grown number line b b' roles := by
  obtain ⟨htitle, hclose⟩ := endsBody_eq_false_iff.mp hend
  rw [readSettled] at h
  simp only [htitle, hclose, Bool.false_eq_true, if_false] at h
  split at h
  · -- A fence at the top of a body that is open already.
    next hfence =>
    rw [Bool.and_eq_true] at hfence
    obtain ⟨hfence, houtside⟩ := hfence
    cases h
    refine ⟨b, rfl, rfl, rfl, _, .fence hfence, (BodyDraft.soFar_iff hchoice).mpr ?_⟩
    generalize b.steps = steps, hbranches : b.branches = branches at hopen ⊢
    cases hopen with
    | node hsteps => exact .node (hsteps.append_lines (.fence .nil))
    | inBranch _ _ =>
      simp only [inBranch, hbranches] at houtside
      cases houtside
  · split at h
    · next hblank =>
      cases h
      exact ⟨b, rfl, rfl, rfl, _, .blank hblank, (BodyDraft.soFar_iff hchoice).mpr hopen.blank⟩
    · next hline =>
      obtain ⟨b', hb', rfl⟩ := Outcome.map_eq_ok_iff.mp h
      exact ⟨b', rfl, BodyDraft.grown_readStep hchoice hopen hline hb'⟩

theorem grown_readLine (hb : b.SoFar roles) (hend : endsBody line = false)
    (h : (⟨g, .body b⟩ : Draft).readLine number line = .ok d') :
    ∃ b', d' = ⟨g, .body b'⟩ ∧ BodyDraft.Grown number line b b' roles := by
  cases hchoice : b.choice with
  | none =>
    simp only [readLine, hchoice] at h
    exact grown_readSettled hchoice ((BodyDraft.soFar_iff hchoice).mp hb) hend h
  | some c =>
    simp only [readLine, hchoice] at h
    split at h
    · cases h
    · next b' htaken =>
      cases h
      exact ⟨b', rfl, BodyDraft.grown_readInChoice hchoice hb htaken⟩
    · -- The line is not for the choice, which is closed before it.
      obtain ⟨b', rfl, hgrown⟩ := grown_readSettled b.choice_settle hb.settle hend h
      exact ⟨b', rfl, hgrown.name.trans b.name_settle, hgrown.span.trans b.span_settle,
        hgrown.soFar⟩

end Draft

end Dialogue
