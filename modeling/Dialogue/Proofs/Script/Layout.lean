import Dialogue.Script.Draft

/-!
# How steps lie on lines

Every line of the body of a node has a `Role` in the steps of the node. It may hold a step (a line
of dialogue, a command, the opener of a branch), an entry of a choice or a command of an entry, turn
to the other arm of a branch or close it, or mean nothing there. `Role.Fits` says what a line with a
role looks like, and what is read from it.

`Laid arm steps roles` says that lines with these roles, one after the other, hold the steps: each
branch from its opener to its close with its arms in between, each choice with its entries in a row
and the commands of an entry directly under it. It knows of no reader. `Step.walkAll` goes through
steps in preorder, and meets the lines of their layout that hold something, in order and once each
(`Laid.walkAll_eq`).
-/

namespace Dialogue

/-! ## Roles -/

/-- What a line of a body is in the steps of its node. -/
inductive Role where
  /-- It holds a line of dialogue. -/
  | spoken (text : String) (span : Span)
  /-- It holds a command that is a step. -/
  | command (c : Command) (span : Span)
  /-- It opens a branch. -/
  | opener (condition : String) (span : Span)
  /-- It holds an entry of a choice. -/
  | entry (text : String) (condition : Option String) (span : Span)
  /-- It holds a command of an entry. -/
  | option (c : Command)
  /-- It turns to the other arm of a branch. -/
  | turn
  /-- It closes a branch. -/
  | close
  /-- It is blank. -/
  | blank
  /-- It opens the body once more. -/
  | fence

namespace Role

/-- Whether a line with this role holds a step, an entry or a command of an entry. -/
def isItem : Role → Bool
  | .spoken _ _ | .command _ _ | .opener _ _ | .entry _ _ _ | .option _ => true
  | .turn | .close | .blank | .fence => false

/-- The span in the steps that a line with this role has. -/
def span? : Role → Option Span
  | .spoken _ span | .command _ span | .opener _ span | .entry _ _ span => some span
  | _ => none

/-- The line of a number can have the role, and what the role says is what is read from the line. -/
inductive Fits (number : Nat) (line : List Char) : Role → Prop
  | spoken : Text.trim line ≠ [] → arrow? line = none → commandBody? line = none →
      Fits number line (.spoken (String.ofList (Text.trimEnd line)) (lineSpan number line))
  | command {body : List Char} {c : Command} : commandBody? line = some body →
      ifCondition? body = none → Command.ofText body = .ok c →
      Fits number line (.command c (lineSpan number line))
  | opener {body condition : List Char} : commandBody? line = some body →
      ifCondition? body = some condition →
      Fits number line (.opener (String.ofList condition) (lineSpan number line))
  | entry {before rest : List Char} {e : EntryText} : arrow? line = some (before, rest) →
      EntryText.ofText rest = .ok e →
      Fits number line
        (.entry (String.ofList e.label) (e.condition.map String.ofList) (lineSpan number line))
  | option {body : List Char} {c : Command} : isIndented line = true →
      commandBody? line = some body → ifCondition? body = none → Command.ofText body = .ok c →
      Fits number line (.option c)
  | turn {body : List Char} : commandBody? line = some body → isElse body = true →
      Fits number line .turn
  | close {body : List Char} : commandBody? line = some body → isEndif body = true →
      Fits number line .close
  | blank : Text.trim line = [] → Fits number line .blank
  | fence : isFence (Text.trim line) = true → Fits number line .fence

/-- The span that a role has in the steps is that of its line. -/
theorem Fits.span_eq {number : Nat} {line : List Char} {role : Role} {span : Span}
    (h : role.Fits number line) (hspan : role.span? = some span) : span = lineSpan number line := by
  cases h <;> cases hspan <;> rfl

end Role

/-- The lines of an entry: its own, and those of its commands directly under it. -/
def Entry.roles (e : Entry) : List Role :=
  .entry e.text e.condition e.span :: e.commands.map .option

/-! ## Layouts -/

/-- Lines with these roles, one after the other, hold the steps, which are those of an arm or, for
none, those of a node. A choice has the span of its first entry, and its first option is the
default. Behind the line that turns to it, an arm may be turned to again, to no effect. -/
inductive Laid : Option Arm → List Step → List Role → Prop
  | nil {arm : Option Arm} : Laid arm [] []
  | blank {arm : Option Arm} {steps : List Step} {roles : List Role} :
      Laid arm steps roles → Laid arm steps (.blank :: roles)
  | fence {steps : List Step} {roles : List Role} :
      Laid none steps roles → Laid none steps (.fence :: roles)
  | turn {steps : List Step} {roles : List Role} :
      Laid (some .elseArm) steps roles → Laid (some .elseArm) steps (.turn :: roles)
  | line {arm : Option Arm} {steps : List Step} {roles : List Role} (text : String) (span : Span) :
      Laid arm steps roles → Laid arm (.line text span :: steps) (.spoken text span :: roles)
  | command {arm : Option Arm} {steps : List Step} {roles : List Role} (c : Command) (span : Span) :
      Laid arm steps roles → Laid arm (.command c span :: steps) (.command c span :: roles)
  | choice {arm : Option Arm} {steps : List Step} {roles : List Role} (first : Entry)
      (more : List Entry) (timeLimit : Option Float) :
      Laid arm steps roles →
      Laid arm (.choice ⟨first :: more, timeLimit, 0, first.span⟩ :: steps)
        ((first :: more).flatMap Entry.roles ++ roles)
  | branch {arm : Option Arm} {steps thenSteps : List Step} {roles thenRoles : List Role}
      (condition : String) (span : Span) :
      Laid (some .thenArm) thenSteps thenRoles → Laid arm steps roles →
      Laid arm (.branch condition thenSteps [] span :: steps)
        (.opener condition span :: thenRoles ++ .close :: roles)
  | branchElse {arm : Option Arm} {steps thenSteps elseSteps : List Step}
      {roles thenRoles elseRoles : List Role} (condition : String) (span : Span) :
      Laid (some .thenArm) thenSteps thenRoles → Laid (some .elseArm) elseSteps elseRoles →
      Laid arm steps roles →
      Laid arm (.branch condition thenSteps elseSteps span :: steps)
        (.opener condition span :: thenRoles ++ .turn :: elseRoles ++ .close :: roles)

/-- Steps on some lines and more steps on the lines below them. -/
theorem Laid.append {arm : Option Arm} {steps more : List Step} {roles moreRoles : List Role}
    (h : Laid arm steps roles) (hmore : Laid arm more moreRoles) :
    Laid arm (steps ++ more) (roles ++ moreRoles) := by
  induction h with
  | nil => exact hmore
  | blank _ ih => exact .blank (ih hmore)
  | fence _ ih => exact .fence (ih hmore)
  | turn _ ih => exact .turn (ih hmore)
  | line text span _ ih => exact .line text span (ih hmore)
  | command c span _ ih => exact .command c span (ih hmore)
  | choice first rest timeLimit _ ih =>
    rw [List.append_assoc]
    exact .choice first rest timeLimit (ih hmore)
  | branch condition span hthen _ _ ih =>
    rw [List.append_assoc]
    exact .branch condition span hthen (ih hmore)
  | branchElse condition span hthen helse _ _ _ ih =>
    rw [List.append_assoc]
    exact .branchElse condition span hthen helse (ih hmore)

/-- Lines without steps below some steps. -/
theorem Laid.append_lines {arm : Option Arm} {steps : List Step} {roles more : List Role}
    (h : Laid arm steps roles) (hmore : Laid arm [] more) : Laid arm steps (roles ++ more) := by
  rw [← List.append_nil steps]
  exact h.append hmore

/-! ## The walk -/

mutual
/-- The lines of a step in preorder: the line of a branch before those of its arms, and the line of
an entry before those of its commands. -/
def Step.walk : Step → List Role
  | .line text span => [.spoken text span]
  | .command c span => [.command c span]
  | .choice c => c.entries.flatMap Entry.roles
  | .branch condition thenSteps elseSteps span =>
    .opener condition span :: (Step.walkAll thenSteps ++ Step.walkAll elseSteps)

/-- The lines of some steps in preorder. -/
def Step.walkAll : List Step → List Role
  | [] => []
  | s :: rest => s.walk ++ Step.walkAll rest
end

theorem Entry.filter_roles (entries : List Entry) :
    (entries.flatMap roles).filter Role.isItem = entries.flatMap roles := by
  refine List.filter_eq_self.mpr fun role hrole => ?_
  obtain ⟨e, -, hrole⟩ := List.mem_flatMap.mp hrole
  rcases List.mem_cons.mp hrole with rfl | hrole
  · rfl
  · obtain ⟨c, -, rfl⟩ := List.mem_map.mp hrole
    rfl

/-- **The walk meets the lines that hold something**, in their order and once each. -/
theorem Laid.walkAll_eq {arm : Option Arm} {steps : List Step} {roles : List Role}
    (h : Laid arm steps roles) : Step.walkAll steps = roles.filter Role.isItem := by
  induction h with
  | nil => rfl
  | blank _ ih => exact ih
  | fence _ ih => exact ih
  | turn _ ih => exact ih
  | line text span _ ih =>
    rw [Step.walkAll, ih]
    rfl
  | command c span _ ih =>
    rw [Step.walkAll, ih]
    rfl
  | choice first more timeLimit _ ih =>
    rw [Step.walkAll, ih, List.filter_append, Entry.filter_roles]
    rfl
  | branch condition span _ _ ihthen ih =>
    rw [Step.walkAll, Step.walk, ihthen, ih, List.filter_append]
    simp [Step.walkAll, Role.isItem, List.filter_cons]
  | branchElse condition span _ _ _ ihthen ihelse ih =>
    rw [Step.walkAll, Step.walk, ihthen, ihelse, ih, List.filter_append, List.filter_append]
    simp [Role.isItem, List.filter_cons]

end Dialogue
