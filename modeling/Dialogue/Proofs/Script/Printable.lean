import Dialogue.Proofs.Decimal.Denoting
import Dialogue.Script.Printer

/-!
# Nodes that can be written

`renderScript` writes any nodes, but not every text means in a script what it says: a label with a
bracket may hold a tag, a line may look like a title, and a name with a line feed in it stands on
two lines. `Node.Printable` is the language of the writer: the nodes whose texts keep their meaning.
It is relative to `numeral`, which has to write the numbers of the nodes as numerals that denote
them.

Every condition is decidable, so whether given nodes can be written can be computed.
-/

namespace Dialogue

/-! ## Texts -/

namespace Text

/-- A text of one line without blanks at its ends. -/
structure Plain (cs : List Char) : Prop where
  trimmed : Trimmed cs
  oneLine : OneLine cs

instance (cs : List Char) : Decidable (Plain cs) :=
  decidable_of_iff (Trimmed cs ∧ OneLine cs) ⟨fun ⟨h, h'⟩ => ⟨h, h'⟩, fun ⟨h, h'⟩ => ⟨h, h'⟩⟩

/-- A plain text without brackets. -/
structure Unbracketed (cs : List Char) : Prop extends Plain cs where
  noOpen : '[' ∉ cs
  noClose : ']' ∉ cs

instance (cs : List Char) : Decidable (Unbracketed cs) :=
  decidable_of_iff (Plain cs ∧ '[' ∉ cs ∧ ']' ∉ cs)
    ⟨fun ⟨h, h', h''⟩ => ⟨h, h', h''⟩, fun ⟨h, h', h''⟩ => ⟨h, h', h''⟩⟩

/-- A text that is read as a line of dialogue: it is not blank and looks like nothing else. -/
structure Spoken (cs : List Char) : Prop where
  oneLine : OneLine cs
  noTrailingBlank : trimEnd cs = cs
  notBlank : trim cs ≠ []
  notFence : trim cs ≠ "---".toList
  notClose : trim cs ≠ "===".toList
  notTitle : sameIgnoringCase ((trim cs).take 6) "title:".toList = false
  notArrow : ¬ "->".toList <+: trim cs
  notCommand : ¬ ("<<".toList <+: trim cs ∧ ">>".toList <:+ trim cs)

instance (cs : List Char) : Decidable (Spoken cs) :=
  decidable_of_iff
    (OneLine cs ∧ trimEnd cs = cs ∧ trim cs ≠ [] ∧ trim cs ≠ "---".toList ∧
      trim cs ≠ "===".toList ∧ sameIgnoringCase ((trim cs).take 6) "title:".toList = false ∧
      ¬ "->".toList <+: trim cs ∧ ¬ ("<<".toList <+: trim cs ∧ ">>".toList <:+ trim cs))
    ⟨fun ⟨h₁, h₂, h₃, h₄, h₅, h₆, h₇, h₈⟩ => ⟨h₁, h₂, h₃, h₄, h₅, h₆, h₇, h₈⟩,
      fun ⟨h₁, h₂, h₃, h₄, h₅, h₆, h₇, h₈⟩ => ⟨h₁, h₂, h₃, h₄, h₅, h₆, h₇, h₈⟩⟩

end Text

variable (numeral : Float → List Char)

/-! ## Commands -/

/-- A value that can be set. Between the quotes of a string everything but a line ending may stand;
null has no text of its own. -/
def Value.Printable : Value → Prop
  | .bool _ => True
  | .number x => Denotes (numeral x) x
  | .string s => Text.OneLine s.toList
  | .null => False

instance Value.decidablePrintable : (v : Value) → Decidable (v.Printable numeral)
  | .bool _ => inferInstanceAs (Decidable True)
  | .number x => inferInstanceAs (Decidable (Denotes (numeral x) x))
  | .string s => inferInstanceAs (Decidable (Text.OneLine s.toList))
  | .null => inferInstanceAs (Decidable False)

/-- A command whose names are plain texts and not empty. The name of a variable ends at the first
equals sign. -/
def Command.Printable : Command → Prop
  | .jump target => Text.Plain target.toList ∧ target.toList ≠ []
  | .set name v =>
    Text.Plain name.toList ∧ name.toList ≠ [] ∧ '=' ∉ name.toList ∧ v.Printable numeral

instance Command.decidablePrintable : (c : Command) → Decidable (c.Printable numeral)
  | .jump target => inferInstanceAs (Decidable (Text.Plain target.toList ∧ target.toList ≠ []))
  | .set name v =>
    inferInstanceAs (Decidable
      (Text.Plain name.toList ∧ name.toList ≠ [] ∧ '=' ∉ name.toList ∧ v.Printable numeral))

/-! ## Choices -/

structure Entry.Printable (e : Entry) : Prop where
  label : Text.Unbracketed e.text.toList
  condition : ∀ c ∈ e.condition, Text.Unbracketed c.toList ∧ c.toList ≠ []
  commands : ∀ c ∈ e.commands, c.Printable numeral

instance Entry.decidablePrintable (e : Entry) : Decidable (e.Printable numeral) :=
  decidable_of_iff
    (Text.Unbracketed e.text.toList ∧
      (∀ c ∈ e.condition, Text.Unbracketed c.toList ∧ c.toList ≠ []) ∧
      ∀ c ∈ e.commands, c.Printable numeral)
    ⟨fun ⟨h, h', h''⟩ => ⟨h, h', h''⟩, fun ⟨h, h', h''⟩ => ⟨h, h', h''⟩⟩

/-- A choice as the reader makes them: with an entry, and with the first one as the default. -/
structure Choice.Printable (c : Choice) : Prop where
  entries_ne_nil : c.entries ≠ []
  entries : ∀ e ∈ c.entries, e.Printable numeral
  timeLimit : ∀ t ∈ c.timeLimit, Denotes (numeral t) t ∧ 0 ≤ t
  defaultOption : c.defaultOption = 0

instance Choice.decidablePrintable (c : Choice) : Decidable (c.Printable numeral) :=
  decidable_of_iff
    (c.entries ≠ [] ∧ (∀ e ∈ c.entries, e.Printable numeral) ∧
      (∀ t ∈ c.timeLimit, Denotes (numeral t) t ∧ 0 ≤ t) ∧ c.defaultOption = 0)
    ⟨fun ⟨h₁, h₂, h₃, h₄⟩ => ⟨h₁, h₂, h₃, h₄⟩, fun ⟨h₁, h₂, h₃, h₄⟩ => ⟨h₁, h₂, h₃, h₄⟩⟩

/-! ## Steps and nodes -/

mutual
def Step.Printable : Step → Prop
  | .line text _ => Text.Spoken text.toList
  | .choice c => c.Printable numeral
  | .command c _ => c.Printable numeral
  | .branch condition thenSteps elseSteps _ =>
    Text.Plain condition.toList ∧ Step.AllPrintable thenSteps ∧ Step.AllPrintable elseSteps

def Step.AllPrintable : List Step → Prop
  | [] => True
  | s :: rest => s.Printable ∧ Step.AllPrintable rest
end

mutual
instance Step.decidablePrintable : (s : Step) → Decidable (s.Printable numeral)
  | .line text _ => inferInstanceAs (Decidable (Text.Spoken text.toList))
  | .choice c => inferInstanceAs (Decidable (c.Printable numeral))
  | .command c _ => inferInstanceAs (Decidable (c.Printable numeral))
  | .branch condition thenSteps elseSteps _ =>
    have := Step.decidableAllPrintable thenSteps
    have := Step.decidableAllPrintable elseSteps
    inferInstanceAs (Decidable (Text.Plain condition.toList ∧
      Step.AllPrintable numeral thenSteps ∧ Step.AllPrintable numeral elseSteps))

instance Step.decidableAllPrintable :
    (steps : List Step) → Decidable (Step.AllPrintable numeral steps)
  | [] => inferInstanceAs (Decidable True)
  | s :: rest =>
    have := Step.decidablePrintable s
    have := Step.decidableAllPrintable rest
    inferInstanceAs (Decidable (s.Printable numeral ∧ Step.AllPrintable numeral rest))
end

/-- The node can be written, and what is written means the node. -/
structure Node.Printable (n : Node) : Prop where
  name : Text.Plain n.name.toList
  name_ne_nil : n.name.toList ≠ []
  steps : Step.AllPrintable numeral n.steps

instance Node.decidablePrintable (n : Node) : Decidable (n.Printable numeral) :=
  decidable_of_iff
    (Text.Plain n.name.toList ∧ n.name.toList ≠ [] ∧ Step.AllPrintable numeral n.steps)
    ⟨fun ⟨h, h', h''⟩ => ⟨h, h', h''⟩, fun ⟨h, h', h''⟩ => ⟨h, h', h''⟩⟩

end Dialogue
