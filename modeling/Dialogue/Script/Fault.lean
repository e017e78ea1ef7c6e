import Dialogue.Script.ChoiceText
import Dialogue.Script.CommandText
import Dialogue.Script.Source

/-!
# Faults of scripts

Everything that can make a script unreadable. A fault is a cause; its code, its wording and the
advice that goes with it are functions of the cause. `Report.ofFault` adds the place.
-/

namespace Dialogue

/-- A reason why a script cannot be read. -/
inductive ScriptFault where
  | emptyTitle
  | fenceWithoutTitle
  | openIfAtEndOfScript
  | openIfAtEndOfNode
  | tag (e : TagFault)
  | command (e : CommandFault)
  | optionCommand (e : CommandFault)
  | ifUnderOption
  deriving DecidableEq, Repr

namespace ScriptFault

/-- The code of a fault. -/
def code : ScriptFault → Code
  | .emptyTitle => ⟨100⟩
  | .fenceWithoutTitle => ⟨100⟩
  | .openIfAtEndOfScript => ⟨101⟩
  | .openIfAtEndOfNode => ⟨101⟩
  | .tag e => e.code
  | .command e => e.code
  | .optionCommand _ => ⟨202⟩
  | .ifUnderOption => ⟨202⟩

/-- The wording of a fault. -/
def message : ScriptFault → String
  | .emptyTitle => "node title is empty"
  | .fenceWithoutTitle => "'---' without a preceding title"
  | .openIfAtEndOfScript => "<<if>> block reached end of script without <<endif>>"
  | .openIfAtEndOfNode => "<<if>> block reached end of node without <<endif>>"
  | .tag e => e.message
  | .command e => e.message
  | .optionCommand e => "invalid command under choice: " ++ e.message
  | .ifUnderOption => "invalid command under choice: <<if>> cannot open inside an option"

/-- How a fault can be mended. -/
def suggestion : ScriptFault → Option String
  | .emptyTitle => some "write title: NodeName"
  | .fenceWithoutTitle => some "start the node with title: NodeName"
  | .openIfAtEndOfScript => some "close the block with <<endif>>"
  | .openIfAtEndOfNode => some "close the block with <<endif>>"
  | .tag _ => none
  | .command e => e.suggestion
  | .optionCommand _ => none
  | .ifUnderOption => some "guard the option with an [if ...] tag instead"

end ScriptFault

/-- The report of a fault at a place of a source. -/
def Report.ofFault (s : Source) (e : ScriptFault) (span : Span) : Report :=
  .ofCode s.name e.code e.message span ((s.line? span.line.toNat).getD "") e.suggestion

end Dialogue
