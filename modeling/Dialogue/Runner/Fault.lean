import Dialogue.Condition.Fault

/-!
# Faults of a running dialogue

Why a call to a runner fails. What the call did before the fault stays done.
-/

namespace Dialogue

/-- A reason why a call to a runner fails. -/
inductive RunFault where
  /-- A start or a jump names a node that is not there. -/
  | unknownNode (name : String)
  /-- The conditions of a choice leave no entry to offer. -/
  | noOptions (node : String)
  /-- An option is chosen that is not on offer. -/
  | optionOutOfRange (index available : Nat)
  /-- A condition has no value; its text as evaluated. -/
  | condition (text : String) (cause : ConditionFault)
  /-- A call takes more steps than the limit without coming to a stop. -/
  | stepLimit (limit : UInt64) (node : String)
  deriving DecidableEq, Repr

/-- The wording of a fault. -/
def RunFault.message : RunFault → String
  | .unknownNode name => "unknown node '" ++ name ++ "'"
  | .noOptions node => "choice in node '" ++ node ++ "' has no available options"
  | .optionOutOfRange index available =>
    "choice index " ++ toString index ++ " out of range (" ++ toString available
      ++ " options displayed)"
  | .condition text cause => "condition '" ++ text ++ "' failed: " ++ cause.message
  | .stepLimit limit node =>
    "step limit of " ++ toString limit ++ " exceeded in node '" ++ node ++ "'"

end Dialogue
