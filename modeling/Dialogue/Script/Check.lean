import Dialogue.Script.Draft

/-!
# Checking scripts

A check says whether a script can be read, without making a runner of it: either the names of its
nodes, or the report of its first fault.
-/

namespace Dialogue

/-- The outcome of a check. Outcomes that are read from outside may combine the fields in any
way. -/
structure Check where
  success : Bool
  nodes : List String
  report : Option Report
  deriving DecidableEq, Repr

/-- Checks the script that a text holds. -/
def Check.ofText (name text : String) : Check :=
  match Graph.ofText name text with
  | .ok g => ⟨true, g.names, none⟩
  | .error r => ⟨false, [], some r⟩

end Dialogue
