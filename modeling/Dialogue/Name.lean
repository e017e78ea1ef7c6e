import Dialogue.Text.Blank
import Dialogue.Text.Case

/-!
# Names

Nodes and variables are found by name, whatever the case of its letters and the blanks around it.
Two names mean the same thing when they have the same *folded form*, and every table of named things
is keyed by folded forms.
-/

namespace Dialogue

/-- The folded form of a name: trimmed and in lower case. -/
def foldName (name : String) : String := String.ofList (Text.lowercase (Text.trim name.toList))

end Dialogue
