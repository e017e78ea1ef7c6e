import Dialogue.Text.Lines

/-!
# Sources

A script to be read: its name, which reports give, and its lines. All kinds of line endings count
alike, so the line numbers of a source do not depend on where it was written.
-/

namespace Dialogue

/-- A script as named lines. -/
structure Source where
  name : String
  lines : List String

namespace Source

/-- The source that a text holds. -/
def ofText (name text : String) : Source :=
  ⟨name, (Text.splitLines text.toList).map String.ofList⟩

/-- The text of a source, with a line feed between its lines. -/
def text (s : Source) : String := "\n".intercalate s.lines

/-- A line by its number, counted from one. -/
def line? (s : Source) (number : Nat) : Option String :=
  if number = 0 then none else s.lines[number - 1]?

end Source

end Dialogue
