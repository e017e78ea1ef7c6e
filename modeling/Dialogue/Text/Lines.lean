/-!
# Lines of a text

A line ends with a line feed, a carriage return, or the two together; the last line needs no end.
`splitLines` is the composition of `unifyNewlines`, which writes every ending as a line feed, with a
split at the line feeds. A text always has at least one line.
-/

namespace Dialogue.Text

/-- The text with every line ending written as one line feed. -/
def unifyNewlines : List Char → List Char
  | [] => []
  | '\r' :: '\n' :: cs => '\n' :: unifyNewlines cs
  | c :: cs => (if c = '\r' then '\n' else c) :: unifyNewlines cs

/-- The lines of a text, without their endings. -/
def splitLines (cs : List Char) : List (List Char) := (unifyNewlines cs).splitOn '\n'

end Dialogue.Text
