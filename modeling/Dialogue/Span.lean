/-!
# Spans

A span is a stretch of one line of a script, from one column to another, both counted from one.
Scripts are read line by line, so no span crosses a line end.
-/

namespace Dialogue

/-- A stretch of a line. Spans that are read from outside may be given in any way; those the
library makes end no earlier than they start. -/
structure Span where
  line : UInt32
  column : UInt32
  endColumn : UInt32
  deriving DecidableEq, Repr

namespace Span

/-- The span from `column` to `endColumn`, or just `column` if the end would come first. -/
def between (line column endColumn : UInt32) : Span :=
  ⟨line, column, if endColumn < column then column else endColumn⟩

/-- The span of one column. -/
def point (line column : UInt32) : Span := between line column column

/-- The span of a whole line that holds `text`; an empty line counts as one column. -/
def wholeLine (line : UInt32) (text : List Char) : Span :=
  between line 1 (UInt32.ofNat text.length)

/-- The span moved to the right. -/
def shift (s : Span) (columns : UInt32) : Span :=
  between s.line (s.column + columns) (s.endColumn + columns)

/-- What is written for a span: where it starts. -/
def text (s : Span) : String := toString s.line ++ ":" ++ toString s.column

end Span

end Dialogue
