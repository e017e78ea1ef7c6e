import Dialogue.Span

/-!
# Reports

A script that cannot be read is answered with one report: which rule is broken, where, and what the
offending line holds. Each kind of fault has a number, and the hundreds of the number tell the area
of the language that it belongs to.
-/

namespace Dialogue

/-- The areas of the script language that a fault can belong to. -/
inductive Area where
  | layout
  | choice
  | command
  deriving DecidableEq, Repr

/-- The word for an area. -/
def Area.word : Area → String
  | .layout => "structure"
  | .choice => "choice"
  | .command => "command"

/-- The number of a kind of fault. -/
structure Code where
  number : UInt16
  deriving DecidableEq, Repr

namespace Code

/-- The area of a code: the two hundreds are about choices, the three hundreds about commands, and
all else about the layout of the script. -/
def area (c : Code) : Area :=
  if 200 ≤ c.number ∧ c.number ≤ 299 then .choice
  else if 300 ≤ c.number ∧ c.number ≤ 399 then .command
  else .layout

/-- What is written for a code. -/
def text (c : Code) : String := "E" ++ toString c.number

end Code

/-- The answer to a script that cannot be read. -/
structure Report where
  file : String
  code : Code
  area : Area
  message : String
  span : Span
  sourceLine : String
  suggestion : Option String
  deriving DecidableEq, Repr

namespace Report

/-- The report of a fault; its area is that of its code. -/
def ofCode (file : String) (code : Code) (message : String) (span : Span) (sourceLine : String)
    (suggestion : Option String) : Report :=
  ⟨file, code, code.area, message, span, sourceLine, suggestion⟩

/-- A report on one line. -/
def text (r : Report) : String :=
  r.file ++ ":" ++ r.span.text ++ ": " ++ r.code.text ++ " [" ++ r.area.word ++ "] " ++ r.message

end Report

end Dialogue
