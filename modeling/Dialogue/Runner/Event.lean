import Dialogue.Value

/-!
# Events

What a running dialogue tells its host. A line, a set of options and the end of the dialogue are the
points where it stops and waits for the host to go on.
-/

namespace Dialogue

/-- Something that a running dialogue tells its host. -/
inductive Event where
  /-- A line to show, with its names in braces as written. -/
  | lineReady (text : String)
  /-- The labels of the entries on offer. -/
  | optionsReady (options : List String)
  | dialogueEnded
  /-- A variable that a command has set, by the name as written. -/
  | variableChanged (name : String) (value : Value)
  | timerStarted (seconds : Float)
  | timerUpdated (remaining : Float)
  | timerExpired
  deriving DecidableEq, Repr

/-- What listeners hear of events: every event goes to all of them, in the order in which they were
registered, before the next one does. -/
def Event.broadcast (listeners : List String) (events : List Event) : List (String × Event) :=
  events.flatMap fun e => listeners.map fun l => (l, e)

end Dialogue
