import Dialogue.Interpolation
import Dialogue.Runner.Backlog
import Dialogue.Runner.Config
import Dialogue.Runner.Scene
import Dialogue.Script.Draft

/-!
# Runners

A runner is a graph with settings and a scene that runs on it. Around the scene it keeps what hosts
need to hear of it: the listeners, and the backlog of events that have not been collected. Neither
has any influence on the scene.
-/

namespace Dialogue

/-- A dialogue that runs for a host. -/
structure Runner where
  graph : Graph
  config : Config
  scene : Scene
  backlog : Backlog
  listeners : List String

/-- What a call to a runner gives: the runner after it, the events on the way, and the fault, if
any. -/
structure Answer where
  runner : Runner
  events : List Event
  fault : Option RunFault

namespace Answer

/-- What the listeners heard of the events of a call. -/
def heard (a : Answer) : List (String × Event) := Event.broadcast a.runner.listeners a.events

end Answer

namespace Runner

/-- The runner of a graph before the first call. -/
def ofGraph (g : Graph) (config : Config) : Runner :=
  ⟨g, config, .initial, .empty config.backlogLimit, []⟩

/-- The runner of the script that a text holds. -/
def ofText (name text : String) (config : Config) : Except Report Runner :=
  (Graph.ofText name text).map fun g => ofGraph g config

/-- The runner after a burst of its scene. -/
def take (r : Runner) (b : Burst) : Answer :=
  ⟨{ r with scene := b.scene, backlog := r.backlog.add b.events }, b.events, b.fault⟩

/-! ### Calls -/

/-- Jumps to a node and goes on from there. -/
def start (r : Runner) (name : String) : Answer :=
  r.take (r.scene.start r.graph r.config.stepLimit name)

/-- Goes on to the next stop. -/
def proceed (r : Runner) : Answer := r.take (r.scene.proceed r.graph r.config.stepLimit)

/-- Takes an option. -/
def choose (r : Runner) (index : Nat) : Answer :=
  r.take (r.scene.choose r.graph r.config.stepLimit index)

/-- Lets the countdown run. -/
def tick (r : Runner) (seconds : Float) : Answer :=
  r.take (r.scene.tick r.graph r.config.stepLimit seconds)

/-- Registers a listener. -/
def subscribe (r : Runner) (listener : String) : Runner :=
  { r with listeners := r.listeners ++ [listener] }

/-- The events that have not been collected, and the runner after they have been. -/
def drain (r : Runner) : List Event × Runner :=
  (r.backlog.toList, { r with backlog := r.backlog.drain })

/-! ### Variables -/

/-- The variables of a runner. -/
def vars (r : Runner) : Store := r.scene.vars

/-- The runner with other variables. No event tells of it. -/
def withVars (r : Runner) (vars : Store) : Runner := { r with scene := { r.scene with vars } }

/-- Sets a variable. No event tells of it. -/
def set (r : Runner) (name : String) (v : Value) : Runner := r.withVars (r.vars.set name v)

/-- A text with the names in braces replaced by the values of the variables. -/
def interpolate (r : Runner) (text : String) : String := r.vars.interpolate text

end Runner

end Dialogue
