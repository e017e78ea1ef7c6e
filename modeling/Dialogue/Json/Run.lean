import Dialogue.Json.Script
import Dialogue.Runner.Config
import Dialogue.Runner.Event
import Dialogue.Script.Check

/-!
# The data form of settings, events and checks

How what surrounds a runner is written as JSON trees and read back. An event is an object whose
field `event` names its kind; read from an array, the kind comes first.
-/

namespace Dialogue

/-! ### Settings -/

/-- The form of settings. -/
def Config.toJson (c : Config) : Json :=
  .object [("step_limit", .int c.stepLimit.toNat),
    ("event_queue_limit", .int c.backlogLimit.toNat)]

/-- The settings of a form; what is left out has its usual value. -/
def Config.ofJson? (j : Json) : Option Config := do
  let r ← j.partialRecord? ["step_limit", "event_queue_limit"]
  let stepLimit ← r.getD? "step_limit" Json.uint64? Config.usual.stepLimit
  let backlogLimit ← r.getD? "event_queue_limit" Json.uint64? Config.usual.backlogLimit
  pure ⟨stepLimit, backlogLimit⟩

/-! ### Events -/

/-- The form of an event. -/
def Event.toJson : Event → Json
  | .lineReady text => .object [("event", .string "line_ready"), ("text", .string text)]
  | .optionsReady options =>
    .object [("event", .string "options_ready"), ("options", .array (options.map .string))]
  | .dialogueEnded => .object [("event", .string "dialogue_ended")]
  | .variableChanged name value =>
    .object [("event", .string "variable_changed"), ("name", .string name),
      ("value", value.toJson)]
  | .timerStarted seconds =>
    .object [("event", .string "timer_started"), ("seconds", .float seconds)]
  | .timerUpdated remaining =>
    .object [("event", .string "timer_updated"), ("remaining", .float remaining)]
  | .timerExpired => .object [("event", .string "timer_expired")]

/-- The event of a kind whose data has a form. -/
def Event.ofData? (kind : String) (data : Json) : Option Event :=
  match kind with
  | "line_ready" => do
    let r ← data.record? ["text"]
    let text ← r.get? "text" Json.string?
    pure (.lineReady text)
  | "options_ready" => do
    let r ← data.record? ["options"]
    let options ← r.get? "options" (Json.list? Json.string?)
    pure (.optionsReady options)
  | "dialogue_ended" => do
    let _ ← data.record? []
    pure .dialogueEnded
  | "variable_changed" => do
    let r ← data.record? ["name", "value"]
    let name ← r.get? "name" Json.string?
    let value ← r.get? "value" Value.ofJson?
    pure (.variableChanged name value)
  | "timer_started" => do
    let r ← data.record? ["seconds"]
    let seconds ← r.get? "seconds" Json.float?
    pure (.timerStarted seconds)
  | "timer_updated" => do
    let r ← data.record? ["remaining"]
    let remaining ← r.get? "remaining" Json.float?
    pure (.timerUpdated remaining)
  | "timer_expired" => do
    let _ ← data.record? []
    pure .timerExpired
  | _ => none

/-- The event of a form. -/
def Event.ofJson? : Json → Option Event
  | .object fields => do
    let kind ← Json.Fields.get? fields "event" Json.string?
    Event.ofData? kind (.object fields)
  | .array (.string kind :: items) => Event.ofData? kind (.array items)
  | _ => none

/-! ### Checks -/

/-- The form of the outcome of a check; a missing report leaves no field. -/
def Check.toJson (c : Check) : Json :=
  .object ([("success", .bool c.success), ("nodes", .array (c.nodes.map .string))]
    ++ match c.report with
      | none => []
      | some r => [("error", r.toJson)])

/-- The outcome of a check of a form. -/
def Check.ofJson? (j : Json) : Option Check := do
  let r ← j.record? ["success", "nodes", "error"]
  let success ← r.get? "success" Json.bool?
  let nodes ← r.get? "nodes" (Json.list? Json.string?)
  let report ← r.nullable? "error" Report.ofJson?
  pure ⟨success, nodes, report⟩

end Dialogue
