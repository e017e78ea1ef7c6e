import Dialogue.Json.Basic
import Dialogue.Report
import Dialogue.Script.Graph

/-!
# The data form of scripts

How values, graphs and reports are written as JSON trees and read back. A value is the leaf that it
looks like. A step or a command is an object whose one field names its kind. Reading a tree that has
not the right form gives nothing, and reading what was written gives the thing itself.
-/

namespace Dialogue

/-! ### Values and commands -/

/-- The form of a value. -/
def Value.toJson : Value → Json
  | .bool b => .bool b
  | .number x => .float x
  | .string s => .string s
  | .null => .null

/-- The value of a form. -/
def Value.ofJson? : Json → Option Value
  | .bool b => some (.bool b)
  | .int n => some (.number (Float.ofInt n))
  | .float x => some (.number x)
  | .string s => some (.string s)
  | .null => some .null
  | _ => none

/-- The form of a span. -/
def Span.toJson (s : Span) : Json :=
  .object [("line", .int s.line.toNat), ("column", .int s.column.toNat),
    ("end_column", .int s.endColumn.toNat)]

/-- The span in the fields of a record. -/
def Span.ofFields? (r : Json.Fields) : Option Span := do
  let line ← r.get? "line" Json.uint32?
  let column ← r.get? "column" Json.uint32?
  let endColumn ← r.get? "end_column" Json.uint32?
  pure ⟨line, column, endColumn⟩

/-- The span of a form. -/
def Span.ofJson? (j : Json) : Option Span :=
  (j.record? ["line", "column", "end_column"]).bind ofFields?

/-- The form of a command. -/
def Command.toJson : Command → Json
  | .jump target => .object [("Jump", .object [("target", .string target)])]
  | .set name v => .object [("Set", .object [("name", .string name), ("value", v.toJson)])]

/-- The command of a form. What belongs to the command has to be an object. -/
def Command.ofJson? : Json → Option Command
  | .object [("Jump", body)] => do
    let r ← body.fields?
    let target ← r.get? "target" Json.string?
    pure (.jump target)
  | .object [("Set", body)] => do
    let r ← body.fields?
    let name ← r.get? "name" Json.string?
    let value ← r.get? "value" Value.ofJson?
    pure (.set name value)
  | _ => none

/-! ### Choices -/

/-- The form of an entry. -/
def Entry.toJson (e : Entry) : Json :=
  .object [("text", .string e.text), ("condition", .ofOption .string e.condition),
    ("commands", .array (e.commands.map Command.toJson)), ("span", e.span.toJson)]

/-- The entry of a form. -/
def Entry.ofJson? (j : Json) : Option Entry := do
  let r ← j.record? ["text", "condition", "commands", "span"]
  let text ← r.get? "text" Json.string?
  let condition ← r.nullable? "condition" Json.string?
  let commands ← r.get? "commands" (Json.list? Command.ofJson?)
  let span ← r.get? "span" Span.ofJson?
  pure ⟨text, condition, commands, span⟩

/-- The form of a choice. -/
def Choice.toJson (c : Choice) : Json :=
  .object [("entries", .array (c.entries.map Entry.toJson)),
    ("time_limit", .ofOption .float c.timeLimit),
    ("default_option", .int c.defaultOption.toNat), ("span", c.span.toJson)]

/-- The choice of a form. -/
def Choice.ofJson? (j : Json) : Option Choice := do
  let r ← j.record? ["entries", "time_limit", "default_option", "span"]
  let entries ← r.get? "entries" (Json.list? Entry.ofJson?)
  let timeLimit ← r.nullable? "time_limit" Json.float?
  let defaultOption ← r.get? "default_option" Json.uint64?
  let span ← r.get? "span" Span.ofJson?
  pure ⟨entries, timeLimit, defaultOption, span⟩

/-! ### Steps -/

mutual
/-- The form of a step. -/
def Step.toJson : Step → Json
  | .line text span =>
    .object [("Line", .object [("text", .string text), ("span", span.toJson)])]
  | .choice c => .object [("Choice", c.toJson)]
  | .command c span =>
    .object [("Command", .object [("command", c.toJson), ("span", span.toJson)])]
  | .branch condition thenSteps elseSteps span =>
    .object [("If", .object [("condition", .string condition),
      ("then_steps", .array (Step.listToJson thenSteps)),
      ("else_steps", .array (Step.listToJson elseSteps)), ("span", span.toJson)])]

/-- The forms of some steps. -/
def Step.listToJson : List Step → List Json
  | [] => []
  | s :: rest => s.toJson :: Step.listToJson rest
end

/-- The line of a form. -/
def Step.lineOfJson? (body : Json) : Option Step := do
  let r ← body.record? ["text", "span"]
  let text ← r.get? "text" Json.string?
  let span ← r.get? "span" Span.ofJson?
  pure (.line text span)

/-- The command step of a form. -/
def Step.commandOfJson? (body : Json) : Option Step := do
  let r ← body.record? ["command", "span"]
  let command ← r.get? "command" Command.ofJson?
  let span ← r.get? "span" Span.ofJson?
  pure (.command command span)

/-- The names of the fields of a branch. -/
def Step.branchFields : List String := ["condition", "then_steps", "else_steps", "span"]

mutual
/-- The step of a form. -/
def Step.ofJson? : Json → Option Step
  | .object [("Line", body)] => Step.lineOfJson? body
  | .object [("Choice", body)] => (Choice.ofJson? body).map .choice
  | .object [("Command", body)] => Step.commandOfJson? body
  | .object [("If", body)] =>
    match _hr : body.record? Step.branchFields with
    | none => none
    | some r =>
      match _ht : r.lookup "then_steps", _he : r.lookup "else_steps" with
      | some (.array thenItems), some (.array elseItems) => do
        let condition ← r.get? "condition" Json.string?
        let thenSteps ← Step.listOfJson? thenItems
        let elseSteps ← Step.listOfJson? elseItems
        let span ← r.get? "span" Span.ofJson?
        pure (.branch condition thenSteps elseSteps span)
      | _, _ => none
  | _ => none
termination_by j => sizeOf j
decreasing_by
  · have := Json.sizeOf_lt_of_record _hr _ht
    simp only [Json.array.sizeOf_spec, Json.object.sizeOf_spec, List.cons.sizeOf_spec,
      Prod.mk.sizeOf_spec] at this ⊢
    omega
  · have := Json.sizeOf_lt_of_record _hr _he
    simp only [Json.array.sizeOf_spec, Json.object.sizeOf_spec, List.cons.sizeOf_spec,
      Prod.mk.sizeOf_spec] at this ⊢
    omega

/-- The steps of some forms. -/
def Step.listOfJson? : List Json → Option (List Step)
  | [] => some []
  | j :: rest => do
    let s ← Step.ofJson? j
    let steps ← Step.listOfJson? rest
    pure (s :: steps)
termination_by items => sizeOf items
end

/-! ### Graphs -/

/-- The form of a node. -/
def Node.toJson (n : Node) : Json :=
  .object [("name", .string n.name), ("steps", .array (Step.listToJson n.steps)),
    ("span", n.span.toJson)]

/-- The node of a form. -/
def Node.ofJson? (j : Json) : Option Node := do
  let r ← j.record? ["name", "steps", "span"]
  let name ← r.get? "name" Json.string?
  let steps ← r.get? "steps" (Json.list? Step.ofJson?)
  let span ← r.get? "span" Span.ofJson?
  pure ⟨name, steps, span⟩

/-- The form of a graph: its nodes by the names under which they are found. -/
def Graph.toJson (g : Graph) : Json :=
  .object [("nodes", .object (g.nodes.entries.map fun e => (e.1, e.2.toJson)))]

/-- The named nodes of a form. -/
def Graph.nodesOfJson? : Json → Option (List (String × Node))
  | .object fields => fields.mapM fun e => (Node.ofJson? e.2).map fun n => (e.1, n)
  | _ => none

/-- The graph of a form. The names need not be those of the nodes. -/
def Graph.ofJson? (j : Json) : Option Graph := do
  let r ← j.record? ["nodes"]
  let nodes ← r.get? "nodes" Graph.nodesOfJson?
  pure ⟨.ofList nodes⟩

/-! ### Reports -/

/-- The area of a form. -/
def Area.ofJson? (j : Json) : Option Area :=
  match j.variant? with
  | some "structure" => some .layout
  | some "choice" => some .choice
  | some "command" => some .command
  | _ => none

/-- The form of a report. Its span is spread over its own fields, and a missing suggestion leaves no
field. -/
def Report.toJson (r : Report) : Json :=
  .object ([("file", .string r.file), ("code", .int r.code.number.toNat),
    ("category", .string r.area.word), ("message", .string r.message),
    ("line", .int r.span.line.toNat), ("column", .int r.span.column.toNat),
    ("end_column", .int r.span.endColumn.toNat), ("source_line", .string r.sourceLine)]
      ++ match r.suggestion with
        | none => []
        | some s => [("suggestion", .string s)])

/-- The report of a form, which has to be an object. -/
def Report.ofJson? (j : Json) : Option Report := do
  let r ← j.fields?
  let file ← r.get? "file" Json.string?
  let code ← r.get? "code" Json.uint16?
  let area ← r.get? "category" Area.ofJson?
  let message ← r.get? "message" Json.string?
  let span ← Span.ofFields? r
  let sourceLine ← r.get? "source_line" Json.string?
  let suggestion ← r.nullable? "suggestion" Json.string?
  pure ⟨file, ⟨code⟩, area, message, span, sourceLine, suggestion⟩

end Dialogue
