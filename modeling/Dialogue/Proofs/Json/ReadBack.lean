import Dialogue.Proofs.Graph.Overwrite
import Dialogue.Proofs.Json.Plain

/-!
# Forms are read back

What is written as a JSON tree is read back as what it was, and so two things of one type with the
same form are the same (`Json.Faithful`). This holds of values, steps, graphs, events, reports and
checks whose numbers are finite; what is no number, or infinite, would be null in a document.

For each record there is one lemma on its reader: an object from whose fields the parts of the
record can be read is read as the record. The readers look for the fields by name, so these lemmas
do not speak of their order, nor of fields that the record does not have. The forms that are written
are objects of this kind, and the lemma on reading a form back gives for each field how it is found.
-/

namespace Dialogue

namespace Json

/-- What is written can be read back from a document, and nothing else is written in the same way;
the numbers have to be finite. -/
structure Faithful {α : Type} (numbers : α → List Float) (write : α → Json)
    (read : Json → Option α) : Prop where
  read_write : ∀ a, AllFinite (numbers a) → read (write a).plain = some a
  write_inj : ∀ a b, AllFinite (numbers a) → AllFinite (numbers b) →
    (write a).plain = (write b).plain → a = b

/-- A form that holds the numbers of the thing only, and is read back as a tree, is faithful. -/
theorem faithful_of_read {α : Type} {numbers : α → List Float} {write : α → Json}
    {read : Json → Option α} (hnumbers : ∀ a, (write a).floats = numbers a)
    (hread : ∀ a, read (write a) = some a) : Faithful numbers write read := by
  have hback : ∀ a, AllFinite (numbers a) → read (write a).plain = some a := by
    intro a ha
    rw [← hnumbers] at ha
    rw [plain_eq_self ha]
    exact hread a
  refine ⟨hback, ?_⟩
  intro a b ha hb heq
  have hsame : some a = some b := by rw [← hback a ha, heq, hback b hb]
  exact Option.some.inj hsame

/-! ## Leaves -/

theorem natBelow?_int {bound n : Nat} (h : n < bound) : (Json.int n).natBelow? bound = some n := by
  rw [natBelow?, if_pos ⟨Int.natCast_nonneg n, Int.ofNat_lt.mpr h⟩, Int.toNat_natCast]

theorem uint16?_toNat (n : UInt16) : (Json.int n.toNat).uint16? = some n := by
  rw [uint16?, natBelow?_int n.toNat_lt_size, Option.map_some, UInt16.ofNat_toNat]

theorem uint32?_toNat (n : UInt32) : (Json.int n.toNat).uint32? = some n := by
  rw [uint32?, natBelow?_int n.toNat_lt_size, Option.map_some, UInt32.ofNat_toNat]

theorem uint64?_toNat (n : UInt64) : (Json.int n.toNat).uint64? = some n := by
  rw [uint64?, natBelow?_int n.toNat_lt_size, Option.map_some, UInt64.ofNat_toNat]

/-! ## Lists -/

theorem mapM_map {α β : Type} {write : α → β} {read : β → Option α}
    (h : ∀ a, read (write a) = some a) (l : List α) : (l.map write).mapM read = some l := by
  induction l with
  | nil => rfl
  | cons a rest ih =>
    rw [List.map_cons, List.mapM_cons, h, ih]
    rfl

theorem list?_map {α : Type} {write : α → Json} {read : Json → Option α}
    (h : ∀ a, read (write a) = some a) (l : List α) : list? read (.array (l.map write)) = some l :=
  mapM_map h l

theorem list?_strings (l : List String) : list? string? (.array (l.map .string)) = some l :=
  @list?_map String .string string? (fun _ => rfl) l

/-! ## Fields -/

namespace Fields

variable {α : Type} {r : Fields} {name : String} {read : Json → Option α}

theorem get?_of_lookup {j : Json} {a : α} (h : r.lookup name = some j) (ha : read j = some a) :
    r.get? name read = some a := by
  rw [get?, h]
  exact ha

/-- A field that is left out is absent. -/
theorem nullable?_of_lookup_eq_none (h : r.lookup name = none) :
    r.nullable? name read = some none := by
  rw [nullable?, h]

/-- A form that is not null is present. -/
theorem nullable?_of_lookup {j : Json} {a : α} (h : r.lookup name = some j) (hnull : j ≠ .null)
    (ha : read j = some a) : r.nullable? name read = some (some a) := by
  rw [nullable?, h]
  split
  · next heq => cases heq
  · next heq => exact absurd (Option.some.inj heq) hnull
  · next heq =>
    cases heq
    rw [ha]
    rfl

/-- Null is what is absent, and no form of what is present is null. -/
theorem nullable?_ofOption {write : α → Json} {o : Option α}
    (h : r.lookup name = some (ofOption write o)) (hnull : ∀ a, write a ≠ .null)
    (ha : ∀ a, read (write a) = some a) : r.nullable? name read = some o := by
  cases o with
  | none => rw [nullable?, h, ofOption]
  | some a => exact nullable?_of_lookup h (hnull a) (ha a)

end Fields

end Json

open Json

/-! ## Scripts -/

theorem Value.ofJson?_toJson (v : Value) : ofJson? v.toJson = some v := by
  cases v <;> rfl

theorem Span.ofFields?_eq {r : Fields} {s : Span} (hline : r.get? "line" uint32? = some s.line)
    (hcolumn : r.get? "column" uint32? = some s.column)
    (hend : r.get? "end_column" uint32? = some s.endColumn) : ofFields? r = some s := by
  rw [ofFields?, hline, hcolumn, hend]
  rfl

theorem Span.ofJson?_toJson (s : Span) : ofJson? s.toJson = some s := by
  rw [toJson, ofJson?, record?, Option.bind_some]
  apply ofFields?_eq
  case hline => exact Fields.get?_of_lookup rfl (uint32?_toNat _)
  case hcolumn => exact Fields.get?_of_lookup rfl (uint32?_toNat _)
  case hend => exact Fields.get?_of_lookup rfl (uint32?_toNat _)

theorem Command.ofJson?_toJson (c : Command) : ofJson? c.toJson = some c := by
  cases c with
  | jump target => rfl
  | set name v =>
    show (Value.ofJson? v.toJson).bind (fun value => some (Command.set name value)) = _
    rw [Value.ofJson?_toJson]
    rfl

theorem Entry.ofJson?_object {r : Fields} {e : Entry} (htext : r.get? "text" string? = some e.text)
    (hcondition : r.nullable? "condition" string? = some e.condition)
    (hcommands : r.get? "commands" (list? Command.ofJson?) = some e.commands)
    (hspan : r.get? "span" Span.ofJson? = some e.span) : ofJson? (.object r) = some e := by
  rw [ofJson?, record?]
  simp only [htext, hcondition, hcommands, hspan, Option.bind_eq_bind, Option.bind_some]
  rfl

theorem Entry.ofJson?_toJson (e : Entry) : ofJson? e.toJson = some e := by
  apply ofJson?_object
  case htext => rfl
  case hcondition => exact Fields.nullable?_ofOption rfl (fun _ h => by cases h) (fun _ => rfl)
  case hcommands => exact Fields.get?_of_lookup rfl (list?_map Command.ofJson?_toJson _)
  case hspan => exact Fields.get?_of_lookup rfl (Span.ofJson?_toJson _)

theorem Choice.ofJson?_object {r : Fields} {c : Choice}
    (hentries : r.get? "entries" (list? Entry.ofJson?) = some c.entries)
    (htimeLimit : r.nullable? "time_limit" float? = some c.timeLimit)
    (hdefault : r.get? "default_option" uint64? = some c.defaultOption)
    (hspan : r.get? "span" Span.ofJson? = some c.span) : ofJson? (.object r) = some c := by
  rw [ofJson?, record?]
  simp only [hentries, htimeLimit, hdefault, hspan, Option.bind_eq_bind, Option.bind_some]
  rfl

theorem Choice.ofJson?_toJson (c : Choice) : ofJson? c.toJson = some c := by
  apply ofJson?_object
  case hentries => exact Fields.get?_of_lookup rfl (list?_map Entry.ofJson?_toJson _)
  case htimeLimit => exact Fields.nullable?_ofOption rfl (fun _ h => by cases h) (fun _ => rfl)
  case hdefault => exact Fields.get?_of_lookup rfl (uint64?_toNat _)
  case hspan => exact Fields.get?_of_lookup rfl (Span.ofJson?_toJson _)

/-! ### Steps -/

namespace Step

theorem lineOfJson?_object {r : Fields} {text : String} {span : Span}
    (htext : r.get? "text" string? = some text) (hspan : r.get? "span" Span.ofJson? = some span) :
    lineOfJson? (.object r) = some (.line text span) := by
  rw [lineOfJson?, record?]
  simp only [htext, hspan, Option.bind_eq_bind, Option.bind_some]
  rfl

theorem commandOfJson?_object {r : Fields} {c : Command} {span : Span}
    (hcommand : r.get? "command" Command.ofJson? = some c)
    (hspan : r.get? "span" Span.ofJson? = some span) :
    commandOfJson? (.object r) = some (.command c span) := by
  rw [commandOfJson?, record?]
  simp only [hcommand, hspan, Option.bind_eq_bind, Option.bind_some]
  rfl

/-- The reader of branches looks its arms up before it reads them. -/
theorem ofJson?_branch {r : Fields} {condition : String} {thenItems elseItems : List Json}
    {thenSteps elseSteps : List Step} {span : Span}
    (hcondition : r.get? "condition" string? = some condition)
    (hthen : r.lookup "then_steps" = some (.array thenItems))
    (hthenSteps : listOfJson? thenItems = some thenSteps)
    (helse : r.lookup "else_steps" = some (.array elseItems))
    (helseSteps : listOfJson? elseItems = some elseSteps)
    (hspan : r.get? "span" Span.ofJson? = some span) :
    ofJson? (.object [("If", .object r)]) = some (.branch condition thenSteps elseSteps span) := by
  rw [ofJson?]
  split
  · next hnone => cases hnone
  · next r' hr =>
    cases hr
    split
    · next hthen' helse' =>
      cases hthen.symm.trans hthen'
      cases helse.symm.trans helse'
      simp only [hcondition, hthenSteps, helseSteps, hspan, Option.bind_eq_bind, Option.bind_some]
      rfl
    · next hno => exact absurd helse (hno _ _ hthen)

mutual
/-- **Steps are read back at any depth.** -/
theorem ofJson?_toJson : ∀ s : Step, ofJson? s.toJson = some s
  | .line text span => by
    rw [toJson, ofJson?]
    apply lineOfJson?_object
    case htext => rfl
    case hspan => exact Fields.get?_of_lookup rfl span.ofJson?_toJson
  | .choice c => by
    rw [toJson, ofJson?, c.ofJson?_toJson]
    rfl
  | .command c span => by
    rw [toJson, ofJson?]
    apply commandOfJson?_object
    case hcommand => exact Fields.get?_of_lookup rfl c.ofJson?_toJson
    case hspan => exact Fields.get?_of_lookup rfl span.ofJson?_toJson
  | .branch condition thenSteps elseSteps span => by
    rw [toJson]
    apply ofJson?_branch
    case hcondition => rfl
    case hthen => rfl
    case hthenSteps => exact listOfJson?_listToJson thenSteps
    case helse => rfl
    case helseSteps => exact listOfJson?_listToJson elseSteps
    case hspan => exact Fields.get?_of_lookup rfl span.ofJson?_toJson

theorem listOfJson?_listToJson : ∀ steps : List Step, listOfJson? (listToJson steps) = some steps
  | [] => by rw [listToJson, listOfJson?]
  | s :: rest => by
    rw [listToJson, listOfJson?, ofJson?_toJson s, listOfJson?_listToJson rest]
    rfl
end

theorem listToJson_eq_map (steps : List Step) : listToJson steps = steps.map toJson := by
  induction steps with
  | nil => rfl
  | cons s rest ih => rw [listToJson, ih, List.map_cons]

end Step

/-! ### Graphs -/

theorem Node.ofJson?_object {r : Fields} {n : Node} (hname : r.get? "name" string? = some n.name)
    (hsteps : r.get? "steps" (list? Step.ofJson?) = some n.steps)
    (hspan : r.get? "span" Span.ofJson? = some n.span) : ofJson? (.object r) = some n := by
  rw [ofJson?, record?]
  simp only [hname, hsteps, hspan, Option.bind_eq_bind, Option.bind_some]
  rfl

theorem Node.ofJson?_toJson (n : Node) : ofJson? n.toJson = some n := by
  apply ofJson?_object
  case hname => rfl
  case hsteps =>
    apply Fields.get?_of_lookup rfl
    rw [Step.listToJson_eq_map]
    exact list?_map Step.ofJson?_toJson n.steps
  case hspan => exact Fields.get?_of_lookup rfl (Span.ofJson?_toJson _)

/-- A table is the table of its entries. -/
theorem NameTable.ofList_entries {α : Type} (t : NameTable α) : ofList t.entries = t := by
  apply ext_find?
  intro k
  rw [ofList, find?_foldl_insert empty t.increasing, find?_empty, Option.or_none]
  rfl

theorem Graph.nodesOfJson?_map (nodes : List (String × Node)) :
    nodesOfJson? (.object (nodes.map fun e => (e.1, e.2.toJson))) = some nodes := by
  apply mapM_map
  intro e
  dsimp only
  rw [Node.ofJson?_toJson]
  rfl

/-- **Graphs are read back**, whatever names their nodes stand under. -/
theorem Graph.ofJson?_toJson (g : Graph) : ofJson? g.toJson = some g := by
  have hnodes : Fields.get? [("nodes", .object (g.nodes.entries.map fun e => (e.1, e.2.toJson)))]
      "nodes" nodesOfJson? = some g.nodes.entries :=
    Fields.get?_of_lookup rfl (nodesOfJson?_map _)
  rw [ofJson?, toJson, record?]
  simp only [hnodes, Option.bind_eq_bind, Option.bind_some]
  rw [NameTable.ofList_entries]
  rfl

/-! ## Events -/

theorem Event.ofData?_optionsReady {r : Fields} {options : List String}
    (h : r.get? "options" (list? string?) = some options) :
    ofData? "options_ready" (.object r) = some (.optionsReady options) := by
  rw [ofData?, record?]
  simp only [h, Option.bind_eq_bind, Option.bind_some]
  rfl

theorem Event.ofData?_variableChanged {r : Fields} {name : String} {v : Value}
    (hname : r.get? "name" string? = some name) (hvalue : r.get? "value" Value.ofJson? = some v) :
    ofData? "variable_changed" (.object r) = some (.variableChanged name v) := by
  rw [ofData?, record?]
  simp only [hname, hvalue, Option.bind_eq_bind, Option.bind_some]
  rfl

/-- An object is read as the event of the kind that one of its fields names. -/
theorem Event.ofJson?_object {r : Fields} {kind : String} {e : Event}
    (hkind : r.get? "event" string? = some kind) (hdata : ofData? kind (.object r) = some e) :
    ofJson? (.object r) = some e := by
  rw [ofJson?, hkind]
  exact hdata

theorem Event.ofJson?_toJson (e : Event) : ofJson? e.toJson = some e := by
  cases e with
  | lineReady text => rfl
  | optionsReady options =>
    apply ofJson?_object rfl
    apply ofData?_optionsReady
    exact Fields.get?_of_lookup rfl (list?_strings options)
  | dialogueEnded => rfl
  | variableChanged name v =>
    apply ofJson?_object rfl
    apply ofData?_variableChanged
    case hname => rfl
    case hvalue => exact Fields.get?_of_lookup rfl v.ofJson?_toJson
  | timerStarted seconds => rfl
  | timerUpdated remaining => rfl
  | timerExpired => rfl

/-! ## Reports and checks -/

theorem Area.ofJson?_word (a : Area) : ofJson? (.string a.word) = some a := by
  cases a <;> rfl

theorem Report.ofJson?_object {r : Fields} {report : Report}
    (hfile : r.get? "file" string? = some report.file)
    (hcode : r.get? "code" uint16? = some report.code.number)
    (harea : r.get? "category" Area.ofJson? = some report.area)
    (hmessage : r.get? "message" string? = some report.message)
    (hspan : Span.ofFields? r = some report.span)
    (hsourceLine : r.get? "source_line" string? = some report.sourceLine)
    (hsuggestion : r.nullable? "suggestion" string? = some report.suggestion) :
    ofJson? (.object r) = some report := by
  rw [ofJson?, fields?]
  simp only [hfile, hcode, harea, hmessage, hspan, hsourceLine, hsuggestion, Option.bind_eq_bind,
    Option.bind_some]
  rfl

/-- The fields of the span stand among those of the report, and a suggestion behind them. -/
theorem Report.ofJson?_toJson (r : Report) : ofJson? r.toJson = some r := by
  obtain ⟨file, code, area, message, span, sourceLine, suggestion⟩ := r
  apply ofJson?_object
  case hfile => rfl
  case hcode => exact Fields.get?_of_lookup rfl (uint16?_toNat _)
  case harea => exact Fields.get?_of_lookup rfl area.ofJson?_word
  case hmessage => rfl
  case hspan =>
    apply Span.ofFields?_eq
    case hline => exact Fields.get?_of_lookup rfl (uint32?_toNat _)
    case hcolumn => exact Fields.get?_of_lookup rfl (uint32?_toNat _)
    case hend => exact Fields.get?_of_lookup rfl (uint32?_toNat _)
  case hsourceLine => rfl
  case hsuggestion =>
    cases suggestion with
    | none => exact Fields.nullable?_of_lookup_eq_none rfl
    | some s => exact Fields.nullable?_of_lookup (j := .string s) rfl (fun h => by cases h) rfl

theorem Check.ofJson?_object {r : Fields} {c : Check}
    (hsuccess : r.get? "success" bool? = some c.success)
    (hnodes : r.get? "nodes" (list? string?) = some c.nodes)
    (hreport : r.nullable? "error" Report.ofJson? = some c.report) :
    ofJson? (.object r) = some c := by
  rw [ofJson?, record?]
  simp only [hsuccess, hnodes, hreport, Option.bind_eq_bind, Option.bind_some]
  rfl

theorem Check.ofJson?_toJson (c : Check) : ofJson? c.toJson = some c := by
  obtain ⟨success, nodes, report⟩ := c
  apply ofJson?_object
  case hsuccess => rfl
  case hnodes => exact Fields.get?_of_lookup rfl (list?_strings nodes)
  case hreport =>
    cases report with
    | none => exact Fields.nullable?_of_lookup_eq_none rfl
    | some r => exact Fields.nullable?_of_lookup rfl (fun h => by cases h) r.ofJson?_toJson

/-! ## All forms -/

/-- **The data forms are faithful.** A value, a step at any depth, a graph, an event, a report and a
check are read back from their forms, if their numbers are finite, and no two of one type have the
same form. -/
theorem Json.faithful_forms :
    Faithful Value.floats Value.toJson Value.ofJson? ∧
    Faithful Step.floats Step.toJson Step.ofJson? ∧
    Faithful Graph.floats Graph.toJson Graph.ofJson? ∧
    Faithful Event.floats Event.toJson Event.ofJson? ∧
    Faithful (fun _ => []) Report.toJson Report.ofJson? ∧
    Faithful (fun _ => []) Check.toJson Check.ofJson? := by
  refine ⟨?_, ?_, ?_, ?_, ?_, ?_⟩
  · exact faithful_of_read Value.floats_toJson Value.ofJson?_toJson
  · exact faithful_of_read Step.floats_toJson Step.ofJson?_toJson
  · exact faithful_of_read Graph.floats_toJson Graph.ofJson?_toJson
  · exact faithful_of_read Event.floats_toJson Event.ofJson?_toJson
  · exact faithful_of_read Report.floats_toJson Report.ofJson?_toJson
  · exact faithful_of_read Check.floats_toJson Check.ofJson?_toJson

/-- A branch with a timed choice in one arm and a branch in the other. -/
def nestedStep : Step :=
  .branch "coins > 2" [
    .choice ⟨[⟨"Pay", some "!broke",
      [.set "coins" (.number (-0.5)), .set "note" .null, .jump "Inn"], ⟨2, 1, 8⟩⟩],
      some 2.5, 0, ⟨2, 1, 8⟩⟩]
    [.branch "" [.line "No." ⟨5, 1, 3⟩] [] ⟨4, 1, 7⟩] ⟨1, 1, 16⟩

theorem Json.faithful_forms_nestedStep :
    AllFinite nestedStep.floats ∧ Step.ofJson? nestedStep.toJson.plain = some nestedStep := by
  have hfinite : AllFinite nestedStep.floats := by decide +kernel
  obtain ⟨-, hsteps, -⟩ := faithful_forms
  exact ⟨hfinite, hsteps.read_write nestedStep hfinite⟩

/-- A document has no other numbers than finite ones. -/
example : Value.ofJson? (Value.number (1 / 0)).toJson.plain = some .null := by decide +kernel

end Dialogue
