import Dialogue.Json.Run

/-!
# Numbers in documents

A JSON document can hold finite numbers only, and what is not one is written as `null` in its place:
`Json.plain` is what a tree is as a document. A tree whose numbers are finite is a document as it
stands (`plain_eq_self`).

The numbers of the data form of a thing are the numbers in the thing, in their order: each type has
a list of its numbers (`Value.floats`, `Step.floats`, …) and a lemma that its form has the same. So
the form of a thing whose numbers are finite is a document.
-/

namespace Dialogue

namespace Json

/-! ## Trees -/

mutual
/-- The numbers in a tree that are not written as whole ones, in their order. -/
def floats : Json → List Float
  | .float x => [x]
  | .array items => floatsOfItems items
  | .object fields => floatsOfFields fields
  | .null | .bool _ | .int _ | .string _ => []

/-- The numbers in some trees. -/
def floatsOfItems : List Json → List Float
  | [] => []
  | j :: rest => j.floats ++ floatsOfItems rest

/-- The numbers in some fields. -/
def floatsOfFields : Fields → List Float
  | [] => []
  | (_, j) :: rest => j.floats ++ floatsOfFields rest
end

mutual
/-- The tree as a document, in which numbers that are not finite are null. -/
def plain : Json → Json
  | .float x => if x.isFinite then .float x else .null
  | .array items => .array (plainItems items)
  | .object fields => .object (plainFields fields)
  | .null => .null
  | .bool b => .bool b
  | .int n => .int n
  | .string s => .string s

/-- Some trees as documents. -/
def plainItems : List Json → List Json
  | [] => []
  | j :: rest => j.plain :: plainItems rest

/-- Some fields as parts of a document. -/
def plainFields : Fields → Fields
  | [] => []
  | (name, j) :: rest => (name, j.plain) :: plainFields rest
end

/-- All of the numbers are finite. -/
def AllFinite (numbers : List Float) : Prop := ∀ x ∈ numbers, x.isFinite = true

instance (numbers : List Float) : Decidable (AllFinite numbers) :=
  inferInstanceAs (Decidable (∀ x ∈ numbers, _))

theorem allFinite_append {numbers more : List Float} :
    AllFinite (numbers ++ more) ↔ AllFinite numbers ∧ AllFinite more :=
  List.forall_mem_append

mutual
/-- A tree whose numbers are finite is a document as it stands. -/
theorem plain_eq_self : ∀ {j : Json}, AllFinite j.floats → j.plain = j
  | .float x, h => by
    rw [plain]
    exact if_pos (h x List.mem_cons_self)
  | .array items, h => by rw [plain, plainItems_eq_self h]
  | .object fields, h => by rw [plain, plainFields_eq_self h]
  | .null, _ => rfl
  | .bool _, _ => rfl
  | .int _, _ => rfl
  | .string _, _ => rfl

theorem plainItems_eq_self :
    ∀ {items : List Json}, AllFinite (floatsOfItems items) → plainItems items = items
  | [], _ => rfl
  | j :: rest, h => by
    obtain ⟨hj, hrest⟩ := allFinite_append.mp h
    rw [plainItems, plain_eq_self hj, plainItems_eq_self hrest]

theorem plainFields_eq_self :
    ∀ {fields : Fields}, AllFinite (floatsOfFields fields) → plainFields fields = fields
  | [], _ => rfl
  | (name, j) :: rest, h => by
    obtain ⟨hj, hrest⟩ := allFinite_append.mp h
    rw [plainFields, plain_eq_self hj, plainFields_eq_self hrest]
end

/-! ### Written parts -/

theorem floatsOfItems_map {α : Type} {write : α → Json} {numbers : α → List Float}
    (h : ∀ a, (write a).floats = numbers a) (l : List α) :
    floatsOfItems (l.map write) = l.flatMap numbers := by
  induction l with
  | nil => rfl
  | cons a rest ih => rw [List.map_cons, floatsOfItems, h, ih, List.flatMap_cons]

theorem floatsOfFields_map {α : Type} {write : α → Json} {numbers : α → List Float}
    (h : ∀ a, (write a).floats = numbers a) (l : List (String × α)) :
    floatsOfFields (l.map fun e => (e.1, write e.2)) = l.flatMap fun e => numbers e.2 := by
  induction l with
  | nil => rfl
  | cons e rest ih => rw [List.map_cons, floatsOfFields, h, ih, List.flatMap_cons]

theorem floatsOfItems_strings (l : List String) : floatsOfItems (l.map .string) = [] := by
  induction l with
  | nil => rfl
  | cons s rest ih => exact ih

@[simp] theorem floats_ofOption_string (o : Option String) : (ofOption .string o).floats = [] := by
  cases o <;> rfl

@[simp] theorem floats_ofOption_float (o : Option Float) :
    (ofOption .float o).floats = o.toList := by
  cases o <;> rfl

end Json

/-! ## Scripts -/

/-- The number that a value is, if it is one. -/
def Value.floats : Value → List Float
  | .number x => [x]
  | .bool _ | .string _ | .null => []

def Command.floats : Command → List Float
  | .jump _ => []
  | .set _ v => v.floats

def Entry.floats (e : Entry) : List Float := e.commands.flatMap Command.floats

/-- The numbers in a choice: those of its entries, and its time limit. -/
def Choice.floats (c : Choice) : List Float :=
  c.entries.flatMap Entry.floats ++ c.timeLimit.toList

mutual
/-- The numbers in a step at any depth. -/
def Step.floats : Step → List Float
  | .line _ _ => []
  | .choice c => c.floats
  | .command c _ => c.floats
  | .branch _ thenSteps elseSteps _ => Step.listFloats thenSteps ++ Step.listFloats elseSteps

/-- The numbers in some steps. -/
def Step.listFloats : List Step → List Float
  | [] => []
  | s :: rest => s.floats ++ Step.listFloats rest
end

def Node.floats (n : Node) : List Float := Step.listFloats n.steps

def Graph.floats (g : Graph) : List Float := g.toList.flatMap Node.floats

open Json

@[simp] theorem Value.floats_toJson (v : Value) : v.toJson.floats = v.floats := by
  cases v <;> rfl

@[simp] theorem Span.floats_toJson (s : Span) : s.toJson.floats = [] := rfl

@[simp] theorem Command.floats_toJson (c : Command) : c.toJson.floats = c.floats := by
  cases c with
  | jump target => rfl
  | set name v => simp [toJson, Json.floats, floatsOfFields, floats]

@[simp] theorem Entry.floats_toJson (e : Entry) : e.toJson.floats = e.floats := by
  simp [toJson, Json.floats, floatsOfFields, floats, floatsOfItems_map Command.floats_toJson]

@[simp] theorem Choice.floats_toJson (c : Choice) : c.toJson.floats = c.floats := by
  simp [toJson, Json.floats, floatsOfFields, floats, floatsOfItems_map Entry.floats_toJson]

mutual
@[simp] theorem Step.floats_toJson : ∀ s : Step, s.toJson.floats = s.floats
  | .line text span => by simp [toJson, Json.floats, floatsOfFields, floats]
  | .choice c => by simp [toJson, Json.floats, floatsOfFields, floats]
  | .command c span => by simp [toJson, Json.floats, floatsOfFields, floats]
  | .branch condition thenSteps elseSteps span => by
    simp [toJson, Json.floats, floatsOfFields, floats, Step.floats_listToJson thenSteps,
      Step.floats_listToJson elseSteps]

theorem Step.floats_listToJson :
    ∀ steps : List Step, floatsOfItems (Step.listToJson steps) = Step.listFloats steps
  | [] => rfl
  | s :: rest => by
    rw [listToJson, floatsOfItems, Step.floats_toJson s, Step.floats_listToJson rest, listFloats]
end

@[simp] theorem Node.floats_toJson (n : Node) : n.toJson.floats = n.floats := by
  simp [toJson, Json.floats, floatsOfFields, floats, Step.floats_listToJson]

theorem Graph.floats_toJson (g : Graph) : g.toJson.floats = g.floats := by
  simp [toJson, Json.floats, floatsOfFields, floats, floatsOfFields_map Node.floats_toJson, toList,
    NameTable.values, List.flatMap_map]

/-! ## Events, reports and checks -/

/-- The number in an event, if there is one. -/
def Event.floats : Event → List Float
  | .variableChanged _ v => v.floats
  | .timerStarted seconds => [seconds]
  | .timerUpdated remaining => [remaining]
  | .lineReady _ | .optionsReady _ | .dialogueEnded | .timerExpired => []

theorem Event.floats_toJson (e : Event) : e.toJson.floats = e.floats := by
  cases e with
  | optionsReady options =>
    simp [toJson, Json.floats, floatsOfFields, floats, floatsOfItems_strings]
  | variableChanged name v => simp [toJson, Json.floats, floatsOfFields, floats]
  | _ => rfl

@[simp] theorem Report.floats_toJson (r : Report) : r.toJson.floats = [] := by
  cases h : r.suggestion <;> simp [toJson, h, Json.floats, floatsOfFields]

theorem Check.floats_toJson (c : Check) : c.toJson.floats = [] := by
  cases h : c.report <;>
    simp [toJson, h, Json.floats, floatsOfFields, floatsOfItems_strings]

end Dialogue
