import Dialogue.Name
import Dialogue.NameTable
import Dialogue.Span
import Dialogue.Value

/-!
# Graphs of nodes

A script is a graph of named nodes. A node is a list of steps: lines of dialogue, choices, commands,
and branches, which hold steps again. Jumps connect the nodes.

Nodes are found by folded name. A graph that is read from a script, or built by `Graph.insert`, has
every node under the folded form of its own name; a graph that is given as data need not.
-/

namespace Dialogue

/-- A command: go on at another node, or set a variable. -/
inductive Command where
  | jump (target : String)
  | set (name : String) (value : Value)
  deriving DecidableEq, Repr

/-- An entry of a choice: its label, the condition under which it is offered, and the commands that
run when it is chosen. A condition that starts with an exclamation mark offers the entry when the
rest of it does not hold. -/
structure Entry where
  text : String
  condition : Option String
  commands : List Command
  span : Span
  deriving DecidableEq, Repr

/-- A choice. With a time limit (in seconds) the default option is taken when the time is over; it
counts among the entries that are offered. -/
structure Choice where
  entries : List Entry
  timeLimit : Option Float
  defaultOption : UInt64
  span : Span
  deriving DecidableEq, Repr

/-- The two arms of a branch. -/
inductive Arm where
  | thenArm
  | elseArm
  deriving DecidableEq, Repr

/-- A step of a node. -/
inductive Step where
  | line (text : String) (span : Span)
  | choice (c : Choice)
  | command (c : Command) (span : Span)
  | branch (condition : String) (thenSteps elseSteps : List Step) (span : Span)
  deriving BEq, Repr

namespace Step

/-- Where a step stands. -/
def span : Step → Span
  | .line _ s => s
  | .choice c => c.span
  | .command _ s => s
  | .branch _ _ _ s => s

/-- The steps of an arm of a branch; other steps have none. -/
def arm (a : Arm) : Step → List Step
  | .branch _ thenSteps elseSteps _ =>
    match a with
    | .thenArm => thenSteps
    | .elseArm => elseSteps
  | _ => []

end Step

/-- A node: its name as written, its steps, and where its title stands. -/
structure Node where
  name : String
  steps : List Step
  span : Span
  deriving BEq, Repr

/-- The nodes of a script. -/
structure Graph where
  nodes : NameTable Node

namespace Graph

/-- The graph without nodes. -/
def empty : Graph := ⟨.empty⟩

instance : Inhabited Graph := ⟨empty⟩

/-- The node of a name. -/
def get? (g : Graph) (name : String) : Option Node := g.nodes.find? (foldName name)

/-- Whether there is a node of a name. -/
def contains (g : Graph) (name : String) : Bool := (g.get? name).isSome

/-- The graph with one more node, which takes the place of a node of the same name. -/
def insert (g : Graph) (n : Node) : Graph := ⟨g.nodes.insert (foldName n.name) n⟩

/-- How many nodes there are. -/
def size (g : Graph) : Nat := g.nodes.size

/-- The nodes in the order of their folded names. -/
def toList (g : Graph) : List Node := g.nodes.values

/-- The names of the nodes as written, in the order of the folded names. -/
def names (g : Graph) : List String := g.toList.map Node.name

/-- Whether two graphs have equal nodes under equal names. -/
instance : BEq Graph := ⟨fun g h => g.nodes.entries == h.nodes.entries⟩

/-- The node just inserted is found under every name of the same folded form. -/
theorem get?_insert (g : Graph) (n : Node) (name : String) :
    (g.insert n).get? name = if foldName name = foldName n.name then some n else g.get? name :=
  g.nodes.find?_insert ..

end Graph

end Dialogue
