import Dialogue.Script.Graph

/-!
# Cursors

A cursor is a place in a graph: the name of a node and a stack of frames, innermost first. The
outermost frame goes through the steps of the node itself. Taking a branch pushes a frame for the
chosen arm, which is found by the position of the branch in the frame below; a frame that has run
out of steps is popped when the next step is asked for. Frames hold positions and no steps: the
steps are looked up in the graph every time.
-/

namespace Dialogue

/-- A level of a cursor: the position of the branch in the level outside and the arm taken (none for
the steps of the node itself), and the position of the next step. -/
structure Frame where
  branch : Option (Nat × Arm)
  next : Nat
  deriving DecidableEq, Repr

/-- A place in a graph: a node by name, and the frames, innermost first. -/
structure Cursor where
  node : String
  frames : List Frame
  deriving DecidableEq, Repr

namespace Frame

/-- The frame at the first step of a node. -/
def root : Frame := ⟨none, 0⟩

/-- The steps that the innermost of some frames goes through. A position without a branch has
none. -/
def steps (node : List Step) : List Frame → List Step
  | [] => node
  | f :: outer =>
    match f.branch with
    | none => steps node outer
    | some (index, arm) =>
      match (steps node outer)[index]? with
      | some step => step.arm arm
      | none => []

/-- The next step under some frames, with its position in its frame, and the frames behind it.
Frames without a next step are popped, down to the outermost one. -/
def fetch (node : List Step) : List Frame → Option (Step × Nat × List Frame)
  | [] => none
  | f :: outer =>
    match (steps node (f :: outer))[f.next]? with
    | some step => some (step, f.next, { f with next := f.next + 1 } :: outer)
    | none => fetch node outer

end Frame

namespace Cursor

/-- The cursor at the start of a node. -/
def start (node : Node) : Cursor := ⟨node.name, [.root]⟩

/-- The next step at a cursor, with its position in its frame, and the cursor behind it. There is
none when the steps of the node are used up, or when the graph has no node of the cursor's name. -/
def fetch (g : Graph) (c : Cursor) : Option (Step × Nat × Cursor) :=
  match g.get? c.node with
  | none => none
  | some node =>
    (Frame.fetch node.steps c.frames).map fun (step, index, frames) =>
      (step, index, { c with frames := frames })

/-- The cursor at the first step of an arm of the branch at a position of the innermost frame. -/
def enter (c : Cursor) (index : Nat) (arm : Arm) : Cursor :=
  { c with frames := ⟨some (index, arm), 0⟩ :: c.frames }

end Cursor

end Dialogue
