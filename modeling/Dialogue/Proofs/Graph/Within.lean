import Dialogue.Proofs.Graph.WellKeyed
import Dialogue.Proofs.Runner.Remaining

/-!
# The steps of a graph

Branches hold steps, which may be branches again. A step is *within* a list of steps when it stands
in the list or, at any depth, in an arm of one of its branches, and a graph *holds* the steps within
its nodes.

A cursor never leaves its graph: whatever a fetch finds is a step that the graph holds
(`Scene.holds_of_fetch`), since the frames of a cursor are arms of branches of one node.
-/

namespace Dialogue

/-- The step is one of the steps, or within an arm of one of them. -/
inductive Step.Within (step : Step) : List Step → Prop
  | here {steps : List Step} : step ∈ steps → Within step steps
  | inArm {steps : List Step} {outer : Step} (arm : Arm) :
      outer ∈ steps → Within step (outer.arm arm) → Within step steps

/-- What stands in an arm of a step that is within some steps is within them too. -/
theorem Step.Within.of_mem_arm {step outer : Step} {steps : List Step} {arm : Arm}
    (houter : outer.Within steps) (hstep : step ∈ outer.arm arm) : step.Within steps := by
  induction houter with
  | here hmem => exact .inArm arm hmem (.here hstep)
  | inArm arm' hmem _ ih => exact .inArm arm' hmem ih

/-- The step is within one of the nodes. -/
def Graph.Holds (g : Graph) (step : Step) : Prop := ∃ n ∈ g.toList, step.Within n.steps

theorem Graph.mem_toList_of_get? {g : Graph} {name : String} {n : Node}
    (h : g.get? name = some n) : n ∈ g.toList :=
  List.mem_map.mpr ⟨_, NameTable.mem_of_find? h, rfl⟩

/-! ## Fetched steps -/

/-- The steps of a frame are within its node. The induction follows the frames outwards. -/
theorem Frame.within_of_mem_steps {node : List Step} {frames : List Frame} {step : Step}
    (h : step ∈ steps node frames) : step.Within node := by
  induction frames generalizing step with
  | nil => exact .here h
  | cons f outer ih =>
    rw [steps] at h
    split at h
    · exact ih h
    · split at h
      · next branch hbranch => exact (ih (List.mem_of_getElem? hbranch)).of_mem_arm h
      · cases h

theorem Frame.within_of_fetch {node : List Step} {frames frames' : List Frame} {step : Step}
    {index : Nat} (h : fetch node frames = some (step, index, frames')) : step.Within node := by
  obtain ⟨f, outer, -, hstep, -⟩ := exists_of_fetch h
  exact within_of_mem_steps (List.mem_of_getElem? hstep)

/-- **A fetch finds steps of the graph only.** -/
theorem Scene.holds_of_fetch {g : Graph} {s s' : Scene} {step : Step} {index : Nat}
    (h : s.fetch g = some (step, index, s')) : g.Holds step := by
  obtain ⟨c, n, frames, -, hn, hframes, -⟩ := exists_frames_of_fetch h
  exact ⟨n, Graph.mem_toList_of_get? hn, Frame.within_of_fetch hframes⟩

end Dialogue
