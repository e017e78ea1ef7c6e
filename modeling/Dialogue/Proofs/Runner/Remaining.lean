import Dialogue.Runner.Scene

/-!
# What remains

The steps that a cursor still has before it, as one list: what is left of the innermost frame, then
what is left of the frames around it, outwards. `remaining` is the view through which everything
else speaks of frames.

Fetching takes the head of the list (`Frame.remaining_of_fetch`) and finds nothing exactly when the
list is empty (`Frame.fetch_eq_none_iff`); entering an arm puts its steps in front
(`Frame.remaining_enter`). Nothing is assumed of the frames: a frame whose branch is not there has
no steps, and so adds none to the list.
-/

namespace Dialogue

namespace Frame

/-- The steps still to come under some frames, innermost first. -/
def remaining (node : List Step) : List Frame → List Step
  | [] => []
  | f :: outer => (steps node (f :: outer)).drop f.next ++ remaining node outer

theorem fetch_eq_none_iff {node : List Step} {frames : List Frame} :
    fetch node frames = none ↔ remaining node frames = [] := by
  induction frames with
  | nil => simp [fetch, remaining]
  | cons f outer ih =>
    rw [fetch, remaining]
    split
    · next step hstep =>
      obtain ⟨hlt, -⟩ := List.getElem?_eq_some_iff.mp hstep
      simp [List.drop_eq_nil_iff, Nat.not_le.mpr hlt]
    · next hstep =>
      have hle := List.getElem?_eq_none_iff.mp hstep
      rw [List.drop_eq_nil_of_le hle, List.nil_append, ih]

/-- What a fetch finds, as a step of the innermost frame behind it: frames that had run out are
gone, and the position of the frame that had not has moved on by one. -/
theorem exists_of_fetch {node : List Step} {frames frames' : List Frame} {step : Step}
    {index : Nat} (h : fetch node frames = some (step, index, frames')) :
    ∃ f outer, frames' = { f with next := index + 1 } :: outer ∧
      (steps node (f :: outer))[index]? = some step ∧
      remaining node frames = (steps node (f :: outer)).drop index ++ remaining node outer := by
  induction frames with
  | nil => cases h
  | cons f outer ih =>
    rw [fetch] at h
    split at h
    · next found hfound =>
      cases h
      exact ⟨f, outer, rfl, hfound, rfl⟩
    · next hnone =>
      -- The innermost frame has run out: it adds nothing to what remains, and the fetch drops it.
      obtain ⟨f', outer', hframes, hstep, hrest⟩ := ih h
      refine ⟨f', outer', hframes, hstep, ?_⟩
      have hle := List.getElem?_eq_none_iff.mp hnone
      rw [remaining, List.drop_eq_nil_of_le hle, List.nil_append, hrest]

/-- Fetching takes the head of what remains. -/
theorem remaining_of_fetch {node : List Step} {frames frames' : List Frame} {step : Step}
    {index : Nat} (h : fetch node frames = some (step, index, frames')) :
    remaining node frames = step :: remaining node frames' := by
  obtain ⟨f, outer, rfl, hstep, hrest⟩ := exists_of_fetch h
  obtain ⟨hlt, rfl⟩ := List.getElem?_eq_some_iff.mp hstep
  rw [hrest, List.drop_eq_getElem_cons hlt]
  rfl

/-- Entering an arm of the step just fetched puts the steps of the arm in front. -/
theorem remaining_enter {node : List Step} {frames frames' : List Frame} {step : Step}
    {index : Nat} (h : fetch node frames = some (step, index, frames')) (arm : Arm) :
    remaining node (⟨some (index, arm), 0⟩ :: frames') =
      step.arm arm ++ remaining node frames' := by
  obtain ⟨f, outer, rfl, hstep, -⟩ := exists_of_fetch h
  -- Moving on in a frame does not change which steps are the frame's.
  have hbehind : steps node ({ f with next := index + 1 } :: outer) = steps node (f :: outer) := rfl
  rw [remaining, steps]
  dsimp only
  rw [hbehind, hstep]
  rfl

end Frame

/-- The steps still to come at a cursor; none when its node is not there. -/
def Cursor.remaining (g : Graph) (c : Cursor) : List Step :=
  match g.get? c.node with
  | none => []
  | some n => Frame.remaining n.steps c.frames

namespace Scene

/-- The steps still to come in a scene; none when no node runs. -/
def remaining (g : Graph) (s : Scene) : List Step :=
  match s.cursor with
  | none => []
  | some c => c.remaining g

theorem fetch_eq_none_iff {g : Graph} {s : Scene} : s.fetch g = none ↔ s.remaining g = [] := by
  unfold fetch remaining
  cases s.cursor with
  | none => simp
  | some c =>
    simp only [Option.map_eq_none_iff]
    unfold Cursor.fetch Cursor.remaining
    cases g.get? c.node with
    | none => simp
    | some n => simp [Frame.fetch_eq_none_iff]

/-- A fetch in a scene is one under the frames of its cursor, in the node of the cursor's name. -/
theorem exists_frames_of_fetch {g : Graph} {s s' : Scene} {step : Step} {index : Nat}
    (h : s.fetch g = some (step, index, s')) :
    ∃ c n frames, s.cursor = some c ∧ g.get? c.node = some n ∧
      Frame.fetch n.steps c.frames = some (step, index, frames) ∧
      s' = { s with cursor := some { c with frames := frames } } := by
  rw [fetch] at h
  split at h
  · cases h
  · next c hc =>
    obtain ⟨⟨step₁, index₁, c₁⟩, hfetch, heq⟩ := Option.map_eq_some_iff.mp h
    cases heq
    rw [Cursor.fetch] at hfetch
    split at hfetch
    · cases hfetch
    · next n hn =>
      obtain ⟨⟨step₂, index₂, frames⟩, hframes, heq⟩ := Option.map_eq_some_iff.mp hfetch
      cases heq
      exact ⟨c, n, frames, hc, hn, hframes, rfl⟩

/-- What a fetch finds: only the cursor has moved, the node is the same, the step was the head of
what remained, and an arm entered from here comes in front of the rest. -/
structure Fetched (g : Graph) (s : Scene) (step : Step) (index : Nat) (s' : Scene) : Prop where
  scene : s' = { s with cursor := s'.cursor }
  node : s'.node? = s.node?
  remaining : s.remaining g = step :: s'.remaining g
  enter : ∀ arm, (s'.enter index arm).remaining g = step.arm arm ++ s'.remaining g

theorem fetched {g : Graph} {s s' : Scene} {step : Step} {index : Nat}
    (h : s.fetch g = some (step, index, s')) : Fetched g s step index s' := by
  obtain ⟨c, n, frames, hc, hn, hframes, rfl⟩ := exists_frames_of_fetch h
  refine ⟨rfl, ?_, ?_, ?_⟩
  · simp [node?, hc]
  · simp only [Scene.remaining, hc, Cursor.remaining, hn]
    exact Frame.remaining_of_fetch hframes
  · intro arm
    simp only [Scene.remaining, Scene.enter, Cursor.enter, Option.map_some, Cursor.remaining, hn]
    exact Frame.remaining_enter hframes arm

end Scene

end Dialogue
