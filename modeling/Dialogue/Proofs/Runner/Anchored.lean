import Dialogue.Proofs.Graph.WellKeyed
import Dialogue.Proofs.Outcome
import Dialogue.Proofs.Runner.Offer
import Dialogue.Proofs.Runner.Refinement
import Dialogue.Proofs.Runner.Remaining
import Dialogue.Proofs.Runner.Strict

/-!
# Anchored cursors

A cursor holds positions and no steps, and the steps are looked up in the graph every time. Nothing
in the data keeps a position from pointing past the end of a list, or at a step that is no branch.
The runs do: in a well-keyed graph the frames of a cursor are always `Nested`, one in the other,
from the steps of its node inwards.

Nesting is kept by the three things that happen to frames. A jump starts with one frame, a fetch
drops frames that have run out and moves the next one on by one (`Nested.fetch`), and taking a
branch puts a frame for its arm on top (`Nested.enter`). In between a call may fail, with the frame
moved past a branch that is not entered; that is nesting too, since only frames further inside speak
of the branch that a frame has just passed.

In nested frames every look-up finds what it looks for (`Nested.strictFetch_eq`). So a strict run
never strays, and gives what the run gives (`anchored_after`).
-/

namespace Dialogue

/-! ## The nesting of branches -/

mutual
/-- How deep branches are nested in a step, itself among them. -/
def Step.nesting : Step → Nat
  | .branch _ thenSteps elseSteps _ => max (Step.deepest thenSteps) (Step.deepest elseSteps) + 1
  | .line _ _ => 0
  | .choice _ => 0
  | .command _ _ => 0

/-- How deep branches are nested in some steps. -/
def Step.deepest : List Step → Nat
  | [] => 0
  | s :: rest => max s.nesting (Step.deepest rest)
end

namespace Step

theorem nesting_le_deepest {s : Step} {steps : List Step} (h : s ∈ steps) :
    s.nesting ≤ deepest steps := by
  induction steps with
  | nil => cases h
  | cons t rest ih =>
    rw [deepest]
    rcases List.mem_cons.mp h with rfl | h
    · exact Nat.le_max_left _ _
    · exact Nat.le_trans (ih h) (Nat.le_max_right _ _)

/-- An arm of a branch that is one of some steps is not nested as deep as they are. -/
theorem deepest_arm_lt {condition : String} {thenSteps elseSteps steps : List Step} {span : Span}
    (h : .branch condition thenSteps elseSteps span ∈ steps) (arm : Arm) :
    deepest ((Step.branch condition thenSteps elseSteps span).arm arm) < deepest steps := by
  have hle := nesting_le_deepest h
  rw [nesting] at hle
  cases arm with
  | thenArm =>
    show deepest thenSteps < _
    omega
  | elseArm =>
    show deepest elseSteps < _
    omega

end Step

/-! ## Nested frames -/

namespace Frame

variable {node : List Step} {frames : List Frame}

/-- Frames that lead into the steps of a node, one inside the other. The outermost goes through the
steps themselves. Every other goes through an arm of the branch that the frame around it has just
passed. None stands behind the end of its steps. -/
inductive Nested (node : List Step) : List Frame → Prop
  | root {next : Nat} : next ≤ node.length → Nested node [⟨none, next⟩]
  | entered {parent : Frame} {outer : List Frame} {index next : Nat} {arm : Arm}
      {condition : String} {thenSteps elseSteps : List Step} {span : Span} :
      Nested node (parent :: outer) → index + 1 = parent.next →
      (steps node (parent :: outer))[index]? = some (.branch condition thenSteps elseSteps span) →
      next ≤ ((Step.branch condition thenSteps elseSteps span).arm arm).length →
      Nested node (⟨some (index, arm), next⟩ :: parent :: outer)

/-- A frame for an arm goes through the steps of this arm. -/
theorem steps_entered {outer : List Frame} {index next : Nat} {arm : Arm} {step : Step}
    (h : (steps node outer)[index]? = some step) :
    steps node (⟨some (index, arm), next⟩ :: outer) = step.arm arm := by
  rw [steps]
  simp only [h]

namespace Nested

theorem ne_nil (h : Nested node frames) : frames ≠ [] := by
  cases h <;> exact List.cons_ne_nil _ _

/-- Without its innermost frames the rest is nested still. -/
theorem of_suffix {f : Frame} {outer : List Frame} (h : Nested node frames)
    (hsuffix : f :: outer <:+ frames) : Nested node (f :: outer) := by
  induction h with
  | root hle =>
    rcases List.suffix_cons_iff.mp hsuffix with heq | hnil
    · rw [heq]
      exact .root hle
    · cases List.suffix_nil.mp hnil
  | entered houter hindex hbranch hle ih =>
    rcases List.suffix_cons_iff.mp hsuffix with heq | hinside
    · rw [heq]
      exact .entered houter hindex hbranch hle
    · exact ih hinside

/-- No frame stands behind the end of its steps. -/
theorem next_le {f : Frame} {outer : List Frame} (h : Nested node (f :: outer)) :
    f.next ≤ (steps node (f :: outer)).length := by
  cases h with
  | root hle => exact hle
  | entered houter hindex hbranch hle =>
    rw [steps_entered hbranch]
    exact hle

/-- Every frame goes one branch deeper, so the more frames there are, the less is left to enter. -/
theorem length_add_deepest_le (h : Nested node frames) :
    frames.length + Step.deepest (steps node frames) ≤ Step.deepest node + 1 := by
  induction h with
  | root hle =>
    show 1 + Step.deepest node ≤ _
    omega
  | @entered parent outer index next arm _ _ _ _ houter hindex hbranch hle ih =>
    have hdeeper := Step.deepest_arm_lt (List.mem_of_getElem? hbranch) arm
    rw [steps_entered hbranch, List.length_cons]
    omega

/-! ### What happens to frames -/

theorem start (node : List Step) : Nested node [.root] := .root (Nat.zero_le _)

/-- The innermost frame may stand anywhere in its steps, since no other one speaks of it. -/
theorem moveTo {f : Frame} {outer : List Frame} {next : Nat} (h : Nested node (f :: outer))
    (hle : next ≤ (steps node (f :: outer)).length) :
    Nested node ({ f with next := next } :: outer) := by
  cases h with
  | root _ => exact .root hle
  | entered houter hindex hbranch _ =>
    rw [steps_entered hbranch] at hle
    exact .entered houter hindex hbranch hle

/-- **A fetch keeps frames nested**, however many of them have run out. -/
theorem fetch {frames' : List Frame} {step : Step} {index : Nat} (h : Nested node frames)
    (hf : Frame.fetch node frames = some (step, index, frames')) : Nested node frames' := by
  induction frames with
  | nil => cases hf
  | cons f outer ih =>
    rw [Frame.fetch] at hf
    split at hf
    · next hstep =>
      obtain ⟨hlt, -⟩ := List.getElem?_eq_some_iff.mp hstep
      cases hf
      exact h.moveTo hlt
    · -- The frame has run out. There is one around it, as nothing is fetched without frames.
      cases outer with
      | nil => cases hf
      | cons parent outer => exact ih (h.of_suffix (List.suffix_cons _ _)) hf

/-- **Entering an arm of the branch just fetched keeps frames nested.** -/
theorem enter {frames' : List Frame} {condition : String} {thenSteps elseSteps : List Step}
    {span : Span} {index : Nat} (h : Nested node frames)
    (hf : Frame.fetch node frames =
      some (.branch condition thenSteps elseSteps span, index, frames')) (arm : Arm) :
    Nested node (⟨some (index, arm), 0⟩ :: frames') := by
  have hbehind := h.fetch hf
  obtain ⟨f, outer, rfl, hbranch, -⟩ := exists_of_fetch hf
  exact .entered hbehind rfl hbranch (Nat.zero_le _)

/-! ### Strict look-ups -/

/-- Every frame finds its branch. -/
theorem strictSteps_eq (h : Nested node frames) :
    strictSteps node frames = .ok (steps node frames) := by
  induction h with
  | root _ => rfl
  | entered _ _ hbranch _ ih =>
    rw [steps_entered hbranch, strictSteps]
    simp only [ih, hbranch]

/-- **No look-up under nested frames strays.** -/
theorem strictFetch_eq (h : Nested node frames) :
    strictFetch node frames = .ok (Frame.fetch node frames) := by
  induction frames with
  | nil => exact absurd rfl h.ne_nil
  | cons f outer ih =>
    rw [strictFetch, h.strictSteps_eq, Frame.fetch]
    dsimp only
    cases (steps node (f :: outer))[f.next]? with
    | some step => rfl
    | none =>
      cases outer with
      | nil => rfl
      | cons parent outer => exact ih (h.of_suffix (List.suffix_cons _ _))

end Nested

/-! ### The address of a frame -/

/-- Frames that address steps of a node, said of each frame with those around it. -/
structure Addresses (node : List Step) (frames : List Frame) : Prop where
  /-- There is a frame. -/
  ne_nil : frames ≠ []
  /-- The outermost frame has no branch, and is the only one without. -/
  branch_eq_none_iff : ∀ f outer, f :: outer <:+ frames → (f.branch = none ↔ outer = [])
  /-- Every other frame has its branch one position back in the frame around it, and there is a
  branch at this position. -/
  branch_eq_some : ∀ f parent outer, f :: parent :: outer <:+ frames →
    ∃ index arm condition thenSteps elseSteps span, f.branch = some (index, arm) ∧
      index + 1 = parent.next ∧
      (steps node (parent :: outer))[index]? = some (.branch condition thenSteps elseSteps span)
  /-- No position is behind the end of the steps. -/
  next_le : ∀ f outer, f :: outer <:+ frames → f.next ≤ (steps node (f :: outer)).length
  /-- There is one frame for the node, and at most one for each level of its branches. -/
  length_le : frames.length ≤ Step.deepest node + 1

theorem Nested.addresses (h : Nested node frames) : Addresses node frames where
  ne_nil := h.ne_nil
  branch_eq_none_iff f outer hsuffix := by
    cases h.of_suffix hsuffix with
    | root _ => exact iff_of_true rfl rfl
    | entered _ _ _ _ => exact iff_of_false (Option.some_ne_none _) (List.cons_ne_nil _ _)
  branch_eq_some f parent outer hsuffix := by
    cases h.of_suffix hsuffix with
    | entered _ hindex hbranch _ => exact ⟨_, _, _, _, _, _, rfl, hindex, hbranch⟩
  next_le f outer hsuffix := (h.of_suffix hsuffix).next_le
  length_le := Nat.le_trans (Nat.le_add_right _ _) h.length_add_deepest_le

end Frame

/-! ## Anchored cursors -/

/-- The cursor stands in the node of the graph that gives itself the cursor's name, and its frames
are nested there. -/
def Cursor.Anchored (g : Graph) (c : Cursor) : Prop :=
  ∃ n, g.get? c.node = some n ∧ n.name = c.node ∧ Frame.Nested n.steps c.frames

/-- If a node runs, the cursor is anchored in it. -/
def Scene.Anchored (g : Graph) (s : Scene) : Prop := ∀ c, s.cursor = some c → c.Anchored g

variable {g : Graph}

theorem Cursor.anchored_start (hg : g.WellKeyed) {name : String} {n : Node}
    (h : g.get? name = some n) : (Cursor.start n).Anchored g :=
  ⟨n, hg.get?_name h, rfl, .start n.steps⟩

theorem Cursor.Anchored.strictFetch_eq {c : Cursor} (h : c.Anchored g) :
    c.strictFetch g = .ok (c.fetch g) := by
  obtain ⟨n, hn, -, hnested⟩ := h
  rw [strictFetch, fetch, hn]
  dsimp only
  rw [hnested.strictFetch_eq]
  rfl

namespace Scene

variable {s s' : Scene} {step : Step} {index : Nat}

theorem Anchored.strictFetch_eq (h : s.Anchored g) : s.strictFetch g = .ok (s.fetch g) := by
  rw [strictFetch, fetch]
  cases hc : s.cursor with
  | none => rfl
  | some c =>
    dsimp only
    rw [(h c hc).strictFetch_eq]
    rfl

/-! ### Steps -/

/-- A fetch from an anchored cursor is one under nested frames of its node. -/
theorem Anchored.exists_nested_of_fetch (h : s.Anchored g)
    (hf : s.fetch g = some (step, index, s')) :
    ∃ (c : Cursor) (n : Node) (frames : List Frame), g.get? c.node = some n ∧ n.name = c.node ∧
      Frame.Nested n.steps c.frames ∧ Frame.fetch n.steps c.frames = some (step, index, frames) ∧
      s' = { s with cursor := some { c with frames := frames } } := by
  obtain ⟨c, n, frames, hc, hn, hframes, hs'⟩ := exists_frames_of_fetch hf
  obtain ⟨n', hn', hname, hnested⟩ := h c hc
  cases hn.symm.trans hn'
  exact ⟨c, n, frames, hn, hname, hnested, hframes, hs'⟩

theorem Anchored.fetch (h : s.Anchored g) (hf : s.fetch g = some (step, index, s')) :
    s'.Anchored g := by
  obtain ⟨c, n, frames, hn, hname, hnested, hframes, rfl⟩ := h.exists_nested_of_fetch hf
  intro c' hc'
  cases hc'
  exact ⟨n, hn, hname, hnested.fetch hframes⟩

theorem Anchored.enter {condition : String} {thenSteps elseSteps : List Step} {span : Span}
    (h : s.Anchored g)
    (hf : s.fetch g = some (.branch condition thenSteps elseSteps span, index, s')) (arm : Arm) :
    (s'.enter index arm).Anchored g := by
  obtain ⟨c, n, frames, hn, hname, hnested, hframes, rfl⟩ := h.exists_nested_of_fetch hf
  intro c' hc'
  cases hc'
  exact ⟨n, hn, hname, hnested.enter hframes arm⟩

theorem anchored_jump (hg : g.WellKeyed) {target : String} (h : s.jump g target = .ok s') :
    s'.Anchored g := by
  rw [jump] at h
  split at h
  · cases h
  · next n hn =>
    cases h
    intro c hc
    cases hc
    exact Cursor.anchored_start hg hn

theorem Anchored.execute (hg : g.WellKeyed) (h : s.Anchored g) (c : Command) :
    (s.execute g c).scene.Anchored g := by
  cases c with
  | set name v => exact h
  | jump target =>
    rw [Scene.execute]
    split
    · exact h
    · next hjump => exact anchored_jump hg hjump

theorem Anchored.executeAll (hg : g.WellKeyed) (h : s.Anchored g) (commands : List Command) :
    (s.executeAll g commands).scene.Anchored g := by
  induction commands generalizing s with
  | nil => exact h
  | cons c rest ih =>
    have hc := h.execute hg c
    rw [Scene.executeAll, Burst.andThen]
    split
    · exact hc
    · exact ih hc

theorem Anchored.present (h : s.Anchored g) (c : Choice) : (s.present c).scene.Anchored g := by
  rw [Scene.present]
  split <;> exact h

/-- A step that ends the call leaves the cursor behind itself, or where a jump has led. -/
theorem Anchored.done (hg : g.WellKeyed) {b : Burst} (h : s.Anchored g)
    (ht : s.take g step index = .done b) : b.scene.Anchored g := by
  rcases take_eq_done_cases ht with ⟨text, span, -, rfl⟩ | ⟨c, -, rfl⟩ |
    ⟨c, span, s₁, events, e, -, hexecute, rfl⟩ |
    ⟨condition, thenSteps, elseSteps, span, e, -, -, rfl⟩
  · exact h
  · exact h.present c
  · have hc := h.execute hg c
    rw [hexecute] at hc
    exact hc
  · -- The condition of a branch has failed: the frame is behind the branch, and no arm is entered.
    exact h

/-- A step behind which the call goes on leads to where a command has led, or into an arm. -/
theorem Anchored.onwards (hg : g.WellKeyed) {s'' : Scene} {events : List Event} (h : s.Anchored g)
    (hf : s.fetch g = some (step, index, s')) (ht : s'.take g step index = .onwards s'' events) :
    s''.Anchored g := by
  rcases take_eq_onwards_cases ht with ⟨c, span, rfl, hexecute⟩ |
    ⟨condition, thenSteps, elseSteps, span, holds, rfl, -, rfl, -⟩
  · have hc := (h.fetch hf).execute hg c
    rw [hexecute] at hc
    exact hc
  · exact h.enter hf _

end Scene

/-! ## Calls -/

/-- The strict call does not stray: it gives the burst of the call, and the cursor is anchored
behind it. -/
structure Burst.OnCourse (g : Graph) (strict : Except Stray Burst) (b : Burst) : Prop where
  eq : strict = .ok b
  anchored : b.scene.Anchored g

namespace Burst.OnCourse

variable {strict : Except Stray Burst} {b : Burst}

theorem after (h : OnCourse g strict b) (events : List Event) :
    OnCourse g (strict.map (Burst.after events)) (b.after events) := by
  refine ⟨?_, h.anchored⟩
  rw [h.eq, Outcome.map_ok]

theorem andThen {strictly : Scene → Except Stray Burst} {f : Scene → Burst}
    (h : b.scene.Anchored g) (hf : OnCourse g (strictly b.scene) (f b.scene)) :
    OnCourse g (b.andThenStrictly strictly) (b.andThen f) := by
  rw [andThenStrictly, Burst.andThen]
  cases b.fault with
  | some e => exact ⟨rfl, h⟩
  | none => exact hf.after b.events

end Burst.OnCourse

namespace Scene

open Burst (OnCourse)

variable {limit : UInt64} {s : Scene}

/-- **The loop over the steps stays on course**, by induction over its rounds. -/
theorem onCourse_advance (hg : g.WellKeyed) (h : s.Anchored g) (budget : Nat) :
    OnCourse g (s.strictAdvance g limit budget) (s.advance g limit budget []) := by
  induction budget, s using advance_induction (g := g) with
  | ended budget s hf =>
    rw [advance_of_fetch_eq_none hf, strictAdvance.eq_def, h.strictFetch_eq, hf]
    refine ⟨rfl, fun c hc => ?_⟩
    cases hc
  | limited s s' step index hf =>
    rw [advance_zero hf, strictAdvance, h.strictFetch_eq, hf]
    exact ⟨rfl, h.fetch hf⟩
  | done budget s s' step index b hf ht =>
    rw [advance_of_done hf ht, strictAdvance, h.strictFetch_eq, hf]
    simp only [ht]
    exact ⟨rfl, (h.fetch hf).done hg ht⟩
  | onwards budget s s' s'' step index events hf ht ih =>
    rw [advance_succ_of_onwards hf ht, strictAdvance, h.strictFetch_eq, hf]
    simp only [ht]
    exact (ih (h.onwards hg hf ht)).after events

theorem onCourse_proceed (hg : g.WellKeyed) (h : s.Anchored g) :
    OnCourse g (s.strictProceed g limit) (s.proceed g limit) := by
  rw [strictProceed, proceed]
  cases s.offer with
  | some o => exact ⟨rfl, h⟩
  | none => exact onCourse_advance hg h _

theorem onCourse_start (hg : g.WellKeyed) (h : s.Anchored g) (name : String) :
    OnCourse g (s.strictStart g limit name) (s.start g limit name) := by
  rw [strictStart, start]
  cases hjump : s.jump g name with
  | error e => exact ⟨rfl, h⟩
  | ok s' =>
    have hjumped : s'.Anchored g := anchored_jump hg hjump
    exact onCourse_proceed (s := { s' with offer := none, countdown := none }) hg hjumped

theorem onCourse_choose (hg : g.WellKeyed) (h : s.Anchored g) (index : Nat) :
    OnCourse g (s.strictChoose g limit index) (s.choose g limit index) := by
  rw [strictChoose, choose]
  cases s.offer with
  | none => exact ⟨rfl, h⟩
  | some o =>
    dsimp only
    cases o.entries[index]? with
    | none => exact ⟨rfl, h⟩
    | some e =>
      have hcommands := Anchored.executeAll
        (s := { s with offer := none, countdown := none }) hg h e.commands
      exact OnCourse.andThen hcommands (onCourse_proceed hg hcommands)

theorem onCourse_tick (hg : g.WellKeyed) (h : s.Anchored g) (seconds : Float) :
    OnCourse g (s.strictTick g limit seconds) (s.tick g limit seconds) := by
  rw [strictTick, tick]
  cases s.countdown with
  | none => exact ⟨rfl, h⟩
  | some before =>
    cases ho : s.offer with
    | none => exact ⟨rfl, h⟩
    | some o =>
      dsimp only
      split
      · -- The time is over, and the default option is taken.
        have hchoose := @onCourse_choose g limit { s with offer := some o, countdown := none } hg h
          o.defaultOption.toNat
        exact hchoose.after _
      · exact ⟨rfl, h⟩

end Scene

/-! ## Runs -/

namespace Runner

variable {r : Runner}

/-- What holds of the burst of a call holds of the answer. -/
theorem onCourse_take {strict : Except Stray Burst} {b : Burst}
    (h : Burst.OnCourse r.graph strict b) :
    strict.map r.take = .ok (r.take b) ∧ (r.take b).runner.scene.Anchored r.graph := by
  rw [h.eq]
  exact ⟨rfl, h.anchored⟩

/-- The strict call gives what the call gives, and the cursor is anchored behind it. -/
theorem onCourse_perform (hg : r.graph.WellKeyed) (h : r.scene.Anchored r.graph) (c : Call) :
    r.strictPerform c = .ok (r.perform c) ∧ (r.perform c).runner.scene.Anchored r.graph := by
  cases c with
  | start name => exact onCourse_take (Scene.onCourse_start hg h name)
  | proceed => exact onCourse_take (Scene.onCourse_proceed hg h)
  | choose index => exact onCourse_take (Scene.onCourse_choose hg h index)
  | tick seconds => exact onCourse_take (Scene.onCourse_tick hg h seconds)
  | set name v => exact ⟨rfl, h⟩
  | remove name => exact ⟨rfl, h⟩
  | clear => exact ⟨rfl, h⟩
  | subscribe listener => exact ⟨rfl, h⟩
  | drain => exact ⟨rfl, h⟩

theorem onCourse_run (hg : r.graph.WellKeyed) (h : r.scene.Anchored r.graph) (calls : List Call) :
    r.strictPerformAll calls = .ok (r.performAll calls) ∧
      (r.after calls).scene.Anchored r.graph := by
  induction calls generalizing r with
  | nil => exact ⟨rfl, h⟩
  | cons c rest ih =>
    obtain ⟨heq, hanchored⟩ := onCourse_perform hg h c
    have hgraph := r.graph_perform c
    have hrest := ih (hgraph.symm ▸ hg) (hgraph.symm ▸ hanchored)
    rw [hgraph] at hrest
    refine ⟨?_, hrest.2⟩
    rw [strictPerformAll, heq]
    dsimp only
    rw [hrest.1, performAll, Outcome.map_ok]

/-- **The frames of a cursor always address its graph.** After any calls on a new runner of a
well-keyed graph, a cursor stands in a node of the graph, and its frames address the steps of this
node. On the way there no look-up strays: the strict run, which would be over where a node, a frame
or a branch is not found, gives the same answers. -/
theorem anchored_after (hg : g.WellKeyed) (config : Config) (calls : List Call) :
    (∀ c, ((ofGraph g config).after calls).scene.cursor = some c →
      ∃ n, g.get? c.node = some n ∧ n.name = c.node ∧ Frame.Addresses n.steps c.frames) ∧
    (ofGraph g config).strictPerformAll calls = .ok ((ofGraph g config).performAll calls) := by
  have hstart : (ofGraph g config).scene.Anchored g := fun _ hc => nomatch hc
  obtain ⟨heq, hanchored⟩ := onCourse_run (r := ofGraph g config) hg hstart calls
  refine ⟨fun c hc => ?_, heq⟩
  obtain ⟨n, hn, hname, hnested⟩ := hanchored c hc
  exact ⟨n, hn, hname, hnested.addresses⟩

/-- The gate is opened and entered, and an option is asked for that is not on offer. -/
def gateCalls : List Call := [.set "open" (.bool true), .start " GATE", .choose 2]

/-- The frames at the choice of the gate, which stands inside two branches. -/
def gateFrames : List Frame := [⟨some (0, .thenArm), 1⟩, ⟨some (0, .thenArm), 1⟩, ⟨none, 1⟩]

/-- At the choice there are as many frames as there can be. -/
theorem anchored_after_gateGraph :
    gateGraph.WellKeyed ∧
      ((ofGraph gateGraph ⟨4, 8⟩).after gateCalls).scene.cursor = some ⟨"Gate", gateFrames⟩ ∧
      (∃ n, gateGraph.get? "Gate" = some n ∧ n.name = "Gate" ∧
        gateFrames.length = Step.deepest n.steps + 1 ∧ Frame.Addresses n.steps gateFrames) ∧
      (ofGraph gateGraph ⟨4, 8⟩).strictPerformAll gateCalls =
        .ok ((ofGraph gateGraph ⟨4, 8⟩).performAll gateCalls) := by
  have hg : gateGraph.WellKeyed := (Graph.wellKeyed_empty.insert _).insert _
  have hcursor : ((ofGraph gateGraph ⟨4, 8⟩).after gateCalls).scene.cursor =
      some ⟨"Gate", gateFrames⟩ := by decide +kernel
  have hdeep : (gateGraph.get? "Gate").map (fun n => Step.deepest n.steps) = some 2 := by
    decide +kernel
  obtain ⟨haddresses, hstrict⟩ := anchored_after hg ⟨4, 8⟩ gateCalls
  obtain ⟨n, hn, hname, haddress⟩ := haddresses _ hcursor
  have hlength : gateFrames.length = Step.deepest n.steps + 1 := by
    rw [hn] at hdeep
    have htwo : Step.deepest n.steps = 2 := Option.some.inj hdeep
    rw [htwo]
    rfl
  exact ⟨hg, hcursor, ⟨n, hn, hname, hlength, haddress⟩, hstrict⟩

/-- A graph that is given as data may have a node under another name than its own. A start finds the
node, and the cursor, which keeps the node's own name, strays at its first look-up. -/
example : (ofGraph ⟨.ofList [("a", ⟨"B", [], ⟨1, 1, 8⟩⟩)]⟩ .usual).strictPerformAll [.start "a"] =
    .error (.noNode "B") := rfl

end Runner

end Dialogue
