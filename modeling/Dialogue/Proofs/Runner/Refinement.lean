import Dialogue.Proofs.Graph.WellKeyed
import Dialogue.Proofs.Outcome
import Dialogue.Proofs.Runner.Flat
import Dialogue.Proofs.Runner.Remaining

/-!
# Runners behave like flat runs

`Scene.flatten` forgets the frames of a scene and keeps the list of steps that remain. Every call
commutes with it: flattening what a call gives is what the flat call gives on the flattened scene.
The diagram is proved part by part, commands first, then `advance`, then the four calls, and
`performAll_observe` puts the calls in a row.

That the graph is well-keyed is needed in one place only, the jump: the target is found by the name
in the command, and its steps are found again by the name that the node gives itself.
-/

namespace Dialogue

/-- The flat scene with the same steps to come. -/
def Scene.flatten (g : Graph) (s : Scene) : FlatScene :=
  ⟨s.vars, s.node?, s.remaining g, s.offer, s.countdown, s.justJumped⟩

def Burst.flatten (g : Graph) (b : Burst) : FlatBurst := ⟨b.scene.flatten g, b.events, b.fault⟩

variable {g : Graph}

namespace Burst

@[simp] theorem flatten_stop (s : Scene) (events : List Event) :
    (Burst.stop s events).flatten g = .stop (s.flatten g) events := rfl

@[simp] theorem flatten_fail (s : Scene) (events : List Event) (e : RunFault) :
    (Burst.fail s events e).flatten g = .fail (s.flatten g) events e := rfl

/-- Going on commutes with flattening when the continuations do. -/
theorem flatten_andThen {b : Burst} {f : Scene → Burst} {f' : FlatScene → FlatBurst}
    (h : ∀ s, (f s).flatten g = f' (s.flatten g)) :
    (b.andThen f).flatten g = (b.flatten g).andThen f' := by
  obtain ⟨s, events, fault⟩ := b
  cases fault with
  | some e => rfl
  | none =>
    show FlatBurst.mk ((f s).scene.flatten g) (events ++ (f s).events) (f s).fault =
      (f' (s.flatten g)).after events
    rw [← h s]
    rfl

end Burst

namespace FlatBurst

@[simp] theorem after_nil (b : FlatBurst) : b.after [] = b := rfl

theorem after_after (first second : List Event) (b : FlatBurst) :
    (b.after second).after first = b.after (first ++ second) := by
  simp [after]

end FlatBurst

namespace Scene

/-! ## Fetching -/

theorem flatten_of_fetch {s s' : Scene} {step : Step} {index : Nat}
    (h : s.fetch g = some (step, index, s')) :
    s.flatten g = { s'.flatten g with rest := step :: s'.remaining g } := by
  obtain ⟨hscene, hnode, hremaining, -⟩ := fetched h
  rw [hscene] at hnode ⊢
  simp only [flatten, hnode, hremaining]
  rw [hscene]

theorem flatten_enter {s s' : Scene} {step : Step} {index : Nat}
    (h : s.fetch g = some (step, index, s')) (arm : Arm) :
    (s'.enter index arm).flatten g =
      { s'.flatten g with rest := step.arm arm ++ s'.remaining g } := by
  have henter := (fetched h).enter arm
  have hnode : (s'.enter index arm).node? = s'.node? := by
    cases hc : s'.cursor <;> simp [enter, node?, Cursor.enter, hc]
  simp only [flatten, henter, hnode]
  rfl

/-! ## Commands and choices -/

/-- In a well-keyed graph the steps of the target are what remains after a jump. -/
theorem flatten_jump (hg : g.WellKeyed) (s : Scene) (target : String) :
    (s.jump g target).map (flatten g) = (s.flatten g).jump g target := by
  cases hn : g.get? target with
  | none => simp [jump, FlatScene.jump, hn]
  | some n =>
    -- The jump found `n` by its target, and the cursor will look for it by its own name.
    have hself : g.get? n.name = some n := hg.get?_name hn
    simp [jump, FlatScene.jump, hn, flatten, node?, remaining, Cursor.start, Cursor.remaining,
      hself, Frame.remaining, Frame.steps, Frame.root]

theorem flatten_execute (hg : g.WellKeyed) (s : Scene) (c : Command) :
    (s.execute g c).flatten g = (s.flatten g).execute g c := by
  cases c with
  | set name v => rfl
  | jump target =>
    have h := flatten_jump hg s target
    cases hj : s.jump g target with
    | error e =>
      rw [hj, Outcome.map_error] at h
      simp [execute, FlatScene.execute, hj, ← h]
    | ok s' =>
      rw [hj, Outcome.map_ok] at h
      simp [execute, FlatScene.execute, hj, ← h]

theorem flatten_executeAll (hg : g.WellKeyed) (s : Scene) (l : List Command) :
    (s.executeAll g l).flatten g = (s.flatten g).executeAll g l := by
  induction l generalizing s with
  | nil => rfl
  | cons c rest ih =>
    rw [executeAll, FlatScene.executeAll, ← flatten_execute hg]
    exact Burst.flatten_andThen fun s => ih s

theorem flatten_present (s : Scene) (c : Choice) :
    (s.present c).flatten g = (s.flatten g).present c := by
  have hvars : (s.flatten g).vars = s.vars := rfl
  unfold present FlatScene.present
  rw [hvars]
  cases Entry.offered s.vars c.entries with
  | error e => rfl
  | ok entries => cases entries <;> rfl

/-! ## Running -/

/-- Where no step is left, both runs end the dialogue. -/
theorem flatten_advance_of_fetch_eq_none {s : Scene} (h : s.fetch g = none) (limit : UInt64)
    (budget : Nat) (told : List Event) :
    (s.advance g limit budget told).flatten g =
      ((s.flatten g).advance g limit budget).after told.reverse := by
  have hrest : s.remaining g = [] := fetch_eq_none_iff.mp h
  have hflat : (s.flatten g).rest = [] := hrest
  have hclose : s.close.flatten g = { s.flatten g with node := none } := by
    rw [flatten, flatten, hrest]
    rfl
  rw [advance.eq_def, h, FlatScene.advance.eq_def, hflat]
  simpa [hclose, FlatBurst.after, FlatBurst.stop] using hflat

/-- The induction is on the budget: taking a step takes the head of what remains, and whatever the
step does leads to a scene whose flattening the flat run reaches too. -/
theorem flatten_advance (hg : g.WellKeyed) (limit : UInt64) (budget : Nat) (s : Scene)
    (told : List Event) :
    (s.advance g limit budget told).flatten g =
      ((s.flatten g).advance g limit budget).after told.reverse := by
  induction budget generalizing s told with
  | zero =>
    cases hf : s.fetch g with
    | none => exact flatten_advance_of_fetch_eq_none hf limit 0 told
    | some found =>
      obtain ⟨step, index, s'⟩ := found
      rw [advance, hf, flatten_of_fetch hf]
      simp [FlatScene.advance, FlatBurst.after, FlatBurst.fail, flatten]
  | succ budget ih =>
    cases hf : s.fetch g with
    | none => exact flatten_advance_of_fetch_eq_none hf limit (budget + 1) told
    | some found =>
      obtain ⟨step, index, s'⟩ := found
      rw [advance, hf, flatten_of_fetch hf, FlatScene.advance]
      have hrest : { s'.flatten g with rest := s'.remaining g } = s'.flatten g := rfl
      cases step with
      | line text span => rfl
      | choice c =>
        have h := flatten_present (g := g) s' c
        simp only [hrest, ← h]
        rfl
      | command c span =>
        have h := flatten_execute hg s' c
        simp only [hrest, ← h]
        obtain ⟨s₁, events, fault⟩ := s'.execute g c
        cases fault with
        | some e => rfl
        | none =>
          -- The events of the command stand between those told before and those of the rest.
          simp only [ih, List.reverse_append, List.reverse_reverse]
          rw [← FlatBurst.after_after]
          rfl
      | branch condition thenSteps elseSteps span =>
        have hvars : (s'.flatten g).vars = s'.vars := rfl
        simp only [hvars]
        cases s'.vars.check condition with
        | error e => simp [FlatBurst.after, FlatBurst.fail, flatten]
        | ok holds =>
          simp only [ih, flatten_enter hf]
          cases holds <;> rfl

theorem flatten_proceed (hg : g.WellKeyed) (limit : UInt64) (s : Scene) :
    (s.proceed g limit).flatten g = (s.flatten g).proceed g limit := by
  have hoffer : (s.flatten g).offer = s.offer := rfl
  rw [proceed, FlatScene.proceed, hoffer]
  cases s.offer with
  | some o => rfl
  | none => simpa using flatten_advance hg limit limit.toNat s []

theorem flatten_start (hg : g.WellKeyed) (limit : UInt64) (s : Scene) (name : String) :
    (s.start g limit name).flatten g = (s.flatten g).start g limit name := by
  have h := flatten_jump hg s name
  rw [start, FlatScene.start]
  cases hj : s.jump g name with
  | error e =>
    rw [hj, Outcome.map_error] at h
    rw [← h]
    rfl
  | ok s₁ =>
    rw [hj, Outcome.map_ok] at h
    rw [← h]
    exact flatten_proceed hg limit _

theorem flatten_choose (hg : g.WellKeyed) (limit : UInt64) (s : Scene) (index : Nat) :
    (s.choose g limit index).flatten g = (s.flatten g).choose g limit index := by
  have hoffer : (s.flatten g).offer = s.offer := rfl
  simp only [choose, FlatScene.choose, hoffer]
  cases s.offer with
  | none => rfl
  | some o =>
    simp only
    cases o.entries[index]? with
    | none => rfl
    | some e =>
      have h := flatten_executeAll hg { s with countdown := none, offer := none } e.commands
      exact (Burst.flatten_andThen (flatten_proceed hg limit)).trans (by rw [h]; rfl)

theorem flatten_tick (hg : g.WellKeyed) (limit : UInt64) (s : Scene) (seconds : Float) :
    (s.tick g limit seconds).flatten g = (s.flatten g).tick g limit seconds := by
  have hcountdown : (s.flatten g).countdown = s.countdown := rfl
  have hoffer : (s.flatten g).offer = s.offer := rfl
  simp only [tick, FlatScene.tick, hcountdown, hoffer]
  cases s.countdown with
  | none => rfl
  | some before =>
    cases s.offer with
    | none => rfl
    | some o =>
      simp only
      split
      · -- the time is over, and the default option is taken
        have h := flatten_choose hg limit { s with offer := some o, countdown := none }
          o.defaultOption.toNat
        exact congrArg (FlatBurst.after [.timerUpdated _, .timerExpired]) h
      · rfl

end Scene

/-! ## Calls -/

namespace Runner

theorem graph_perform (r : Runner) (c : Call) : (r.perform c).runner.graph = r.graph := by
  cases c <;> rfl

theorem config_perform (r : Runner) (c : Call) : (r.perform c).runner.config = r.config := by
  cases c <;> rfl

/-- What a call gives, the runner around its scene forgotten. -/
theorem flatten_perform {r : Runner} (hr : r.graph.WellKeyed) (c : Call) :
    FlatBurst.mk ((r.perform c).runner.scene.flatten r.graph) (r.perform c).events
        (r.perform c).fault =
      (r.scene.flatten r.graph).perform r.graph r.config.stepLimit c := by
  cases c with
  | start name => exact Scene.flatten_start hr r.config.stepLimit r.scene name
  | proceed => exact Scene.flatten_proceed hr r.config.stepLimit r.scene
  | choose index => exact Scene.flatten_choose hr r.config.stepLimit r.scene index
  | tick seconds => exact Scene.flatten_tick hr r.config.stepLimit r.scene seconds
  | set name v => rfl
  | remove name => rfl
  | clear => rfl
  | subscribe listener => rfl
  | drain => rfl

theorem observe_performAll {r : Runner} (hr : r.graph.WellKeyed) (calls : List Call) :
    (r.performAll calls).map Answer.observe =
      ((r.scene.flatten r.graph).performAll r.graph r.config.stepLimit calls).map
        FlatBurst.observe := by
  induction calls generalizing r with
  | nil => rfl
  | cons c rest ih =>
    have hcall := flatten_perform hr c
    have hgraph := r.graph_perform c
    have hconfig := r.config_perform c
    have hrest := ih (r := (r.perform c).runner) (hgraph ▸ hr)
    rw [hgraph, hconfig] at hrest
    rw [performAll, FlatScene.performAll, List.map_cons, List.map_cons, hrest, ← hcall]
    rfl

/-- **A host cannot tell a runner from a flat run**: whatever calls it makes, every one of them
gives the same observation. -/
theorem performAll_observe {g : Graph} (hg : g.WellKeyed) (config : Config) (calls : List Call) :
    ((ofGraph g config).performAll calls).map Answer.observe =
      (FlatScene.initial.performAll g config.stepLimit calls).map FlatBurst.observe :=
  observe_performAll hg calls

end Runner

/-- A graph with a timed choice inside two branches, behind which the dialogue goes on, and a jump
out of them. -/
def gateGraph : Graph :=
  (Graph.empty.insert ⟨"Gate", [
    .branch "open" [
      .branch "!locked" [
        .choice ⟨[⟨"Enter", some "! tired", [.set "in" (.bool true), .jump "hall"], ⟨5, 1, 9⟩⟩,
          ⟨"Wait", none, [], ⟨6, 1, 7⟩⟩], some 2, 0, ⟨5, 1, 9⟩⟩,
        .line "Still there" ⟨8, 1, 11⟩] [] ⟨4, 1, 15⟩,
      .line "Behind the lock" ⟨10, 1, 15⟩] [] ⟨3, 1, 11⟩,
    .line "Behind the gate" ⟨12, 1, 15⟩], ⟨1, 1, 11⟩⟩).insert
  ⟨"Hall", [.line "Welcome" ⟨16, 1, 7⟩, .command (.jump "Gate") ⟨17, 1, 13⟩], ⟨14, 1, 11⟩⟩

theorem Runner.performAll_observe_gateGraph :
    gateGraph.WellKeyed ∧
      ((ofGraph gateGraph ⟨4, 8⟩).performAll [.set "open" (.bool true), .start " GATE",
          .choose 2, .choose 1, .proceed, .start "gate", .tick 3, .proceed, .start "Tower"]).map
            Answer.observe =
        (FlatScene.initial.performAll gateGraph 4 [.set "open" (.bool true), .start " GATE",
          .choose 2, .choose 1, .proceed, .start "gate", .tick 3, .proceed, .start "Tower"]).map
            FlatBurst.observe :=
  have hg : gateGraph.WellKeyed := (Graph.wellKeyed_empty.insert _).insert _
  ⟨hg, performAll_observe hg ⟨4, 8⟩ _⟩

end Dialogue
