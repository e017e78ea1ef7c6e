import Dialogue.Json.Script
import Dialogue.Proofs.Runner.Refinement
import Dialogue.Proofs.Runner.Reply

/-!
# Trails

The *trail* of a run is the list of what a dialogue does on its way through the graph: it jumps to a
node, runs a step, drops a step that the limit forbids, or comes to the end. Every step is marked
with the node in which the cursor stands, found in the graph by the name that the cursor keeps.

A trail is a `Walk`: from the steps that remain in one node it takes the first, goes into an arm or
past it, and a jump exchanges the node. So everything that a run does is read off the places between
which it walks (`walk_trail`), for graphs of any kind. The lines on a trail are those that the run
tells (`heard_trail`).

A jump finds its target under one name and the cursor keeps another, the name that the node gives
itself. Behind a jump the steps are those of the node under that name, and they are those of the
target exactly when it is the same node (`trail_behind_jump`). In well-keyed graphs it always is; a
graph that is given as data may send the dialogue elsewhere (`trail_leaves_crossedGraph`).
-/

namespace Dialogue

/-! ## Marks -/

/-- What a dialogue does on its way; a step is marked with the node it is looked up in. -/
inductive Mark where
  | jumped (n : Node)
  | ran (home : Option Node) (step : Step)
  | dropped (home : Option Node) (step : Step)
  | ended

namespace Mark

/-- Whether a step is marked. -/
def isStep : Mark → Bool
  | .ran _ _ => true
  | .dropped _ _ => true
  | _ => false

/-- The node that a step is looked up in. -/
def home? : Mark → Option Node
  | .ran home _ => home
  | .dropped home _ => home
  | _ => none

end Mark

/-! ## The trail of a run

One definition beside each part of `Scene` that moves the cursor. -/

/-- The trail of a command. -/
def Command.trail (g : Graph) : Command → List Mark
  | .jump target =>
    match g.get? target with
    | none => []
    | some n => [.jumped n]
  | .set _ _ => []

/-- What a step adds to the trail when it has been run. -/
def Step.trail (g : Graph) : Step → List Mark
  | .command c _ => c.trail g
  | _ => []

namespace Scene

/-- The node that the cursor stands in. -/
def home? (g : Graph) (s : Scene) : Option Node := s.node?.bind g.get?

/-- The trail of commands, up to the first that fails. -/
def trailOf (g : Graph) (s : Scene) : List Command → List Mark
  | [] => []
  | c :: rest =>
    c.trail g ++
      match (s.execute g c).fault with
      | some _ => []
      | none => (s.execute g c).scene.trailOf g rest

/-- The trail of going on under a budget. -/
def trail (g : Graph) (budget : Nat) (s : Scene) : List Mark :=
  match s.fetch g with
  | none => [.ended]
  | some (step, index, s') =>
    match budget with
    | 0 => [.dropped (s.home? g) step]
    | budget + 1 =>
      .ran (s.home? g) step :: (step.trail g ++
        match s'.take g step index with
        | .done _ => []
        | .onwards s'' _ => s''.trail g budget)

def proceedTrail (g : Graph) (limit : UInt64) (s : Scene) : List Mark :=
  match s.offer with
  | some _ => []
  | none => s.trail g limit.toNat

def startTrail (g : Graph) (limit : UInt64) (s : Scene) (name : String) : List Mark :=
  match s.jump g name with
  | .error _ => []
  | .ok s =>
    (Command.jump name).trail g ++
      { s with offer := none, countdown := none }.proceedTrail g limit

def chooseTrail (g : Graph) (limit : UInt64) (s : Scene) (index : Nat) : List Mark :=
  let s := { s with countdown := none }
  match s.offer with
  | none => []
  | some o =>
    match o.entries[index]? with
    | none => []
    | some e =>
      let b := { s with offer := none }.executeAll g e.commands
      { s with offer := none }.trailOf g e.commands ++
        match b.fault with
        | some _ => []
        | none => b.scene.proceedTrail g limit

def tickTrail (g : Graph) (limit : UInt64) (s : Scene) (seconds : Float) : List Mark :=
  match s.countdown, s.offer with
  | some before, some o =>
    if atLeastZero (before - atLeastZero seconds) ≤ 0 then
      { s with countdown := none }.chooseTrail g limit o.defaultOption.toNat
    else []
  | _, _ => []

end Scene

namespace Runner

/-- The trail of a call. -/
def callTrail (r : Runner) : Call → List Mark
  | .start name => r.scene.startTrail r.graph r.config.stepLimit name
  | .proceed => r.scene.proceedTrail r.graph r.config.stepLimit
  | .choose index => r.scene.chooseTrail r.graph r.config.stepLimit index
  | .tick seconds => r.scene.tickTrail r.graph r.config.stepLimit seconds
  | _ => []

/-- The trail of some calls, made one after the other. -/
def trail (r : Runner) : List Call → List Mark
  | [] => []
  | c :: rest => r.callTrail c ++ (r.perform c).runner.trail rest

end Runner

/-! ## Walks -/

/-- A place on the way: the node in which the cursor stands, and the steps that remain. -/
structure Spot where
  home : Option Node
  rest : List Step

/-- The place to which a jump to a node leads: the node of its name is looked up in the graph. -/
def Graph.spotOf (g : Graph) (n : Node) : Spot :=
  ⟨g.get? n.name, ((g.get? n.name).map Node.steps).getD []⟩

/-- The place in a scene. -/
def Scene.spot (g : Graph) (s : Scene) : Spot := ⟨s.home? g, s.remaining g⟩

/-- `Walk g p marks q`: the marks lead from the place `p` to the place `q`. A step that is run takes
the first of the steps that remain, and one of its arms may come in its place. -/
inductive Walk (g : Graph) : Spot → List Mark → Spot → Prop
  | here {p : Spot} : Walk g p [] p
  | ran {home : Option Node} {step : Step} {rest : List Step} {marks : List Mark} {q : Spot} :
      Walk g ⟨home, rest⟩ marks q → Walk g ⟨home, step :: rest⟩ (.ran home step :: marks) q
  | entered {home : Option Node} {step : Step} {rest : List Step} {marks : List Mark} {q : Spot}
      (arm : Arm) : Walk g ⟨home, step.arm arm ++ rest⟩ marks q →
      Walk g ⟨home, step :: rest⟩ (.ran home step :: marks) q
  | dropped {home : Option Node} {step : Step} {rest : List Step} {marks : List Mark} {q : Spot} :
      Walk g ⟨home, rest⟩ marks q → Walk g ⟨home, step :: rest⟩ (.dropped home step :: marks) q
  | ended {home : Option Node} {marks : List Mark} {q : Spot} :
      Walk g ⟨none, []⟩ marks q → Walk g ⟨home, []⟩ (.ended :: marks) q
  | jumped {p : Spot} {name : String} {n : Node} {marks : List Mark} {q : Spot} :
      g.get? name = some n → Walk g (g.spotOf n) marks q → Walk g p (.jumped n :: marks) q

namespace Walk

variable {g : Graph} {p q r : Spot} {marks more : List Mark}

theorem append (h : Walk g p marks q) (h' : Walk g q more r) : Walk g p (marks ++ more) r := by
  induction h with
  | here => exact h'
  | ran _ ih => exact .ran (ih h')
  | entered arm _ ih => exact .entered arm (ih h')
  | dropped _ ih => exact .dropped (ih h')
  | ended _ ih => exact .ended (ih h')
  | jumped hn _ ih => exact .jumped hn (ih h')

/-- A walk has a place between any two of its marks. -/
theorem exists_between (h : Walk g p (marks ++ more) r) :
    ∃ q, Walk g p marks q ∧ Walk g q more r := by
  induction marks generalizing p with
  | nil => exact ⟨p, .here, h⟩
  | cons m marks ih =>
    cases h with
    | ran h =>
      obtain ⟨q, hq, hr⟩ := ih h
      exact ⟨q, .ran hq, hr⟩
    | entered arm h =>
      obtain ⟨q, hq, hr⟩ := ih h
      exact ⟨q, .entered arm hq, hr⟩
    | dropped h =>
      obtain ⟨q, hq, hr⟩ := ih h
      exact ⟨q, .dropped hq, hr⟩
    | ended h =>
      obtain ⟨q, hq, hr⟩ := ih h
      exact ⟨q, .ended hq, hr⟩
    | jumped hn h =>
      obtain ⟨q, hq, hr⟩ := ih h
      exact ⟨q, .jumped hn hq, hr⟩

/-- As long as only steps are marked, the walk stays in its node. -/
theorem home_eq (h : Walk g p marks q) (hsteps : ∀ m ∈ marks, m.isStep = true) :
    (∀ m ∈ marks, m.home? = p.home) ∧ q.home = p.home := by
  induction h with
  | here => exact ⟨fun _ hm => absurd hm List.not_mem_nil, rfl⟩
  | ran _ ih =>
    obtain ⟨hmarks, hq⟩ := ih fun m hm => hsteps m (List.mem_cons_of_mem _ hm)
    exact ⟨List.forall_mem_cons.mpr ⟨rfl, hmarks⟩, hq⟩
  | entered arm _ ih =>
    obtain ⟨hmarks, hq⟩ := ih fun m hm => hsteps m (List.mem_cons_of_mem _ hm)
    exact ⟨List.forall_mem_cons.mpr ⟨rfl, hmarks⟩, hq⟩
  | dropped _ ih =>
    obtain ⟨hmarks, hq⟩ := ih fun m hm => hsteps m (List.mem_cons_of_mem _ hm)
    exact ⟨List.forall_mem_cons.mpr ⟨rfl, hmarks⟩, hq⟩
  | ended _ _ => cases hsteps _ List.mem_cons_self
  | jumped _ _ _ => cases hsteps _ List.mem_cons_self

/-- The dialogue ends where no step remains. -/
theorem rest_eq_nil_of_ended (h : Walk g p marks q) (hended : marks.head? = some .ended) :
    p.rest = [] := by
  cases h with
  | here => cases hended
  | ran _ => cases hended
  | entered _ _ => cases hended
  | dropped _ => cases hended
  | ended _ => rfl
  | jumped _ _ => cases hended

end Walk

/-! ## What is heard

Lines are told as they stand in the graph, so what is told shows which lines were run. -/

/-- The line that an event tells. -/
def Event.line? : Event → Option String
  | .lineReady text => some text
  | _ => none

/-- The line that is run. -/
def Mark.line? : Mark → Option String
  | .ran _ (.line text _) => some text
  | _ => none

/-- The events tell the lines that are run, in their order, and no others. -/
def Mark.Heard (marks : List Mark) (events : List Event) : Prop :=
  marks.filterMap Mark.line? = events.filterMap Event.line?

/-! ## The trail of a burst -/

/-- The marks are those of a burst that begins at the place `p`: they lead from there to where it
ends, and its events tell the lines among them. -/
structure Traces (g : Graph) (p : Spot) (marks : List Mark) (b : Burst) : Prop where
  walk : Walk g p marks (b.scene.spot g)
  heard : Mark.Heard marks b.events

namespace Traces

variable {g : Graph} {p : Spot} {marks more : List Mark} {b b' : Burst}

theorem after (h : Traces g p marks b) (h' : Traces g (b.scene.spot g) more b') :
    Traces g p (marks ++ more) (b'.after b.events) where
  walk := h.walk.append h'.walk
  heard := by
    rw [Mark.Heard, Burst.after, List.filterMap_append, List.filterMap_append, h.heard, h'.heard]

/-- A burst that goes on unless it has failed. -/
theorem andThen {trail : Scene → List Mark} {f : Scene → Burst} (h : Traces g p marks b)
    (hf : ∀ s, Traces g (s.spot g) (trail s) (f s)) :
    Traces g p (marks ++ match b.fault with
      | some _ => []
      | none => trail b.scene) (b.andThen f) := by
  rw [Burst.andThen]
  cases b.fault with
  | some e =>
    rw [List.append_nil]
    exact h
  | none => exact h.after (hf b.scene)

end Traces

namespace Scene

variable {g : Graph} {limit : UInt64}

/-! ### Commands -/

theorem spot_of_jump {s s' : Scene} {target : String} (h : s.jump g target = .ok s') :
    ∃ n, g.get? target = some n ∧ s'.spot g = g.spotOf n := by
  rw [jump] at h
  split at h
  · cases h
  · next n hn =>
    cases h
    refine ⟨n, hn, ?_⟩
    simp only [spot, home?, node?, remaining, Cursor.start, Cursor.remaining, Graph.spotOf,
      Option.map_some, Option.bind_some]
    cases g.get? n.name with
    | none => rfl
    | some m => simp [Frame.remaining, Frame.steps, Frame.root]

theorem traces_jump {s s' : Scene} {target : String} (h : s.jump g target = .ok s') :
    Traces g (s.spot g) ((Command.jump target).trail g) (.stop s' []) := by
  obtain ⟨n, hn, hspot⟩ := spot_of_jump h
  have htrail : (Command.jump target).trail g = [.jumped n] := by simp only [Command.trail, hn]
  have hwalk : Walk g (s.spot g) [.jumped n] (s'.spot g) := by
    rw [hspot]
    exact .jumped hn .here
  rw [htrail]
  exact ⟨hwalk, rfl⟩

theorem traces_execute (s : Scene) (c : Command) :
    Traces g (s.spot g) (c.trail g) (s.execute g c) := by
  cases c with
  | set name v => exact ⟨.here, rfl⟩
  | jump target =>
    cases hjump : s.jump g target with
    | ok s' =>
      rw [execute, hjump]
      exact traces_jump hjump
    | error e =>
      -- A jump that fails leaves no trail, since its target is not there.
      have hnone : g.get? target = none := by
        rw [jump] at hjump
        split at hjump
        · assumption
        · cases hjump
      have htrail : (Command.jump target).trail g = [] := by simp only [Command.trail, hnone]
      rw [execute, hjump, htrail]
      exact ⟨.here, rfl⟩

theorem traces_executeAll (s : Scene) (commands : List Command) :
    Traces g (s.spot g) (s.trailOf g commands) (s.executeAll g commands) := by
  induction commands generalizing s with
  | nil => exact ⟨.here, rfl⟩
  | cons c rest ih =>
    rw [executeAll, trailOf]
    exact (traces_execute s c).andThen ih

/-! ### Steps -/

theorem spot_of_fetch {s s' : Scene} {step : Step} {index : Nat}
    (h : s.fetch g = some (step, index, s')) :
    s.spot g = ⟨s.home? g, step :: s'.remaining g⟩ ∧ s'.spot g = ⟨s.home? g, s'.remaining g⟩ := by
  have hfetched := fetched h
  have hhome : s'.home? g = s.home? g := by rw [home?, home?, hfetched.node]
  constructor
  · rw [spot, hfetched.remaining]
  · rw [spot, hhome]

/-- A step that is not a branch takes the dialogue behind it, and there it does what it does. -/
theorem traces_ran {s s' : Scene} {step : Step} {index : Nat} {marks : List Mark} {b : Burst}
    (hf : s.fetch g = some (step, index, s')) (h : Traces g (s'.spot g) marks b)
    (hline : (Mark.ran (s.home? g) step).line? = none) :
    Traces g (s.spot g) (.ran (s.home? g) step :: marks) b := by
  obtain ⟨hspot, hbehind⟩ := spot_of_fetch hf
  constructor
  · rw [hspot]
    apply Walk.ran
    rw [← hbehind]
    exact h.walk
  · rw [Mark.Heard, List.filterMap_cons, hline]
    exact h.heard

theorem traces_present (s : Scene) (c : Choice) : Traces g (s.spot g) [] (s.present c) := by
  rw [present]
  split
  · exact ⟨.here, rfl⟩
  · exact ⟨.here, rfl⟩
  · constructor
    · exact .here
    · rw [Burst.stop, offerEvents]
      cases c.timeLimit <;> rfl

/-- A step that ends the call. -/
theorem traces_of_done {s s' : Scene} {step : Step} {index : Nat} {b : Burst}
    (hf : s.fetch g = some (step, index, s')) (h : s'.take g step index = .done b) :
    Traces g (s.spot g) (.ran (s.home? g) step :: step.trail g) b := by
  rcases take_eq_done_cases h with ⟨text, span, rfl, rfl⟩ | ⟨c, rfl, rfl⟩ |
    ⟨c, span, s₁, events, e, rfl, hexecute, rfl⟩ |
    ⟨condition, thenSteps, elseSteps, span, e, rfl, -, rfl⟩
  · obtain ⟨hspot, hbehind⟩ := spot_of_fetch hf
    refine ⟨?_, rfl⟩
    rw [hspot]
    apply Walk.ran
    rw [← hbehind]
    exact .here
  · exact traces_ran hf (traces_present s' c) rfl
  · have hcommand := traces_execute (g := g) s' c
    rw [hexecute] at hcommand
    exact traces_ran hf hcommand rfl
  · exact traces_ran hf ⟨.here, rfl⟩ rfl

/-- A step behind which the call goes on. -/
theorem traces_of_onwards {s s' s'' : Scene} {step : Step} {index : Nat} {events : List Event}
    (hf : s.fetch g = some (step, index, s')) (h : s'.take g step index = .onwards s'' events) :
    Traces g (s.spot g) (.ran (s.home? g) step :: step.trail g) (.stop s'' events) := by
  rcases take_eq_onwards_cases h with ⟨c, span, rfl, hexecute⟩ |
    ⟨condition, thenSteps, elseSteps, span, holds, rfl, -, rfl, rfl⟩
  · have hcommand := traces_execute (g := g) s' c
    rw [hexecute] at hcommand
    exact traces_ran hf hcommand rfl
  · -- The arm that is entered comes in front of the steps behind the branch.
    obtain ⟨hspot, hbehind⟩ := spot_of_fetch hf
    have henter := (fetched hf).enter (if holds then .thenArm else .elseArm)
    have hnode : (s'.enter index (if holds then .thenArm else .elseArm)).home? g = s.home? g := by
      rw [← (Spot.mk.inj hbehind).1]
      cases hc : s'.cursor <;> simp [home?, enter, node?, Cursor.enter, hc]
    refine ⟨?_, rfl⟩
    rw [hspot, Burst.stop, spot, henter, hnode]
    exact .entered _ .here

/-! ### Calls -/

/-- **The trail of going on.** -/
theorem traces_advance (budget : Nat) (s : Scene) :
    Traces g (s.spot g) (s.trail g budget) (s.advance g limit budget []) := by
  induction budget, s using advance_induction (g := g) with
  | ended budget s hf =>
    have hrest : s.remaining g = [] := fetch_eq_none_iff.mp hf
    have htrail : s.trail g budget = [.ended] := by rw [trail.eq_def, hf]
    rw [advance_of_fetch_eq_none hf, htrail]
    refine ⟨?_, rfl⟩
    rw [spot, hrest]
    exact .ended .here
  | limited s s' step index hf =>
    obtain ⟨hspot, hbehind⟩ := spot_of_fetch hf
    rw [advance_zero hf, trail, hf]
    refine ⟨?_, rfl⟩
    rw [hspot, Burst.fail, hbehind]
    exact .dropped .here
  | done budget s s' step index b hf ht =>
    rw [advance_of_done hf ht, trail, hf]
    simp only [ht, List.append_nil]
    exact traces_of_done hf ht
  | onwards budget s s' s'' step index events hf ht ih =>
    rw [advance_succ_of_onwards hf ht, trail, hf]
    simp only [ht]
    exact (traces_of_onwards hf ht).after ih

theorem traces_proceed (s : Scene) :
    Traces g (s.spot g) (s.proceedTrail g limit) (s.proceed g limit) := by
  rw [proceed, proceedTrail]
  cases s.offer with
  | some o => exact ⟨.here, rfl⟩
  | none => exact traces_advance _ s

theorem traces_start (s : Scene) (name : String) :
    Traces g (s.spot g) (s.startTrail g limit name) (s.start g limit name) := by
  rw [start, startTrail]
  cases hj : s.jump g name with
  | error e => exact ⟨.here, rfl⟩
  | ok s' =>
    have hproceed := @traces_proceed g limit { s' with offer := none, countdown := none }
    exact (traces_jump hj).after hproceed

theorem traces_choose (s : Scene) (index : Nat) :
    Traces g (s.spot g) (s.chooseTrail g limit index) (s.choose g limit index) := by
  rw [choose, chooseTrail]
  cases ho : s.offer with
  | none => exact ⟨.here, rfl⟩
  | some o =>
    dsimp only
    cases o.entries[index]? with
    | none => exact ⟨.here, rfl⟩
    | some e =>
      have hall := traces_executeAll (g := g) { s with countdown := none, offer := none } e.commands
      exact hall.andThen fun s' => traces_proceed s'

theorem traces_tick (s : Scene) (seconds : Float) :
    Traces g (s.spot g) (s.tickTrail g limit seconds) (s.tick g limit seconds) := by
  rw [tick, tickTrail]
  cases s.countdown with
  | none => exact ⟨.here, rfl⟩
  | some before =>
    cases s.offer with
    | none => exact ⟨.here, rfl⟩
    | some o =>
      dsimp only
      split
      · have hchoose := @traces_choose g limit { s with offer := some o, countdown := none }
          o.defaultOption.toNat
        exact ⟨hchoose.walk, hchoose.heard⟩
      · exact ⟨.here, rfl⟩

end Scene

/-! ## The trail of a run -/

namespace Runner

theorem traces_callTrail (r : Runner) (c : Call) :
    Traces r.graph (r.scene.spot r.graph) (r.callTrail c)
      ⟨(r.perform c).runner.scene, (r.perform c).events, (r.perform c).fault⟩ := by
  cases c with
  | start name => exact Scene.traces_start r.scene name
  | proceed => exact Scene.traces_proceed r.scene
  | choose index => exact Scene.traces_choose r.scene index
  | tick seconds => exact Scene.traces_tick r.scene seconds
  | set name v => exact ⟨.here, rfl⟩
  | remove name => exact ⟨.here, rfl⟩
  | clear => exact ⟨.here, rfl⟩
  | subscribe listener => exact ⟨.here, rfl⟩
  | drain => exact ⟨.here, rfl⟩

/-- **The trail of a run is a walk** from where the runner stands to where it stands then. -/
theorem walk_trail (r : Runner) (calls : List Call) :
    Walk r.graph (r.scene.spot r.graph) (r.trail calls)
      ((r.after calls).scene.spot r.graph) := by
  induction calls generalizing r with
  | nil => exact .here
  | cons c rest ih =>
    have hrest := ih (r.perform c).runner
    rw [graph_perform] at hrest
    exact (r.traces_callTrail c).walk.append hrest

/-- **Every line on the trail of a run is heard**, in the order of the trail, and no other. -/
theorem heard_trail (r : Runner) (calls : List Call) :
    Mark.Heard (r.trail calls) (r.stream calls) := by
  induction calls generalizing r with
  | nil => rfl
  | cons c rest ih =>
    rw [trail, stream_cons, Mark.Heard, List.filterMap_append, List.filterMap_append,
      (r.traces_callTrail c).heard, ih (r.perform c).runner]

end Runner

/-! ## Behind a jump -/

/-- **Where a jump leads.** Let a run jump to a node and take some steps behind it, up to another
jump or the end. The target was found under some name. The steps go through the node that is found
under the name that the target gives itself, and when the dialogue ends there, none of them remains.
They are steps of the target exactly when that node is the target, and then they go through all of
its steps. -/
theorem Runner.trail_behind_jump {r : Runner} {calls : List Call} {before inside after : List Mark}
    {n : Node} (htrail : r.trail calls = before ++ .jumped n :: (inside ++ after))
    (hinside : ∀ m ∈ inside, m.isStep = true) :
    (∃ name, r.graph.get? name = some n) ∧
    (∃ rest, Walk r.graph (r.graph.spotOf n) inside ⟨r.graph.get? n.name, rest⟩ ∧
      (after.head? = some .ended → rest = [])) ∧
    ((∀ m ∈ inside, m.home? = some n) ↔ inside = [] ∨ r.graph.get? n.name = some n) ∧
    (r.graph.get? n.name = some n →
      ∃ rest, Walk r.graph ⟨some n, n.steps⟩ inside ⟨some n, rest⟩ ∧
        (after.head? = some .ended → rest = [])) := by
  have hwalk := r.walk_trail calls
  rw [htrail] at hwalk
  obtain ⟨p, -, hbehind⟩ := hwalk.exists_between
  cases hbehind with
  | @jumped _ name _ _ _ hname hbehind =>
    obtain ⟨q, hinner, hafter⟩ := hbehind.exists_between
    obtain ⟨hmarks, hhome⟩ := hinner.home_eq hinside
    have hhome : q.home = r.graph.get? n.name := hhome
    have hq : q = ⟨r.graph.get? n.name, q.rest⟩ := by rw [← hhome]
    have hwalks : ∃ rest, Walk r.graph (r.graph.spotOf n) inside ⟨r.graph.get? n.name, rest⟩ ∧
        (after.head? = some .ended → rest = []) :=
      ⟨q.rest, hq ▸ hinner, hafter.rest_eq_nil_of_ended⟩
    refine ⟨⟨name, hname⟩, hwalks, ⟨fun h => ?_, fun h => ?_⟩, fun hself => ?_⟩
    · cases inside with
      | nil => exact .inl rfl
      | cons m inside =>
        right
        have hfound : m.home? = r.graph.get? n.name := hmarks m List.mem_cons_self
        rw [← hfound]
        exact h m List.mem_cons_self
    · intro m hm
      rcases h with rfl | hself
      · exact absurd hm List.not_mem_nil
      · rw [hmarks m hm]
        exact hself
    · obtain ⟨rest, hrest, hended⟩ := hwalks
      rw [Graph.spotOf, hself] at hrest
      exact ⟨rest, hrest, hended⟩

/-- A hall from which the dialogue goes on into a garden. -/
def gardenNode : Node :=
  ⟨"Garden", [.line "Roses" ⟨6, 1, 5⟩, .line "Bees" ⟨7, 1, 4⟩], ⟨5, 1, 13⟩⟩

def hallNode : Node :=
  ⟨"Hall", [.line "Hello" ⟨3, 1, 5⟩, .command (.jump "GARDEN ") ⟨4, 1, 16⟩], ⟨1, 1, 11⟩⟩

def estateGraph : Graph := (Graph.empty.insert hallNode).insert gardenNode

/-- The marks of the garden in a run that begins in the hall. -/
def gardenMarks : List Mark :=
  [.ran (some gardenNode) (.line "Roses" ⟨6, 1, 5⟩),
    .ran (some gardenNode) (.line "Bees" ⟨7, 1, 4⟩)]

theorem Runner.trail_behind_jump_estateGraph :
    ((ofGraph estateGraph .usual).trail [.start "hall", .proceed, .proceed, .proceed] =
        [.jumped hallNode, .ran (some hallNode) (.line "Hello" ⟨3, 1, 5⟩),
          .ran (some hallNode) (.command (.jump "GARDEN ") ⟨4, 1, 16⟩)] ++
          .jumped gardenNode :: (gardenMarks ++ [.ended]) ∧
      (∀ m ∈ gardenMarks, m.isStep = true) ∧
      estateGraph.get? gardenNode.name = some gardenNode) ∧
    (∀ m ∈ gardenMarks, m.home? = some gardenNode) ∧
    ∃ rest, Walk estateGraph ⟨some gardenNode, gardenNode.steps⟩ gardenMarks
      ⟨some gardenNode, rest⟩ ∧ ([Mark.ended].head? = some .ended → rest = []) := by
  have htrail : (ofGraph estateGraph .usual).trail [.start "hall", .proceed, .proceed, .proceed] =
      [.jumped hallNode, .ran (some hallNode) (.line "Hello" ⟨3, 1, 5⟩),
        .ran (some hallNode) (.command (.jump "GARDEN ") ⟨4, 1, 16⟩)] ++
        .jumped gardenNode :: (gardenMarks ++ [.ended]) := rfl
  have hsteps : ∀ m ∈ gardenMarks, m.isStep = true := by decide
  have hself : estateGraph.get? gardenNode.name = some gardenNode := rfl
  obtain ⟨-, -, hiff, hwalk⟩ := trail_behind_jump htrail hsteps
  exact ⟨⟨htrail, hsteps, hself⟩, hiff.mpr (.inr hself), hwalk hself⟩

/-! ### A graph that leads elsewhere -/

/-- Two nodes that give themselves the same name. -/
def hereNode : Node := ⟨"B", [.line "Here" ⟨3, 1, 4⟩], ⟨1, 1, 8⟩⟩

def thereNode : Node := ⟨"B", [.line "There" ⟨7, 1, 5⟩], ⟨5, 1, 8⟩⟩

/-- A graph in which one of them stands under another name, which can be given as data only. -/
def crossedGraph : Graph := ⟨.ofList [("a", hereNode), ("b", thereNode)]⟩

/-- **A start may lead to another node than the one it finds**: it finds the one node under its
name, and runs a step of the other. -/
theorem trail_leaves_crossedGraph :
    Graph.ofJson? crossedGraph.toJson = some crossedGraph ∧
      crossedGraph.get? "a" = some hereNode ∧
      (Runner.ofGraph crossedGraph .usual).trail [.start "a"] =
        [.jumped hereNode, .ran (some thereNode) (.line "There" ⟨7, 1, 5⟩)] ∧
      ((Runner.ofGraph crossedGraph .usual).start "a").events = [.lineReady "There"] ∧
      hereNode ≠ thereNode ∧
      ¬ (Step.line "There" ⟨7, 1, 5⟩).Within hereNode.steps := by
  refine ⟨by with_unfolding_all rfl, rfl, rfl, by decide, ?_, ?_⟩
  · intro h
    cases congrArg (fun n => n.span) h
  · intro h
    cases h with
    | here hmem =>
      have htext := Step.line.inj (List.mem_singleton.mp hmem)
      exact absurd htext.1 (by decide)
    | inArm arm hmem hin =>
      cases List.mem_singleton.mp hmem
      cases hin with
      | here hnone => cases hnone
      | inArm _ hnone _ => cases hnone

end Dialogue
