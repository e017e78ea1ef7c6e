import Dialogue.Proofs.Graph.Conditions
import Dialogue.Proofs.Runner.Refinement
import Dialogue.Proofs.Runner.Turn

/-!
# Variables without influence

A dialogue looks at its variables in conditions only. So two runs over stores that agree on the
variables that the conditions of the graph mention cannot be told apart, whatever else the stores
hold, and an absent variable does as well as a null one.

`Scene.AlikeOn` relates two scenes whose stores agree on some names and that are equal in all other
respects. Every part of a call takes alike scenes to alike scenes with the same events and the same
fault: commands write the same value to both stores, and conditions have the same outcome over both.
-/

namespace Dialogue

/-! ## Stores -/

namespace Store

variable {names : List String} {s s' : Store}

/-- The stores hold the same under every name whose folded form is among the names; what is absent
counts as null. -/
def AgreeOn (names : List String) (s s' : Store) : Prop :=
  ∀ name, foldName name ∈ names → s'.read name = s.read name

/-- Agreement outlasts a change that is made to both stores. -/
theorem AgreeOn.set (h : s.AgreeOn names s') (name : String) (v : Value) :
    (s.set name v).AgreeOn names (s'.set name v) := by
  intro other hother
  rw [read_set, read_set, h other hother]

theorem AgreeOn.remove (h : s.AgreeOn names s') (name : String) :
    (s.remove name).AgreeOn names (s'.remove name) := by
  intro other hother
  rw [read_remove, read_remove, h other hother]

/-- Agreement on a list of folded names can be computed: a name is looked up in its folded form. -/
theorem agreeOn_of_find? (h : ∀ k ∈ names, (s'.table.find? k).getD .null =
    (s.table.find? k).getD .null) : s.AgreeOn names s' :=
  fun _ hname => h _ hname

/-- What a graph evaluates has the same outcome over stores that agree on what it mentions. -/
theorem AgreeOn.check {g : Graph} (h : s.AgreeOn g.mentioned s') {step : Step} {text : String}
    (hstep : g.Holds step) (htext : text ∈ step.evaluated) : s'.check text = s.check text :=
  check_congr fun name hname => h name (Graph.mem_mentioned hstep htext hname)

/-- The same entries are offered over stores that give the conditions the same outcome. -/
theorem offered_congr {entries : List Entry}
    (h : ∀ text ∈ entries.filterMap Entry.evaluated, s'.check text = s.check text) :
    Entry.offered s' entries = Entry.offered s entries := by
  induction entries with
  | nil => rfl
  | cons e rest ih =>
    obtain ⟨f, hf⟩ := e.isOffered_eq
    have hhead : e.isOffered s' = e.isOffered s := by
      rw [hf, hf]
      cases he : e.evaluated with
      | none => rfl
      | some text =>
        have htext := h text (List.mem_filterMap.mpr ⟨e, List.mem_cons_self, he⟩)
        simp only [htext]
    have hrest : ∀ text ∈ rest.filterMap Entry.evaluated, s'.check text = s.check text := by
      intro text htext
      obtain ⟨e', he', hevaluated⟩ := List.mem_filterMap.mp htext
      exact h text (List.mem_filterMap.mpr ⟨e', List.mem_cons_of_mem _ he', hevaluated⟩)
    rw [Entry.offered, Entry.offered, hhead, ih hrest]

end Store

/-! ## Scenes -/

/-- The scenes differ in their stores only, and these agree on the names. -/
def Scene.AlikeOn (names : List String) (s s' : Scene) : Prop :=
  ∃ vars, s.vars.AgreeOn names vars ∧ s' = { s with vars := vars }

/-- The bursts tell the same, have the same fault, and lead to alike scenes. -/
structure Burst.AlikeOn (names : List String) (b b' : Burst) : Prop where
  scene : b.scene.AlikeOn names b'.scene
  events : b'.events = b.events
  fault : b'.fault = b.fault

/-- Both turns end the call with alike bursts, or both go on from alike scenes. -/
inductive Turn.AlikeOn (names : List String) : Turn → Turn → Prop
  | onwards {s s' : Scene} (events : List Event) : s.AlikeOn names s' →
      Turn.AlikeOn names (.onwards s events) (.onwards s' events)
  | done {b b' : Burst} : b.AlikeOn names b' → Turn.AlikeOn names (.done b) (.done b')

namespace Burst

variable {names : List String} {s s' : Scene} {b b' : Burst}

theorem AlikeOn.after (h : b.AlikeOn names b') (events : List Event) :
    (b.after events).AlikeOn names (b'.after events) :=
  ⟨h.scene, congrArg (events ++ ·) h.events, h.fault⟩

/-- Alike bursts go on to alike bursts. -/
theorem AlikeOn.andThen (h : b.AlikeOn names b') {f : Scene → Burst}
    (hf : ∀ s s' : Scene, s.AlikeOn names s' → (f s).AlikeOn names (f s')) :
    (b.andThen f).AlikeOn names (b'.andThen f) := by
  obtain ⟨s, events, fault⟩ := b
  obtain ⟨s', events', fault'⟩ := b'
  obtain ⟨hscene, rfl, rfl⟩ := h
  cases fault' with
  | some e => exact ⟨hscene, rfl, rfl⟩
  | none => exact AlikeOn.after (hf _ _ hscene) events'

end Burst

namespace Scene

variable {g : Graph} {limit : UInt64} {names : List String} {s s' : Scene}

/-- A fetch looks at the cursor only. -/
theorem fetch_withVars (s : Scene) (vars : Store) :
    ({ s with vars := vars } : Scene).fetch g =
      (s.fetch g).map fun (step, index, t) => (step, index, { t with vars := vars }) := by
  rw [fetch, fetch]
  cases s.cursor with
  | none => rfl
  | some c =>
    dsimp only
    cases c.fetch g <;> rfl

theorem AlikeOn.fetch_eq_none (h : s.AlikeOn names s') (hf : s.fetch g = none) :
    s'.fetch g = none := by
  obtain ⟨vars, -, rfl⟩ := h
  rw [fetch_withVars, hf]
  rfl

theorem AlikeOn.exists_fetch (h : s.AlikeOn names s') {step : Step} {index : Nat} {t : Scene}
    (hf : s.fetch g = some (step, index, t)) :
    ∃ t', s'.fetch g = some (step, index, t') ∧ t.AlikeOn names t' := by
  obtain ⟨vars, hvars, rfl⟩ := h
  refine ⟨{ t with vars := vars }, ?_, vars, ?_, rfl⟩
  · rw [fetch_withVars, hf]
    rfl
  · rw [(fetched hf).scene]
    exact hvars

/-- A jump does not look at the variables, and a command that sets one sets it in both stores. -/
theorem AlikeOn.execute (h : s.AlikeOn names s') (c : Command) :
    (s.execute g c).AlikeOn names (s'.execute g c) := by
  obtain ⟨vars, hvars, rfl⟩ := h
  cases c with
  | set name v => exact ⟨⟨vars.set name v, hvars.set name v, rfl⟩, rfl, rfl⟩
  | jump target =>
    rw [Scene.execute, Scene.execute, jump, jump]
    cases g.get? target with
    | none => exact ⟨⟨vars, hvars, rfl⟩, rfl, rfl⟩
    | some n => exact ⟨⟨vars, hvars, rfl⟩, rfl, rfl⟩

theorem AlikeOn.executeAll (h : s.AlikeOn names s') (commands : List Command) :
    (s.executeAll g commands).AlikeOn names (s'.executeAll g commands) := by
  induction commands generalizing s s' with
  | nil => exact ⟨h, rfl, rfl⟩
  | cons c rest ih =>
    rw [Scene.executeAll, Scene.executeAll]
    exact (h.execute c).andThen fun _ _ h => ih h

theorem AlikeOn.present (h : s.AlikeOn g.mentioned s') {c : Choice} (hc : g.Holds (.choice c)) :
    (s.present c).AlikeOn g.mentioned (s'.present c) := by
  obtain ⟨vars, hvars, rfl⟩ := h
  have hoffered : Entry.offered vars c.entries = Entry.offered s.vars c.entries :=
    Store.offered_congr fun _ htext => hvars.check hc htext
  rw [Scene.present, Scene.present, hoffered]
  split
  · exact ⟨⟨vars, hvars, rfl⟩, rfl, rfl⟩
  · exact ⟨⟨vars, hvars, rfl⟩, rfl, rfl⟩
  · exact ⟨⟨vars, hvars, rfl⟩, rfl, rfl⟩

/-- **Alike scenes take a step of the graph alike.** -/
theorem AlikeOn.take (h : s.AlikeOn g.mentioned s') {step : Step} (hstep : g.Holds step)
    (index : Nat) : Turn.AlikeOn g.mentioned (s.take g step index) (s'.take g step index) := by
  cases step with
  | line text span =>
    obtain ⟨vars, hvars, rfl⟩ := h
    exact .done ⟨⟨vars, hvars, rfl⟩, rfl, rfl⟩
  | choice c => exact .done (h.present hstep)
  | command c span =>
    have hexecute := h.execute (g := g) c
    rw [Scene.take, Scene.take]
    generalize s.execute g c = b at hexecute ⊢
    generalize s'.execute g c = b' at hexecute ⊢
    obtain ⟨t, events, fault⟩ := b
    obtain ⟨t', events', fault'⟩ := b'
    obtain ⟨hscene, rfl, rfl⟩ := hexecute
    cases fault' with
    | some e => exact .done ⟨hscene, rfl, rfl⟩
    | none => exact .onwards _ hscene
  | branch condition thenSteps elseSteps span =>
    obtain ⟨vars, hvars, rfl⟩ := h
    have hcheck : vars.check condition = s.vars.check condition :=
      hvars.check hstep List.mem_cons_self
    rw [Scene.take, Scene.take, hcheck]
    cases s.vars.check condition with
    | error e => exact .done ⟨⟨vars, hvars, rfl⟩, rfl, rfl⟩
    | ok holds => exact .onwards _ ⟨vars, hvars, rfl⟩

/-- The induction goes along the rounds of the first run; the second one has the same. -/
theorem AlikeOn.advance (h : s.AlikeOn g.mentioned s') (budget : Nat) :
    (s.advance g limit budget []).AlikeOn g.mentioned (s'.advance g limit budget []) := by
  induction budget, s using advance_induction (g := g) generalizing s' with
  | ended budget s hf =>
    rw [advance_of_fetch_eq_none hf, advance_of_fetch_eq_none (h.fetch_eq_none hf)]
    obtain ⟨vars, hvars, rfl⟩ := h
    exact ⟨⟨vars, hvars, rfl⟩, rfl, rfl⟩
  | limited s t step index hf =>
    obtain ⟨t', hf', ht⟩ := h.exists_fetch hf
    rw [advance_zero hf, advance_zero hf']
    obtain ⟨vars, hvars, rfl⟩ := ht
    exact ⟨⟨vars, hvars, rfl⟩, rfl, rfl⟩
  | done budget s t step index b hf hdone =>
    obtain ⟨t', hf', ht⟩ := h.exists_fetch hf
    have hturn := ht.take (holds_of_fetch hf) index
    rw [hdone] at hturn
    cases hdone' : t'.take g step index with
    | onwards t'' events =>
      rw [hdone'] at hturn
      cases hturn
    | done b' =>
      rw [hdone'] at hturn
      cases hturn with
      | done hb =>
        rw [advance_of_done hf hdone, advance_of_done hf' hdone']
        exact hb.after _
  | onwards budget s t t₂ step index events hf honwards ih =>
    obtain ⟨t', hf', ht⟩ := h.exists_fetch hf
    have hturn := ht.take (holds_of_fetch hf) index
    rw [honwards] at hturn
    cases honwards' : t'.take g step index with
    | done b' =>
      rw [honwards'] at hturn
      cases hturn
    | onwards t'' events' =>
      rw [honwards'] at hturn
      cases hturn with
      | onwards _ hscene =>
        rw [advance_succ_of_onwards hf honwards, advance_succ_of_onwards hf' honwards']
        exact (ih hscene).after events

theorem AlikeOn.proceed (h : s.AlikeOn g.mentioned s') :
    (s.proceed g limit).AlikeOn g.mentioned (s'.proceed g limit) := by
  have hoffer : s'.offer = s.offer := by
    obtain ⟨vars, -, rfl⟩ := h
    rfl
  rw [Scene.proceed, Scene.proceed, hoffer]
  cases s.offer with
  | some o => exact ⟨h, rfl, rfl⟩
  | none => exact h.advance _

theorem AlikeOn.start (h : s.AlikeOn g.mentioned s') (name : String) :
    (s.start g limit name).AlikeOn g.mentioned (s'.start g limit name) := by
  obtain ⟨vars, hvars, rfl⟩ := h
  rw [Scene.start, Scene.start, jump, jump]
  cases g.get? name with
  | none => exact ⟨⟨vars, hvars, rfl⟩, rfl, rfl⟩
  | some n => exact AlikeOn.proceed ⟨vars, hvars, rfl⟩

theorem AlikeOn.choose (h : s.AlikeOn g.mentioned s') (index : Nat) :
    (s.choose g limit index).AlikeOn g.mentioned (s'.choose g limit index) := by
  obtain ⟨vars, hvars, rfl⟩ := h
  rw [Scene.choose, Scene.choose]
  dsimp only
  cases s.offer with
  | none => exact ⟨⟨vars, hvars, rfl⟩, rfl, rfl⟩
  | some o =>
    dsimp only
    cases o.entries[index]? with
    | none => exact ⟨⟨vars, hvars, rfl⟩, rfl, rfl⟩
    | some e =>
      refine (AlikeOn.executeAll ?_ e.commands).andThen fun _ _ h => h.proceed
      exact ⟨vars, hvars, rfl⟩

theorem AlikeOn.tick (h : s.AlikeOn g.mentioned s') (seconds : Float) :
    (s.tick g limit seconds).AlikeOn g.mentioned (s'.tick g limit seconds) := by
  obtain ⟨vars, hvars, rfl⟩ := h
  obtain ⟨own, cursor, offer, countdown, justJumped⟩ := s
  rw [Scene.tick, Scene.tick]
  cases countdown with
  | none => exact ⟨⟨vars, hvars, rfl⟩, rfl, rfl⟩
  | some before =>
    cases offer with
    | none => exact ⟨⟨vars, hvars, rfl⟩, rfl, rfl⟩
    | some o =>
      dsimp only
      split
      · -- The default option is taken in both runs, with the same events in front.
        have hchoose : (⟨own, cursor, some o, none, justJumped⟩ : Scene).AlikeOn g.mentioned
            ⟨vars, cursor, some o, none, justJumped⟩ := ⟨vars, hvars, rfl⟩
        exact (hchoose.choose _).after [.timerUpdated _, .timerExpired]
      · exact ⟨⟨vars, hvars, rfl⟩, rfl, rfl⟩

end Scene

/-! ## Runs -/

/-- The burst of an answer, the runner around its scene forgotten. -/
def Answer.burst (a : Answer) : Burst := ⟨a.runner.scene, a.events, a.fault⟩

/-- The observation of a call without the variables. -/
def Observation.withoutVars (o : Observation) : Observation := { o with vars := .empty }

theorem Burst.AlikeOn.observe {names : List String} {a a' : Answer}
    (h : a.burst.AlikeOn names a'.burst) : a'.observe.withoutVars = a.observe.withoutVars := by
  obtain ⟨⟨vars, -, hscene⟩, hevents, hfault⟩ := h
  have hrunner : a'.runner.scene = { a.runner.scene with vars := vars } := hscene
  have hold : a'.events = a.events ∧ a'.fault = a.fault := ⟨hevents, hfault⟩
  simp only [Answer.observe, Observation.withoutVars, hrunner, hold]
  rfl

namespace Runner

variable {r r' : Runner}

/-- Alike scenes answer a call alike. -/
theorem alikeOn_perform (hgraph : r'.graph = r.graph)
    (hlimit : r'.config.stepLimit = r.config.stepLimit)
    (h : r.scene.AlikeOn r.graph.mentioned r'.scene) (c : Call) :
    (r.perform c).burst.AlikeOn r.graph.mentioned (r'.perform c).burst := by
  obtain ⟨g, ⟨stepLimit, backlogLimit⟩, s, backlog, listeners⟩ := r
  obtain ⟨g', ⟨stepLimit', backlogLimit'⟩, s', backlog', listeners'⟩ := r'
  dsimp only at hgraph hlimit h
  subst hgraph hlimit
  cases c with
  | start name => exact h.start name
  | proceed => exact h.proceed
  | choose index => exact h.choose index
  | tick seconds => exact h.tick seconds
  | set name v =>
    obtain ⟨vars, hvars, rfl⟩ := h
    exact ⟨⟨vars.set name v, hvars.set name v, rfl⟩, rfl, rfl⟩
  | remove name =>
    obtain ⟨vars, hvars, rfl⟩ := h
    exact ⟨⟨vars.remove name, hvars.remove name, rfl⟩, rfl, rfl⟩
  | clear =>
    obtain ⟨vars, hvars, rfl⟩ := h
    exact ⟨⟨.empty, fun _ _ => rfl, rfl⟩, rfl, rfl⟩
  | subscribe listener => exact ⟨h, rfl, rfl⟩
  | drain => exact ⟨h, rfl, rfl⟩

/-- **Variables that no condition mentions have no influence.** Of two runners on a graph, with the
same limit of steps, let the scenes differ in their stores only, and let these hold the same values
under all names that the conditions of the graph mention; an absent value counts as null. Then
whatever calls are made to both, every one of them has the same outcome, tells the same events, and
leaves the same node, offer, countdown and mark of a jump. -/
theorem performAll_of_agreeOn {vars : Store} (hgraph : r'.graph = r.graph)
    (hlimit : r'.config.stepLimit = r.config.stepLimit)
    (hscene : r'.scene = { r.scene with vars := vars })
    (hvars : r.vars.AgreeOn r.graph.mentioned vars) (calls : List Call) :
    (r'.performAll calls).map (fun a => a.observe.withoutVars) =
      (r.performAll calls).map fun a => a.observe.withoutVars := by
  induction calls generalizing r r' vars with
  | nil => rfl
  | cons c rest ih =>
    have hcall := alikeOn_perform hgraph hlimit ⟨vars, hvars, hscene⟩ c
    obtain ⟨vars', hvars', hscene'⟩ := hcall.scene
    have hgraph' : (r'.perform c).runner.graph = (r.perform c).runner.graph := by
      rw [graph_perform, graph_perform, hgraph]
    have hlimit' :
        (r'.perform c).runner.config.stepLimit = (r.perform c).runner.config.stepLimit := by
      rw [config_perform, config_perform, hlimit]
    rw [← graph_perform r c] at hvars'
    have hrest := ih hgraph' hlimit' hscene' hvars'
    rw [performAll, performAll, List.map_cons, List.map_cons, hrest, hcall.observe]

end Runner

/-- A store that says more than the gate graph asks for. -/
def richStore : Store :=
  ((Store.empty.set "Open" (.bool true)).set "tired" .null).set "gold" (.number 7)

/-- A store that says less. -/
def poorStore : Store := Store.empty.set "open" (.bool true)

/-- The gate graph asks whether the gate is open or locked, and whether one is tired; being tired is
null in one store and absent from the other. -/
theorem Runner.performAll_of_agreeOn_gateGraph :
    richStore.AgreeOn gateGraph.mentioned poorStore ∧
      (((ofGraph gateGraph ⟨4, 8⟩).withVars poorStore).performAll [.start "Gate", .choose 0,
          .set "Tired" (.bool true), .start "gate", .tick 3, .proceed]).map
            (fun a => a.observe.withoutVars) =
        (((ofGraph gateGraph ⟨4, 8⟩).withVars richStore).performAll [.start "Gate", .choose 0,
          .set "Tired" (.bool true), .start "gate", .tick 3, .proceed]).map
            fun a => a.observe.withoutVars := by
  have hmentioned : gateGraph.mentioned = ["open", "locked", "tired"] := by decide +kernel
  have hvars : richStore.AgreeOn gateGraph.mentioned poorStore := by
    rw [hmentioned]
    exact Store.agreeOn_of_find? (by decide +kernel)
  have hgraph : ((ofGraph gateGraph ⟨4, 8⟩).withVars poorStore).graph =
      ((ofGraph gateGraph ⟨4, 8⟩).withVars richStore).graph := rfl
  exact ⟨hvars, performAll_of_agreeOn hgraph rfl rfl hvars _⟩

end Dialogue
