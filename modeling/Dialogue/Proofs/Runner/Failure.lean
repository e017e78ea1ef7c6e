import Dialogue.Proofs.Runner.Offer

/-!
# What a failing call leaves behind

A call can fail in two ways. A runner *refuses* a call that it cannot begin (`Runner.Refuses`): a
start under a name that the graph does not contain, or an option that is not on offer, be it chosen
by the host or by the countdown. A refused call moves nothing, and stops the countdown at most.

Every other call that fails *breaks off* on its way (`Burst.BreaksOff`): at a jump out of the graph,
at a condition, at a choice with nothing to offer, or at the limit of steps. This happens between
two stops, so the scene is idle at a node, and no stop has been told. What has been told is true:
the variables are those from before the call with the told changes made (`Burst.Faithful`), so each
has the value that was told of it last (`Store.get?_replay`). This holds of calls that do not fail
just the same.

Both laws are proved for the parts of a call in the order in which calls are built from them: a
command, a list of commands, an offer, the loop over the steps, and the four calls.
-/

namespace Dialogue

/-! ## Events and faults -/

/-- Whether an event is told where the dialogue stops to wait for the host. -/
def Event.isStop : Event → Bool
  | .lineReady _ | .optionsReady _ | .timerStarted _ | .dialogueEnded => true
  | .variableChanged _ _ | .timerUpdated _ | .timerExpired => false

/-- Whether a fault is the want of an option. -/
def RunFault.isOutOfRange : RunFault → Bool
  | .optionOutOfRange _ _ => true
  | .unknownNode _ | .noOptions _ | .condition _ _ | .stepLimit _ _ => false

theorem Event.untold_nil : ∀ e ∈ ([] : List Event), e.isStop = false :=
  fun _ he => absurd he List.not_mem_nil

/-- The variables after what an event tells of them. -/
def Store.hear (vars : Store) : Event → Store
  | .variableChanged name v => vars.set name v
  | _ => vars

/-- The variables after what some events tell of them, in their order. -/
def Store.replay (vars : Store) (events : List Event) : Store := events.foldl Store.hear vars

theorem Store.replay_append (vars : Store) (events more : List Event) :
    vars.replay (events ++ more) = (vars.replay events).replay more :=
  List.foldl_append

/-- The value that an event tells a variable to have. -/
def Event.told? (name : String) : Event → Option Value
  | .variableChanged other v => if foldName name = foldName other then some v else none
  | _ => none

/-- The value that the latest of some events tells a variable to have. -/
def Event.lastTold? (name : String) (events : List Event) : Option Value :=
  events.reverse.findSome? (told? name)

theorem Event.lastTold?_cons (name : String) (e : Event) (events : List Event) :
    lastTold? name (e :: events) = (lastTold? name events).or (e.told? name) := by
  rw [lastTold?, List.reverse_cons, List.findSome?_append, List.findSome?_singleton, lastTold?]

theorem Store.get?_hear (vars : Store) (e : Event) (name : String) :
    (vars.hear e).get? name = (e.told? name).or (vars.get? name) := by
  cases e with
  | variableChanged other v =>
    rw [hear, get?_set, Event.told?]
    split <;> rfl
  | _ => rfl

/-- A variable has the value that was told of it last, and the one from before if none was. -/
theorem Store.get?_replay (vars : Store) (events : List Event) (name : String) :
    (vars.replay events).get? name = (Event.lastTold? name events).or (vars.get? name) := by
  induction events generalizing vars with
  | nil => rfl
  | cons e rest ih =>
    calc (vars.replay (e :: rest)).get? name
        = (Event.lastTold? name rest).or ((vars.hear e).get? name) := ih _
      _ = (Event.lastTold? name (e :: rest)).or (vars.get? name) := by
        rw [get?_hear, ← Option.or_assoc, Event.lastTold?_cons]

/-! ## Faithful bursts -/

namespace Burst

/-- The variables after the burst are those from before with the told changes made. -/
def Faithful (vars : Store) (b : Burst) : Prop := b.scene.vars = vars.replay b.events

theorem Faithful.after {vars : Store} {events : List Event} {b : Burst}
    (h : b.Faithful (vars.replay events)) : (b.after events).Faithful vars := by
  show b.scene.vars = vars.replay (events ++ b.events)
  rw [Store.replay_append]
  exact h

theorem Faithful.andThen {vars : Store} {b : Burst} {f : Scene → Burst} (h : b.Faithful vars)
    (hf : (f b.scene).Faithful b.scene.vars) : (b.andThen f).Faithful vars := by
  rw [Burst.andThen]
  split
  · exact h
  · show (f b.scene).scene.vars = vars.replay (b.events ++ (f b.scene).events)
    rw [Store.replay_append, ← h]
    exact hf

end Burst

namespace Scene

variable {g : Graph} {limit : UInt64}

theorem faithful_execute (s : Scene) (c : Command) : (s.execute g c).Faithful s.vars := by
  cases c with
  | set name v => rfl
  | jump target =>
    rw [execute, jump]
    cases g.get? target <;> rfl

theorem faithful_executeAll (s : Scene) (commands : List Command) :
    (s.executeAll g commands).Faithful s.vars := by
  induction commands generalizing s with
  | nil => rfl
  | cons c rest ih => exact (s.faithful_execute c).andThen (ih _)

/-- An offer tells of the options and of the countdown, and of no variable. -/
theorem faithful_present (s : Scene) (c : Choice) : (s.present c).Faithful s.vars := by
  rw [present]
  split
  · rfl
  · rfl
  · show s.vars = s.vars.replay (offerEvents c _)
    rw [offerEvents]
    cases c.timeLimit <;> rfl

theorem vars_of_fetch {s s' : Scene} {step : Step} {index : Nat}
    (h : s.fetch g = some (step, index, s')) : s'.vars = s.vars := by
  rw [(fetched h).scene]

theorem faithful_of_done {s : Scene} {step : Step} {index : Nat} {b : Burst}
    (h : s.take g step index = .done b) : b.Faithful s.vars := by
  rcases take_eq_done_cases h with ⟨text, span, -, rfl⟩ | ⟨c, -, rfl⟩ |
    ⟨c, span, s', events, e, -, hexecute, rfl⟩ |
    ⟨condition, thenSteps, elseSteps, span, e, -, -, rfl⟩
  · rfl
  · exact s.faithful_present c
  · have hfaithful := s.faithful_execute (g := g) c
    rw [hexecute] at hfaithful
    exact hfaithful
  · rfl

theorem vars_of_onwards {s s' : Scene} {step : Step} {index : Nat} {events : List Event}
    (h : s.take g step index = .onwards s' events) : s'.vars = s.vars.replay events := by
  rcases take_eq_onwards_cases h with ⟨c, span, -, hexecute⟩ |
    ⟨condition, thenSteps, elseSteps, span, holds, -, -, rfl, rfl⟩
  · have hfaithful := s.faithful_execute (g := g) c
    rw [hexecute] at hfaithful
    exact hfaithful
  · rfl

/-- The loop over the steps is faithful, by induction over its rounds. -/
theorem faithful_advance (s : Scene) (budget : Nat) :
    (s.advance g limit budget []).Faithful s.vars := by
  induction budget, s using advance_induction (g := g) with
  | ended budget s hf =>
    rw [advance_of_fetch_eq_none hf]
    rfl
  | limited s s' step index hf =>
    rw [advance_zero hf]
    exact vars_of_fetch hf
  | done budget s s' step index b hf ht =>
    rw [advance_of_done hf ht, List.reverse_nil, Burst.after_nil, ← vars_of_fetch hf]
    exact faithful_of_done ht
  | onwards budget s s' s'' step index events hf ht ih =>
    rw [advance_succ_of_onwards hf ht]
    apply Burst.Faithful.after
    rw [← vars_of_fetch hf, ← vars_of_onwards ht]
    exact ih

theorem faithful_proceed (s : Scene) : (s.proceed g limit).Faithful s.vars := by
  rw [proceed]
  split
  · rfl
  · exact s.faithful_advance _

theorem faithful_start (s : Scene) (name : String) : (s.start g limit name).Faithful s.vars := by
  rw [start, jump]
  cases g.get? name with
  | none => rfl
  | some n => exact faithful_proceed _

theorem faithful_choose (s : Scene) (index : Nat) :
    (s.choose g limit index).Faithful s.vars := by
  rw [choose]
  cases s.offer with
  | none => rfl
  | some o =>
    dsimp only
    split
    · rfl
    · exact (faithful_executeAll _ _).andThen (faithful_proceed _)

/-- The events of the countdown itself, in front of those of the option, tell of no variable. -/
theorem faithful_tick (s : Scene) (seconds : Float) :
    (s.tick g limit seconds).Faithful s.vars := by
  rw [tick]
  split
  · rfl
  · split
    · rfl
    · dsimp only
      split
      · exact @faithful_choose g limit { s with countdown := none } _
      · rfl

end Scene

/-! ## Breaking off -/

namespace Burst

/-- A burst with a fault, if it has one, ends between two stops: the scene is idle at a node, and no
stop has been told. It is not for want of an option that it fails. -/
structure BreaksOff (b : Burst) : Prop where
  idle : b.fault.isSome → b.scene.Idle
  placed : b.fault.isSome → b.scene.cursor.isSome
  untold : b.fault.isSome → ∀ e ∈ b.events, e.isStop = false
  inRange : ∀ e, b.fault = some e → e.isOutOfRange = false

variable {b : Burst}

theorem breaksOff_of_fault_eq_none (h : b.fault = none) : b.BreaksOff := by
  constructor
  case inRange =>
    intro e hfault
    rw [h] at hfault
    cases hfault
  all_goals
    intro hfault
    rw [h] at hfault
    cases hfault

theorem BreaksOff.after {events : List Event} (h : b.BreaksOff)
    (hevents : ∀ e ∈ events, e.isStop = false) : (b.after events).BreaksOff := by
  refine ⟨h.idle, h.placed, fun hfault e he => ?_, h.inRange⟩
  rcases List.mem_append.mp he with he | he
  · exact hevents e he
  · exact h.untold hfault e he

/-- What comes behind a part of a call that tells of no stop may break off where the part may. -/
theorem BreaksOff.andThen {f : Scene → Burst} (h : b.BreaksOff)
    (hevents : ∀ e ∈ b.events, e.isStop = false) (hf : b.fault = none → (f b.scene).BreaksOff) :
    (b.andThen f).BreaksOff := by
  rw [Burst.andThen]
  split
  · exact h
  · next hfault => exact (hf hfault).after hevents

end Burst

namespace Scene

variable {g : Graph} {limit : UInt64} {s : Scene}

/-! ### Commands -/

theorem untold_execute (s : Scene) (c : Command) :
    ∀ e ∈ (s.execute g c).events, e.isStop = false := by
  cases c with
  | set name v =>
    intro e he
    cases List.mem_singleton.mp he
    rfl
  | jump target =>
    rw [execute, jump]
    cases g.get? target <;> exact Event.untold_nil

theorem placed_execute (hs : s.cursor.isSome) (c : Command) :
    (s.execute g c).scene.cursor.isSome := by
  cases c with
  | set name v => exact hs
  | jump target =>
    rw [execute, jump]
    cases g.get? target with
    | none => exact hs
    | some n => rfl

/-- An idle scene at a node that fails there breaks off there, whatever fails but an option. -/
theorem Idle.breaksOff_fail (hs : s.Idle) (hcursor : s.cursor.isSome) {e : RunFault}
    (he : e.isOutOfRange = false) : (Burst.fail s [] e).BreaksOff := by
  refine ⟨fun _ => hs, fun _ => hcursor, fun _ => Event.untold_nil, ?_⟩
  intro e' hfault
  cases hfault
  exact he

theorem Idle.breaksOff_execute (hs : s.Idle) (hcursor : s.cursor.isSome) (c : Command) :
    (s.execute g c).BreaksOff := by
  cases c with
  | set name v => exact Burst.breaksOff_of_fault_eq_none rfl
  | jump target =>
    rw [Scene.execute, jump]
    cases g.get? target with
    | none => exact hs.breaksOff_fail hcursor rfl
    | some n => exact Burst.breaksOff_of_fault_eq_none rfl

theorem untold_executeAll (s : Scene) (commands : List Command) :
    ∀ e ∈ (s.executeAll g commands).events, e.isStop = false := by
  induction commands generalizing s with
  | nil => exact Event.untold_nil
  | cons c rest ih =>
    rw [executeAll, Burst.andThen]
    split
    · exact untold_execute s c
    · intro e he
      rcases List.mem_append.mp he with he | he
      · exact untold_execute s c e he
      · exact ih _ e he

theorem Idle.breaksOff_executeAll (hs : s.Idle) (hcursor : s.cursor.isSome)
    (commands : List Command) : (s.executeAll g commands).BreaksOff := by
  induction commands generalizing s with
  | nil => exact Burst.breaksOff_of_fault_eq_none rfl
  | cons c rest ih =>
    rw [Scene.executeAll]
    apply (hs.breaksOff_execute hcursor c).andThen (untold_execute s c)
    intro _
    exact ih (hs.execute c) (placed_execute hcursor c)

/-! ### Steps -/

theorem Idle.breaksOff_present (hs : s.Idle) (hcursor : s.cursor.isSome) (c : Choice) :
    (s.present c).BreaksOff := by
  rw [present]
  split
  · next e hoffered =>
    obtain ⟨text, cause, rfl⟩ := Entry.fault_of_offered hoffered
    exact hs.breaksOff_fail hcursor rfl
  · exact hs.breaksOff_fail hcursor rfl
  · exact Burst.breaksOff_of_fault_eq_none rfl

theorem Idle.breaksOff_of_done {step : Step} {index : Nat} {b : Burst} (hs : s.Idle)
    (hcursor : s.cursor.isSome) (h : s.take g step index = .done b) : b.BreaksOff := by
  rcases take_eq_done_cases h with ⟨text, span, -, rfl⟩ | ⟨c, -, rfl⟩ |
    ⟨c, span, s', events, e, -, hexecute, rfl⟩ |
    ⟨condition, thenSteps, elseSteps, span, e, -, hcheck, rfl⟩
  · exact Burst.breaksOff_of_fault_eq_none rfl
  · exact hs.breaksOff_present hcursor c
  · have hbreaks := hs.breaksOff_execute (g := g) hcursor c
    rw [hexecute] at hbreaks
    exact hbreaks
  · obtain ⟨text, cause, rfl⟩ := Store.fault_of_check hcheck
    exact hs.breaksOff_fail hcursor rfl

theorem untold_of_onwards {s' : Scene} {step : Step} {index : Nat} {events : List Event}
    (h : s.take g step index = .onwards s' events) : ∀ e ∈ events, e.isStop = false := by
  rcases take_eq_onwards_cases h with ⟨c, span, -, hexecute⟩ |
    ⟨condition, thenSteps, elseSteps, span, holds, -, -, -, rfl⟩
  · have huntold := untold_execute (g := g) s c
    rw [hexecute] at huntold
    exact huntold
  · exact Event.untold_nil

/-- **The loop over the steps breaks off between two stops.** The step that was fetched last leaves
the cursor in its node, whatever the fault. -/
theorem Idle.breaksOff_advance (hs : s.Idle) (budget : Nat) :
    (s.advance g limit budget []).BreaksOff := by
  induction budget, s using advance_induction (g := g) with
  | ended budget s hf =>
    rw [advance_of_fetch_eq_none hf]
    exact Burst.breaksOff_of_fault_eq_none rfl
  | limited s s' step index hf =>
    rw [advance_zero hf]
    exact (hs.fetch hf).breaksOff_fail (cursor_of_fetch hf) rfl
  | done budget s s' step index b hf ht =>
    rw [advance_of_done hf ht]
    exact (hs.fetch hf).breaksOff_of_done (cursor_of_fetch hf) ht
  | onwards budget s s' s'' step index events hf ht ih =>
    rw [advance_succ_of_onwards hf ht]
    exact (ih ((hs.fetch hf).onwards ht).1).after (untold_of_onwards ht)

/-! ### Calls -/

theorem Idle.breaksOff_proceed (hs : s.Idle) : (s.proceed g limit).BreaksOff := by
  rw [proceed, hs.offer]
  exact hs.breaksOff_advance _

theorem breaksOff_start {name : String} (h : g.contains name = true) :
    (s.start g limit name).BreaksOff := by
  obtain ⟨n, hn⟩ := Option.isSome_iff_exists.mp h
  rw [start, jump, hn]
  exact Idle.breaksOff_proceed ⟨rfl, rfl⟩

theorem Consistent.breaksOff_proceed (hs : s.Consistent g) : (s.proceed g limit).BreaksOff := by
  cases ho : s.offer with
  | none => exact (Timed.idle_of_offer hs.timed ho).breaksOff_proceed
  | some o =>
    rw [proceed, ho]
    exact Burst.breaksOff_of_fault_eq_none rfl

/-- An option on offer is taken at the node that offers it. -/
theorem Consistent.breaksOff_choose (hs : s.Consistent g) {index : Nat}
    (h : ∀ o, s.offer = some o → index < o.entries.length) :
    (s.choose g limit index).BreaksOff := by
  rw [choose]
  cases ho : s.offer with
  | none => exact Burst.breaksOff_of_fault_eq_none rfl
  | some o =>
    simp only [List.getElem?_eq_getElem (h o ho)]
    have hidle : ({ s with offer := none, countdown := none } : Scene).Idle := ⟨rfl, rfl⟩
    have hcursor : s.cursor.isSome := by
      have hnode := hs.placed o ho
      rwa [node?, Option.isSome_map] at hnode
    apply (hidle.breaksOff_executeAll hcursor _).andThen (untold_executeAll _ _)
    intro _
    exact (hidle.executeAll _).1.breaksOff_proceed

/-! ### The end of a countdown -/

/-- What remains of a countdown after some seconds. -/
def timeLeft (before seconds : Float) : Float := atLeastZero (before - atLeastZero seconds)

/-- A tick while time is left tells what remains. -/
theorem tick_of_timeLeft {o : Offer} {before seconds : Float} (ho : s.offer = some o)
    (hbefore : s.countdown = some before) (h : ¬ timeLeft before seconds ≤ 0) :
    s.tick g limit seconds =
      .stop { s with countdown := some (timeLeft before seconds) }
        [.timerUpdated (timeLeft before seconds)] := by
  obtain ⟨vars, cursor, offer, countdown, justJumped⟩ := s
  cases ho
  cases hbefore
  exact if_neg h

/-- A tick that leaves no time takes the default option. -/
theorem tick_of_expired {o : Offer} {before seconds : Float} (ho : s.offer = some o)
    (hbefore : s.countdown = some before) (h : timeLeft before seconds ≤ 0) :
    s.tick g limit seconds =
      (s.choose g limit o.defaultOption.toNat).after
        [.timerUpdated (timeLeft before seconds), .timerExpired] := by
  obtain ⟨vars, cursor, offer, countdown, justJumped⟩ := s
  cases ho
  cases hbefore
  exact if_pos h

theorem Consistent.breaksOff_tick (hs : s.Consistent g) {seconds : Float}
    (h : ∀ o before, s.offer = some o → s.countdown = some before → timeLeft before seconds ≤ 0 →
      o.defaultOption.toNat < o.entries.length) :
    (s.tick g limit seconds).BreaksOff := by
  cases hbefore : s.countdown with
  | none =>
    rw [tick, hbefore]
    exact Burst.breaksOff_of_fault_eq_none rfl
  | some before =>
    obtain ⟨o, ho⟩ := Option.isSome_iff_exists.mp (hs.timed (Option.isSome_of_eq_some hbefore))
    by_cases hexpired : timeLeft before seconds ≤ 0
    · rw [tick_of_expired ho hbefore hexpired]
      apply Burst.BreaksOff.after
      · apply hs.breaksOff_choose
        intro o' ho'
        cases ho.symm.trans ho'
        exact h o before ho hbefore hexpired
      · intro e he
        simp only [List.mem_cons, List.not_mem_nil, or_false] at he
        rcases he with rfl | rfl <;> rfl
    · rw [tick_of_timeLeft ho hbefore hexpired]
      exact Burst.breaksOff_of_fault_eq_none rfl

/-! ### Refusals -/

/-- A start under an unknown name changes nothing and tells nothing. -/
theorem start_of_contains_eq_false {name : String} (h : g.contains name = false) :
    s.start g limit name = .fail s [] (.unknownNode name) := by
  have hn : g.get? name = none := Option.not_isSome_iff_eq_none.mp (Bool.eq_false_iff.mp h)
  rw [start, jump, hn]

/-- The choice of an option that is not on offer stops the countdown and tells nothing. -/
theorem choose_of_length_le {o : Offer} {index : Nat} (ho : s.offer = some o)
    (h : o.entries.length ≤ index) :
    s.choose g limit index =
      .fail { s with countdown := none } [] (.optionOutOfRange index o.entries.length) := by
  rw [choose]
  simp only [ho, List.getElem?_eq_none h]

end Scene

namespace Runner

/-- The calls that a runner refuses: a start under a name that is not one of the graph, the choice
of an option that is not on offer, and a tick to the end of a countdown whose default option is not
on offer. -/
def Refuses (r : Runner) : Call → Prop
  | .start name => r.graph.contains name = false
  | .choose index => ∃ o, r.scene.offer = some o ∧ o.entries.length ≤ index
  | .tick seconds => ∃ o before, r.scene.offer = some o ∧ r.scene.countdown = some before ∧
      o.entries.length ≤ o.defaultOption.toNat ∧ Scene.timeLeft before seconds ≤ 0
  | _ => False

/-- What a call that breaks off leaves behind: nothing is on offer, no countdown runs, the scene is
at a node, no stop has been told, and the variables have changed as told. -/
structure BrokenOff (r : Runner) (a : Answer) : Prop where
  offer : a.runner.scene.offer = none
  countdown : a.runner.scene.countdown = none
  placed : a.runner.scene.node?.isSome
  untold : ∀ e ∈ a.events, e.isStop = false
  vars : a.runner.vars = r.vars.replay a.events

variable {r : Runner}

/-- After a call that breaks off, a variable has the value that the call told of it last, and the
one from before if it told of none. -/
theorem BrokenOff.get?_vars {a : Answer} (h : r.BrokenOff a) (name : String) :
    a.runner.vars.get? name = (Event.lastTold? name a.events).or (r.vars.get? name) := by
  rw [h.vars, Store.get?_replay]

theorem brokenOff_take {b : Burst} {e : RunFault} (h : b.BreaksOff) (hfaithful : b.Faithful r.vars)
    (hfault : b.fault = some e) : r.BrokenOff (r.take b) := by
  have hsome : b.fault.isSome := Option.isSome_of_eq_some hfault
  constructor
  case offer => exact (h.idle hsome).offer
  case countdown => exact (h.idle hsome).countdown
  case placed =>
    show b.scene.node?.isSome
    rw [Scene.node?, Option.isSome_map]
    exact h.placed hsome
  case untold => exact h.untold hsome
  case vars => exact hfaithful

/-- **A call that is not refused breaks off**, if it fails. -/
theorem brokenOff_perform {c : Call} {e : RunFault} (hr : r.scene.Consistent r.graph)
    (hc : ¬ r.Refuses c) (h : (r.perform c).fault = some e) : r.BrokenOff (r.perform c) := by
  cases c with
  | start name =>
    have hname : r.graph.contains name = true := Bool.not_eq_false _ ▸ hc
    exact brokenOff_take (Scene.breaksOff_start hname) (r.scene.faithful_start name) h
  | proceed => exact brokenOff_take hr.breaksOff_proceed r.scene.faithful_proceed h
  | choose index =>
    refine brokenOff_take (hr.breaksOff_choose ?_) (r.scene.faithful_choose index) h
    intro o ho
    apply Nat.lt_of_not_le
    intro hle
    exact hc ⟨o, ho, hle⟩
  | tick seconds =>
    refine brokenOff_take (hr.breaksOff_tick ?_) (r.scene.faithful_tick seconds) h
    intro o before ho hbefore hexpired
    apply Nat.lt_of_not_le
    intro hle
    exact hc ⟨o, before, ho, hbefore, hle, hexpired⟩
  | set name v => cases h
  | remove name => cases h
  | clear => cases h
  | subscribe listener => cases h
  | drain => cases h

/-- **Every failing call leaves a known runner behind.** Of a runner on which any calls have been
made, a start under an unknown name changes nothing; the choice of an option that is not on offer
stops the countdown and changes nothing else; neither is told of. A tick to the end of a countdown
whose default option is not on offer tells of the tick and of the end, and stops the countdown of an
offer that stands. Every other call that fails breaks off. -/
theorem failing_leaves (g : Graph) (config : Config) (calls : List Call) :
    let r := (ofGraph g config).after calls
    (∀ name, g.contains name = false →
      r.perform (.start name) = ⟨r, [], some (.unknownNode name)⟩) ∧
    (∀ index o, r.scene.offer = some o → o.entries.length ≤ index →
      r.perform (.choose index) =
        ⟨{ r with scene := { r.scene with countdown := none } }, [],
          some (.optionOutOfRange index o.entries.length)⟩) ∧
    (∀ seconds before o, r.scene.offer = some o → r.scene.countdown = some before →
      o.entries.length ≤ o.defaultOption.toNat → Scene.timeLeft before seconds ≤ 0 →
      r.perform (.tick seconds) =
        r.take (.fail { r.scene with countdown := none }
          [.timerUpdated (Scene.timeLeft before seconds), .timerExpired]
          (.optionOutOfRange o.defaultOption.toNat o.entries.length))) ∧
    ∀ c e, (r.perform c).fault = some e → ¬ r.Refuses c → r.BrokenOff (r.perform c) := by
  intro r
  have hgraph : r.graph = g := graph_after (ofGraph g config) calls
  have hr : r.scene.Consistent r.graph :=
    hgraph ▸ consistent_run (r := ofGraph g config) (Scene.consistent_initial g) calls
  refine ⟨?_, ?_, ?_, ?_⟩
  · intro name hname
    rw [← hgraph] at hname
    show r.take (r.scene.start r.graph r.config.stepLimit name) = _
    rw [Scene.start_of_contains_eq_false hname]
    rfl
  · intro index o ho hindex
    show r.take (r.scene.choose r.graph r.config.stepLimit index) = _
    rw [Scene.choose_of_length_le ho hindex]
    rfl
  · intro seconds before o ho hbefore hdefault hexpired
    show r.take (r.scene.tick r.graph r.config.stepLimit seconds) = _
    rw [Scene.tick_of_expired ho hbefore hexpired, Scene.choose_of_length_le ho hdefault]
    rfl
  · intro c e hfault hc
    exact brokenOff_perform hr hc hfault

end Runner

/-- A hatch whose first option leads out of the graph, and whose countdown takes an option that is
not there. -/
def hatchGraph : Graph :=
  Graph.empty.insert ⟨"Hatch", [
    .choice ⟨[⟨"Open", none, [.set "lit" (.bool true), .jump "Cellar"], ⟨3, 1, 8⟩⟩,
      ⟨"Wait", none, [], ⟨6, 1, 7⟩⟩], some 3, 7, ⟨3, 1, 8⟩⟩], ⟨1, 1, 12⟩⟩

theorem Runner.failing_leaves_hatchGraph :
    let r := (ofGraph hatchGraph .usual).after [.start "hatch"]
    (hatchGraph.contains "Cellar" = false ∧
      r.perform (.start "Cellar") = ⟨r, [], some (.unknownNode "Cellar")⟩) ∧
    (∃ o, r.scene.offer = some o ∧ o.entries.length = 2 ∧
      r.perform (.choose 2) = ⟨{ r with scene := { r.scene with countdown := none } }, [],
        some (.optionOutOfRange 2 2)⟩) ∧
    (r.scene.countdown = some 3 ∧
      r.perform (.tick 4) =
        r.take (.fail { r.scene with countdown := none }
          [.timerUpdated (Scene.timeLeft 3 4), .timerExpired] (.optionOutOfRange 7 2))) ∧
    (r.perform (.choose 0)).fault = some (.unknownNode "Cellar") ∧
      (r.perform (.choose 0)).events = [.variableChanged "lit" (.bool true)] ∧
      r.BrokenOff (r.perform (.choose 0)) := by
  intro r
  obtain ⟨hstart, hchoose, htick, hbroken⟩ := failing_leaves hatchGraph .usual [.start "hatch"]
  have hname : hatchGraph.contains "Cellar" = false := by decide +kernel
  obtain ⟨o, ho⟩ : ∃ o, r.scene.offer = some o :=
    Option.isSome_iff_exists.mp (by decide +kernel)
  have hentries : r.scene.offer.map (·.entries.length) = some 2 := by decide +kernel
  have hdefault : r.scene.offer.map (·.defaultOption) = some 7 := by decide +kernel
  have hcountdown : r.scene.countdown = some 3 := by decide +kernel
  have hfault : (r.perform (.choose 0)).fault = some (.unknownNode "Cellar") := by decide +kernel
  have hevents : (r.perform (.choose 0)).events = [.variableChanged "lit" (.bool true)] := by
    decide +kernel
  rw [ho] at hentries hdefault
  have hlength : o.entries.length = 2 := Option.some.inj hentries
  have hseven : o.defaultOption = 7 := Option.some.inj hdefault
  refine ⟨⟨hname, hstart _ hname⟩, ⟨o, ho, hlength, ?_⟩, ⟨hcountdown, ?_⟩, hfault, hevents, ?_⟩
  · have htwo := hchoose 2 o ho (Nat.le_of_eq hlength)
    rwa [hlength] at htwo
  · have hlate := htick 4 3 o ho hcountdown (by rw [hlength, hseven]; decide) (by decide +kernel)
    rwa [hlength, hseven] at hlate
  · apply hbroken _ _ hfault
    rintro ⟨o', ho', hle⟩
    cases ho.symm.trans ho'
    rw [hlength] at hle
    exact absurd hle (by decide)

end Dialogue
