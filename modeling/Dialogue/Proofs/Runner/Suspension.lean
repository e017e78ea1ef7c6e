import Dialogue.Proofs.Runner.Failure

/-!
# One stop for each call

A call that moves the dialogue on tells one burst of events: any number of changes of variables, and
then the one stop at which it comes to rest. The stop is a line, the end of the dialogue, or an
offer with or without a countdown (`Event.Ends`). A call that fails tells no stop.

The events and the scene that a call leaves belong together. `Scene.StopsWith` says which scenes go
with which stops, and `Burst.Suspends` that a burst ends in this way. It is proved for one step
(`suspends_of_done`) and from it for the loop over the steps, where every round that goes on puts
changes in front (`Suspends.after`). What the entry of a choice runs first is known without running
it (`Command.changes`).
-/

namespace Dialogue

/-! ## Changes -/

/-- Whether an event tells of a changed variable. -/
def Event.isChange : Event → Bool
  | .variableChanged _ _ => true
  | _ => false

namespace Command

/-- What a command tells. -/
def change? : Command → Option Event
  | .set name v => some (.variableChanged name v)
  | .jump _ => none

/-- Whether a command cannot be run: it jumps to a node that is not there. -/
def fails (g : Graph) : Command → Bool
  | .jump target => !g.contains target
  | .set _ _ => false

/-- What commands tell, run one after the other up to the first that fails. -/
def changes (g : Graph) (commands : List Command) : List Event :=
  (commands.takeWhile fun c => !c.fails g).filterMap change?

variable {g : Graph} {c : Command} {rest : List Command}

theorem changes_of_fails (h : c.fails g = true) : changes g (c :: rest) = [] := by
  rw [changes, List.takeWhile_cons_of_neg (by simp [h])]
  rfl

theorem changes_cons (h : c.fails g = false) :
    changes g (c :: rest) = c.change?.toList ++ changes g rest := by
  rw [changes, List.takeWhile_cons_of_pos (by simp [h]), List.filterMap_cons]
  cases c <;> rfl

theorem isChange_of_mem_changes {commands : List Command} :
    ∀ e ∈ changes g commands, e.isChange = true := by
  intro e he
  obtain ⟨c, -, hc⟩ := List.mem_filterMap.mp he
  cases c with
  | set name v =>
    cases hc
    rfl
  | jump target => cases hc

end Command

/-! ## Stops -/

/-- The stop with which a call ends, if it does not fail. -/
inductive Event.Ends : Option RunFault → List Event → Prop
  | line (text : String) : Ends none [.lineReady text]
  | ended : Ends none [.dialogueEnded]
  | options (labels : List String) : Ends none [.optionsReady labels]
  | timed (labels : List String) (seconds : Float) :
      Ends none [.optionsReady labels, .timerStarted seconds]
  | failed (e : RunFault) : Ends (some e) []

/-- What a call leaves that ends with a stop or with a fault. -/
inductive Scene.StopsWith (s : Scene) : Option RunFault → List Event → Prop
  | line (text : String) : s.offer = none → s.cursor.isSome → StopsWith s none [.lineReady text]
  | ended : s.offer = none → s.cursor = none → StopsWith s none [.dialogueEnded]
  | offering : s.offer.isSome → s.cursor.isSome →
      StopsWith s none (.optionsReady s.options :: s.countdown.toList.map .timerStarted)
  | failed (e : RunFault) : s.offer = none → s.cursor.isSome → StopsWith s (some e) []

theorem Scene.StopsWith.ends {s : Scene} {fault : Option RunFault} {stop : List Event}
    (h : s.StopsWith fault stop) : Event.Ends fault stop := by
  cases h with
  | line text _ _ => exact .line text
  | ended _ _ => exact .ended
  | offering _ _ =>
    cases s.countdown with
    | none => exact .options _
    | some seconds => exact .timed _ seconds
  | failed e _ _ => exact .failed e

/-! ## Bursts -/

namespace Burst

/-- The burst tells changes and then its stop, which fits its scene. -/
def Suspends (b : Burst) : Prop :=
  ∃ changes stop, b.events = changes ++ stop ∧ (∀ e ∈ changes, e.isChange = true) ∧
    b.scene.StopsWith b.fault stop

theorem suspends_of_stopsWith {b : Burst} (h : b.scene.StopsWith b.fault b.events) : b.Suspends :=
  ⟨[], b.events, rfl, fun _ he => absurd he List.not_mem_nil, h⟩

/-- More changes in front are changes. -/
theorem Suspends.after {b : Burst} {events : List Event} (h : b.Suspends)
    (hevents : ∀ e ∈ events, e.isChange = true) : (b.after events).Suspends := by
  obtain ⟨changes, stop, hb, hchanges, hstop⟩ := h
  refine ⟨events ++ changes, stop, ?_, ?_, hstop⟩
  · show events ++ b.events = events ++ changes ++ stop
    rw [hb, List.append_assoc]
  · intro e he
    rcases List.mem_append.mp he with he | he
    · exact hevents e he
    · exact hchanges e he

end Burst

namespace Scene

variable {g : Graph} {limit : UInt64} {s : Scene}

/-! ### Commands -/

theorem events_execute (s : Scene) (c : Command) : (s.execute g c).events = c.change?.toList := by
  cases c with
  | set name v => rfl
  | jump target =>
    rw [execute, jump]
    cases g.get? target <;> rfl

theorem isSome_fault_execute (s : Scene) (c : Command) :
    (s.execute g c).fault.isSome = c.fails g := by
  cases c with
  | set name v => rfl
  | jump target =>
    rw [execute, jump, Command.fails, Graph.contains]
    cases g.get? target <;> rfl

theorem isChange_of_mem_execute {c : Command} :
    ∀ e ∈ (s.execute g c).events, e.isChange = true := by
  intro e he
  rw [events_execute] at he
  cases c with
  | set name v =>
    cases List.mem_singleton.mp he
    rfl
  | jump target => cases he

/-- A command that fails tells nothing. -/
theorem events_execute_of_fails {c : Command} (h : c.fails g = true) :
    (s.execute g c).events = [] := by
  rw [events_execute]
  cases c with
  | set name v => cases h
  | jump target => rfl

theorem executeAll_of_fails {c : Command} (h : c.fails g = true) (rest : List Command) :
    s.executeAll g (c :: rest) = s.execute g c := by
  have hfault := isSome_fault_execute (g := g) s c
  rw [h] at hfault
  obtain ⟨e, he⟩ := Option.isSome_iff_exists.mp hfault
  rw [executeAll, Burst.andThen, he]

theorem executeAll_of_runs {c : Command} (h : c.fails g = false) (rest : List Command) :
    s.executeAll g (c :: rest) =
      ((s.execute g c).scene.executeAll g rest).after (s.execute g c).events := by
  have hfault := isSome_fault_execute (g := g) s c
  rw [h, Option.isSome_eq_false_iff, Option.isNone_iff_eq_none] at hfault
  rw [executeAll, Burst.andThen, hfault]
  rfl

/-- **Commands tell of their changes up to the first that fails**, and they fail if one of them
does. -/
theorem executeAll_tells (s : Scene) (commands : List Command) :
    (s.executeAll g commands).events = Command.changes g commands ∧
      (s.executeAll g commands).fault.isSome = commands.any (Command.fails g) := by
  induction commands generalizing s with
  | nil => exact ⟨rfl, rfl⟩
  | cons c rest ih =>
    cases hc : c.fails g with
    | true =>
      rw [executeAll_of_fails hc, Command.changes_of_fails hc, List.any_cons, hc, Bool.true_or,
        isSome_fault_execute, hc]
      exact ⟨events_execute_of_fails hc, rfl⟩
    | false =>
      obtain ⟨hevents, hfault⟩ := ih (s.execute g c).scene
      rw [executeAll_of_runs hc, Command.changes_cons hc, List.any_cons, hc, Bool.false_or]
      refine ⟨?_, hfault⟩
      show (s.execute g c).events ++ _ = _
      rw [events_execute, hevents]

theorem placed_executeAll (hs : s.cursor.isSome) (commands : List Command) :
    (s.executeAll g commands).scene.cursor.isSome := by
  induction commands generalizing s with
  | nil => exact hs
  | cons c rest ih =>
    have hc : (s.execute g c).scene.cursor.isSome := placed_execute hs c
    rw [executeAll, Burst.andThen]
    split
    · exact hc
    · exact ih hc

theorem offer_executeAll (s : Scene) (commands : List Command) :
    (s.executeAll g commands).scene.offer = s.offer := by
  induction commands generalizing s with
  | nil => rfl
  | cons c rest ih =>
    rw [executeAll, Burst.andThen]
    split
    · exact offer_execute s c
    · exact (ih _).trans (offer_execute s c)

/-! ### Steps -/

theorem suspends_present (ho : s.offer = none) (hcursor : s.cursor.isSome) (c : Choice) :
    (s.present c).Suspends := by
  apply Burst.suspends_of_stopsWith
  rw [present]
  split
  · exact .failed _ ho hcursor
  · exact .failed _ ho hcursor
  · next entries _ _ =>
    have hevents : offerEvents c entries =
        .optionsReady (s.withOffer c entries).options ::
          (s.withOffer c entries).countdown.toList.map .timerStarted := by
      rw [offerEvents]
      show _ :: _ = _ :: c.timeLimit.toList.map _
      cases c.timeLimit <;> rfl
    have hstop : (s.withOffer c entries).StopsWith none _ := .offering rfl hcursor
    rw [← hevents] at hstop
    exact hstop

/-- A step that ends the call is its stop. -/
theorem suspends_of_done {step : Step} {index : Nat} {b : Burst} (ho : s.offer = none)
    (hcursor : s.cursor.isSome) (h : s.take g step index = .done b) : b.Suspends := by
  rcases take_eq_done_cases h with ⟨text, span, -, rfl⟩ | ⟨c, -, rfl⟩ |
    ⟨c, span, s', events, e, -, hexecute, rfl⟩ |
    ⟨condition, thenSteps, elseSteps, span, e, -, -, rfl⟩
  · exact Burst.suspends_of_stopsWith (.line text ho hcursor)
  · exact suspends_present ho hcursor c
  · have hoffer := offer_execute (g := g) s c
    have hplaced := placed_execute (g := g) hcursor c
    have hchanges := isChange_of_mem_execute (g := g) (s := s) (c := c)
    rw [hexecute] at hoffer hplaced hchanges
    exact ⟨events, [], (List.append_nil events).symm, hchanges, .failed e (hoffer.trans ho) hplaced⟩
  · exact Burst.suspends_of_stopsWith (.failed e ho hcursor)

theorem isChange_of_onwards {s' : Scene} {step : Step} {index : Nat} {events : List Event}
    (h : s.take g step index = .onwards s' events) : ∀ e ∈ events, e.isChange = true := by
  rcases take_eq_onwards_cases h with ⟨c, span, -, hexecute⟩ |
    ⟨condition, thenSteps, elseSteps, span, holds, -, -, -, rfl⟩
  · have hchanges := isChange_of_mem_execute (g := g) (s := s) (c := c)
    rw [hexecute] at hchanges
    exact hchanges
  · exact fun _ he => absurd he List.not_mem_nil

/-- **The loop over the steps ends with one stop**, however many rounds it takes. -/
theorem suspends_advance (ho : s.offer = none) (budget : Nat) :
    (s.advance g limit budget []).Suspends := by
  induction budget, s using advance_induction (g := g) with
  | ended budget s hf =>
    rw [advance_of_fetch_eq_none hf]
    exact Burst.suspends_of_stopsWith (.ended ho rfl)
  | limited s s' step index hf =>
    rw [advance_zero hf]
    exact Burst.suspends_of_stopsWith
      (.failed _ ((offer_of_fetch hf).trans ho) (cursor_of_fetch hf))
  | done budget s s' step index b hf ht =>
    rw [advance_of_done hf ht]
    exact suspends_of_done ((offer_of_fetch hf).trans ho) (cursor_of_fetch hf) ht
  | onwards budget s s' s'' step index events hf ht ih =>
    have hnext : s''.offer = none := (offer_of_onwards ht).trans ((offer_of_fetch hf).trans ho)
    rw [advance_succ_of_onwards hf ht]
    exact (ih hnext).after (isChange_of_onwards ht)

/-! ### Calls -/

theorem suspends_proceed (ho : s.offer = none) : (s.proceed g limit).Suspends := by
  rw [proceed, ho]
  exact suspends_advance ho _

/-- An option is taken by running its commands and going on, without the offer and its countdown. -/
theorem choose_of_offer {o : Offer} {index : Nat} {e : Entry} (ho : s.offer = some o)
    (he : o.entries[index]? = some e) :
    s.choose g limit index =
      (({ s with offer := none, countdown := none } : Scene).executeAll g e.commands).andThen
        fun s => s.proceed g limit := by
  rw [choose]
  simp only [ho, he]

/-- An option that is taken tells what its commands change, and then its burst goes on as any other.
If a command fails, the burst is over with it. -/
theorem choose_suspends {o : Offer} {index : Nat} {e : Entry} (hcursor : s.cursor.isSome)
    (ho : s.offer = some o) (he : o.entries[index]? = some e) :
    ∃ b : Burst, s.choose g limit index = b.after (Command.changes g e.commands) ∧ b.Suspends ∧
      (e.commands.any (Command.fails g) = true → b.events = [] ∧ b.fault.isSome) := by
  obtain ⟨hevents, hfails⟩ :=
    executeAll_tells (g := g) ({ s with offer := none, countdown := none } : Scene) e.commands
  have hplaced := placed_executeAll (g := g)
    (s := { s with offer := none, countdown := none }) hcursor e.commands
  have hoffer := offer_executeAll (g := g)
    ({ s with offer := none, countdown := none } : Scene) e.commands
  rw [choose_of_offer ho he]
  generalize ({ s with offer := none, countdown := none } : Scene).executeAll g e.commands = run
    at hevents hfails hplaced hoffer
  obtain ⟨s', events, fault⟩ := run
  obtain rfl : events = Command.changes g e.commands := hevents
  cases fault with
  | some f =>
    refine ⟨.fail s' [] f, ?_,
      Burst.suspends_of_stopsWith (.failed f hoffer hplaced), fun _ => ⟨rfl, rfl⟩⟩
    rw [Burst.after_fail, List.append_nil]
    rfl
  | none =>
    refine ⟨s'.proceed g limit, rfl, suspends_proceed hoffer, fun hany => ?_⟩
    rw [hany] at hfails
    cases hfails

end Scene

/-! ## Answers -/

/-- The answer to a call that moves the dialogue on. It tells changes, the first of which are given,
and then the one stop of the call, or none if it fails. The scene after it is that of the stop: it
has an offer exactly when an offer has been told, with the same labels, and it is at no node exactly
when the end has been told. -/
structure Answer.StopsOnce (a : Answer) (first : List Event) : Prop where
  burst : ∃ changes stop, a.events = first ++ changes ++ stop ∧
    (∀ e ∈ first ++ changes, e.isChange = true) ∧ Event.Ends a.fault stop
  offering : ∀ labels, .optionsReady labels ∈ a.events ↔
    a.runner.scene.offer.isSome ∧ a.runner.scene.options = labels
  ended : .dialogueEnded ∈ a.events ↔ a.runner.scene.node? = none

namespace Runner

variable {r : Runner}

/-- The events of a burst tell of an offer or of the end exactly when its scene is that of the
stop. -/
theorem stopsOnce_take {b : Burst} {first : List Event} (h : b.Suspends)
    (hfirst : ∀ e ∈ first, e.isChange = true) : (r.take (b.after first)).StopsOnce first := by
  obtain ⟨changes, stop, hb, hchanges, hstop⟩ := h
  have hfront : ∀ e ∈ first ++ changes, e.isChange = true := by
    intro e he
    rcases List.mem_append.mp he with he | he
    · exact hfirst e he
    · exact hchanges e he
  have hevents : (r.take (b.after first)).events = first ++ changes ++ stop := by
    show first ++ b.events = _
    rw [hb, List.append_assoc]
  -- What is no change is told in the stop or not at all.
  have hmem : ∀ e : Event, e.isChange = false →
      (e ∈ (r.take (b.after first)).events ↔ e ∈ stop) := by
    intro e he
    rw [hevents, List.mem_append, or_iff_right]
    intro hmem
    rw [hfront e hmem] at he
    cases he
  refine ⟨⟨changes, stop, hevents, hfront, hstop.ends⟩, fun labels => ?_, ?_⟩
  · rw [hmem _ rfl]
    show _ ↔ b.scene.offer.isSome ∧ b.scene.options = labels
    generalize hfault : b.fault = fault at hstop
    cases hstop with
    | line text ho hcursor => simp [ho]
    | ended ho hcursor => simp [ho]
    | offering ho hcursor => cases b.scene.countdown <;> simp [ho, eq_comm]
    | failed e ho hcursor => simp [ho]
  · rw [hmem _ rfl]
    show _ ↔ b.scene.cursor.map Cursor.node = none
    rw [Option.map_eq_none_iff]
    generalize hfault : b.fault = fault at hstop
    cases hstop with
    | line text ho hcursor => simp [Option.isSome_iff_ne_none.mp hcursor]
    | ended ho hcursor => simp [hcursor]
    | offering ho hcursor =>
      cases b.scene.countdown <;> simp [Option.isSome_iff_ne_none.mp hcursor]
    | failed e ho hcursor => simp [Option.isSome_iff_ne_none.mp hcursor]

theorem stopsOnce_proceed (ho : r.scene.offer = none) : (r.perform .proceed).StopsOnce [] :=
  stopsOnce_take (Scene.suspends_proceed ho) fun _ he => absurd he List.not_mem_nil

/-- **Each call that moves the dialogue on tells one burst and comes to one stop.** Of a runner on
which any calls have been made: while an offer stands, going on changes and tells nothing; without
an offer, going on stops once; and the choice of an option on offer stops once, its first changes
being those of the commands of the option up to one that fails, with which the call fails. -/
theorem stopsOnce_after (g : Graph) (config : Config) (calls : List Call) :
    let r := (ofGraph g config).after calls
    (r.scene.offer.isSome → r.perform .proceed = ⟨r, [], none⟩) ∧
    (r.scene.offer = none → (r.perform .proceed).StopsOnce []) ∧
    ∀ o index e, r.scene.offer = some o → o.entries[index]? = some e →
      (r.perform (.choose index)).StopsOnce (Command.changes g e.commands) ∧
      (e.commands.any (Command.fails g) = true →
        (r.perform (.choose index)).events = Command.changes g e.commands ∧
        (r.perform (.choose index)).fault.isSome) := by
  intro r
  have hgraph : r.graph = g := graph_after (ofGraph g config) calls
  have hr : r.scene.Consistent r.graph :=
    hgraph ▸ consistent_run (r := ofGraph g config) (Scene.consistent_initial g) calls
  refine ⟨?_, stopsOnce_proceed, ?_⟩
  · intro hoffer
    obtain ⟨o, ho⟩ := Option.isSome_iff_exists.mp hoffer
    show r.take (r.scene.proceed r.graph r.config.stepLimit) = _
    rw [Scene.proceed, ho]
    rfl
  · intro o index e ho he
    have hcursor : r.scene.cursor.isSome := by
      have hnode := hr.placed o ho
      rwa [Scene.node?, Option.isSome_map] at hnode
    obtain ⟨b, hchoose, hb, hfails⟩ :=
      @Scene.choose_suspends r.graph r.config.stepLimit r.scene o index e hcursor ho he
    have hperform : r.perform (.choose index) =
        r.take (b.after (Command.changes r.graph e.commands)) := by
      rw [← hchoose]
      rfl
    rw [← hgraph, hperform]
    refine ⟨stopsOnce_take hb Command.isChange_of_mem_changes, fun hany => ?_⟩
    obtain ⟨hevents, hfault⟩ := hfails hany
    refine ⟨?_, hfault⟩
    show _ ++ b.events = _
    rw [hevents, List.append_nil]

end Runner

/-- A ferry whose first option leads on, and whose second one leads out of the graph behind a
change. -/
def ferryGraph : Graph :=
  Graph.empty.insert ⟨"Ferry", [
    .choice ⟨[⟨"Pay", none, [.set "gold" (.number 3), .jump "Shore", .set "paid" (.bool true)],
        ⟨3, 1, 6⟩⟩,
      ⟨"Swim", none, [.set "wet" (.bool true), .jump "Deep", .set "cold" (.bool true)], ⟨7, 1, 7⟩⟩],
      some 9, 0, ⟨3, 1, 6⟩⟩], ⟨1, 1, 12⟩⟩
  |>.insert ⟨"Shore", [.command (.set "dry" (.bool true)) ⟨14, 1, 20⟩, .line "Land!" ⟨15, 1, 5⟩],
    ⟨12, 1, 12⟩⟩

theorem Runner.stopsOnce_after_ferryGraph :
    let r := (ofGraph ferryGraph .usual).after [.start "ferry"]
    (r.scene.offer.isSome ∧ r.perform .proceed = ⟨r, [], none⟩) ∧
    ((r.perform (.choose 0)).StopsOnce
        [.variableChanged "gold" (.number 3), .variableChanged "paid" (.bool true)] ∧
      (r.perform (.choose 0)).events =
        [.variableChanged "gold" (.number 3), .variableChanged "paid" (.bool true),
          .variableChanged "dry" (.bool true), .lineReady "Land!"]) ∧
    ((r.perform (.choose 1)).StopsOnce [.variableChanged "wet" (.bool true)] ∧
      (r.perform (.choose 1)).events = [.variableChanged "wet" (.bool true)] ∧
      (r.perform (.choose 1)).fault.isSome) ∧
    ((ofGraph ferryGraph .usual).scene.offer = none ∧
      ((ofGraph ferryGraph .usual).perform .proceed).StopsOnce []) := by
  intro r
  obtain ⟨hwait, -, hchoose⟩ := stopsOnce_after ferryGraph .usual [.start "ferry"]
  obtain ⟨-, hproceed, -⟩ := stopsOnce_after ferryGraph .usual []
  have hoffer : r.scene.offer.isSome := by decide +kernel
  obtain ⟨o, ho⟩ := Option.isSome_iff_exists.mp hoffer
  have hfirst : r.scene.offer.bind (·.entries[0]?) =
      some ⟨"Pay", none, [.set "gold" (.number 3), .jump "Shore", .set "paid" (.bool true)],
        ⟨3, 1, 6⟩⟩ := by
    decide +kernel
  have hsecond : r.scene.offer.bind (·.entries[1]?) =
      some ⟨"Swim", none, [.set "wet" (.bool true), .jump "Deep", .set "cold" (.bool true)],
        ⟨7, 1, 7⟩⟩ := by
    decide +kernel
  rw [ho] at hfirst hsecond
  obtain ⟨hpay, -⟩ := hchoose o 0 _ ho hfirst
  obtain ⟨hswim, hfails⟩ := hchoose o 1 _ ho hsecond
  obtain ⟨hevents, hfault⟩ := hfails (by decide +kernel)
  have htold : (r.perform (.choose 0)).events =
      [.variableChanged "gold" (.number 3), .variableChanged "paid" (.bool true),
        .variableChanged "dry" (.bool true), .lineReady "Land!"] := by decide +kernel
  refine ⟨⟨hoffer, hwait hoffer⟩, ⟨?_, htold⟩, ⟨?_, ?_, hfault⟩, rfl, hproceed rfl⟩
  · have hchanges : Command.changes ferryGraph
        [.set "gold" (.number 3), .jump "Shore", .set "paid" (.bool true)] =
        [.variableChanged "gold" (.number 3), .variableChanged "paid" (.bool true)] := by
      decide +kernel
    rwa [hchanges] at hpay
  · have hchanges : Command.changes ferryGraph
        [.set "wet" (.bool true), .jump "Deep", .set "cold" (.bool true)] =
        [.variableChanged "wet" (.bool true)] := by decide +kernel
    rwa [hchanges] at hswim
  · rw [hevents]
    decide +kernel

end Dialogue
