import Dialogue.Proofs.Graph.WellKeyed
import Dialogue.Proofs.Graph.Within
import Dialogue.Proofs.Outcome
import Dialogue.Proofs.Runner.Turn
import Dialogue.Runner.Call

/-!
# What a call can do

The offer, its countdown and the cursor of a scene are written in different orders by different
calls, with faults in between. Here it is said once what comes out of it.

A scene is *idle* when nothing is on offer and no countdown runs. From an idle scene the dialogue
goes on until it comes to rest (`AtRest`): either idle again, or with a choice of the graph newly on
offer. A call leaves all three fields alone, or stops the countdown, or lets it run, or brings the
dialogue to rest; a `Reply` is the list of these cases, with the events that go with each, and
`reply_perform` says that every call gives one. Invariants of runs are proved case by case over
`Reply`, and do not look into the calls again.
-/

namespace Dialogue

/-- Whether an event is about a countdown. -/
def Event.isTimer : Event → Bool
  | .timerStarted _ => true
  | .timerUpdated _ => true
  | .timerExpired => true
  | _ => false

/-- None of the events is about a countdown. -/
def Event.Quiet (events : List Event) : Prop := ∀ e ∈ events, e.isTimer = false

theorem Event.Quiet.nil : Event.Quiet [] := fun _ he => absurd he List.not_mem_nil

theorem Event.Quiet.append {events more : List Event} (h : Event.Quiet events)
    (h' : Event.Quiet more) : Event.Quiet (events ++ more) := by
  intro e he
  rcases List.mem_append.mp he with he | he
  · exact h e he
  · exact h' e he

/-! ## Offered entries -/

/-- The entries on offer are entries of the choice, in their order. -/
theorem Entry.offered_sublist {vars : Store} {entries shown : List Entry}
    (h : Entry.offered vars entries = .ok shown) : shown.Sublist entries := by
  induction entries generalizing shown with
  | nil =>
    cases h
    exact .slnil
  | cons e rest ih =>
    rw [offered] at h
    split at h
    · cases h
    · next b _ =>
      obtain ⟨more, hmore, rfl⟩ := Outcome.map_eq_ok_iff.mp h
      cases b with
      | true => exact (ih hmore).cons_cons e
      | false => exact (ih hmore).cons e

namespace Scene

variable {g : Graph} {limit : UInt64}

/-! ## Idle scenes -/

/-- Nothing is on offer and no countdown runs. -/
structure Idle (s : Scene) : Prop where
  offer : s.offer = none
  countdown : s.countdown = none

theorem Idle.fetch {s s' : Scene} {step : Step} {index : Nat} (hs : s.Idle)
    (h : s.fetch g = some (step, index, s')) : s'.Idle := by
  rw [(fetched h).scene]
  exact ⟨hs.offer, hs.countdown⟩

theorem cursor_of_fetch {s s' : Scene} {step : Step} {index : Nat}
    (h : s.fetch g = some (step, index, s')) : s'.cursor.isSome := by
  obtain ⟨c, n, frames, -, -, -, rfl⟩ := exists_frames_of_fetch h
  rfl

theorem Idle.execute {s : Scene} (hs : s.Idle) (c : Command) : (s.execute g c).scene.Idle := by
  cases c with
  | set name v => exact ⟨hs.offer, hs.countdown⟩
  | jump target =>
    rw [Scene.execute, jump]
    cases g.get? target with
    | none => exact hs
    | some n => exact ⟨hs.offer, hs.countdown⟩

theorem quiet_execute (s : Scene) (c : Command) : Event.Quiet (s.execute g c).events := by
  cases c with
  | set name v =>
    intro e he
    cases List.mem_singleton.mp he
    rfl
  | jump target =>
    rw [execute, jump]
    cases g.get? target <;> exact .nil

/-- Whatever commands do, they make no offer and say nothing of countdowns. -/
theorem Idle.executeAll {s : Scene} (hs : s.Idle) (commands : List Command) :
    (s.executeAll g commands).scene.Idle ∧ Event.Quiet (s.executeAll g commands).events := by
  induction commands generalizing s with
  | nil => exact ⟨hs, .nil⟩
  | cons c rest ih =>
    have hidle : (s.execute g c).scene.Idle := hs.execute c
    have hquiet : Event.Quiet (s.execute g c).events := quiet_execute s c
    rw [Scene.executeAll, Burst.andThen]
    split
    · exact ⟨hidle, hquiet⟩
    · obtain ⟨hrest, hmore⟩ := ih hidle
      exact ⟨hrest, hquiet.append hmore⟩

/-! ## Coming to rest -/

/-- A scene in which the dialogue has come to rest, and the events on the way there: nothing is on
offer, or a choice of the graph has just been put on offer. -/
inductive AtRest (g : Graph) : Scene → List Event → Prop
  | idle {s : Scene} {events : List Event} : s.Idle → Event.Quiet events → AtRest g s events
  | offering {s : Scene} {c : Choice} {entries : List Entry} {events : List Event} :
      s.Idle → s.cursor.isSome → g.Holds (.choice c) → entries ≠ [] → entries.Sublist c.entries →
      Event.Quiet events → AtRest g (s.withOffer c entries) (events ++ offerEvents c entries)

theorem AtRest.after {s : Scene} {events more : List Event} (h : AtRest g s more)
    (hquiet : Event.Quiet events) : AtRest g s (events ++ more) := by
  cases h with
  | idle hs hmore => exact .idle hs (hquiet.append hmore)
  | offering hs hcursor hc hne hsub hmore =>
    rw [← List.append_assoc]
    exact .offering hs hcursor hc hne hsub (hquiet.append hmore)

theorem atRest_present {s : Scene} {c : Choice} (hs : s.Idle) (hcursor : s.cursor.isSome)
    (hc : g.Holds (.choice c)) : AtRest g (s.present c).scene (s.present c).events := by
  rw [present]
  split
  · exact .idle hs .nil
  · exact .idle hs .nil
  · next entries hne hoffered =>
    rw [Burst.stop, ← List.nil_append (offerEvents c entries)]
    exact .offering hs hcursor hc hne (Entry.offered_sublist hoffered) .nil

/-- A step that ends the call brings the dialogue to rest. -/
theorem atRest_of_done {s s' : Scene} {step : Step} {index : Nat} {b : Burst} (hs : s'.Idle)
    (hf : s.fetch g = some (step, index, s')) (h : s'.take g step index = .done b) :
    AtRest g b.scene b.events := by
  rcases take_eq_done_cases h with ⟨text, span, -, rfl⟩ | ⟨c, rfl, rfl⟩ |
    ⟨c, span, s₁, events, e, -, hexecute, rfl⟩ |
    ⟨condition, thenSteps, elseSteps, span, e, -, -, rfl⟩
  · refine .idle ⟨hs.offer, hs.countdown⟩ fun e he => ?_
    cases List.mem_singleton.mp he
    rfl
  · exact atRest_present hs (cursor_of_fetch hf) (holds_of_fetch hf)
  · have hidle := hs.execute (g := g) c
    have hquiet := quiet_execute (g := g) s' c
    rw [hexecute] at hidle hquiet
    exact .idle hidle hquiet
  · exact .idle hs .nil

/-- A step behind which the call goes on leaves the scene idle. -/
theorem Idle.onwards {s s' : Scene} {step : Step} {index : Nat} {events : List Event} (hs : s.Idle)
    (h : s.take g step index = .onwards s' events) : s'.Idle ∧ Event.Quiet events := by
  rcases take_eq_onwards_cases h with ⟨c, span, -, hexecute⟩ |
    ⟨condition, thenSteps, elseSteps, span, holds, -, -, rfl, rfl⟩
  · have hidle := hs.execute (g := g) c
    have hquiet := quiet_execute (g := g) s c
    rw [hexecute] at hidle hquiet
    exact ⟨hidle, hquiet⟩
  · exact ⟨⟨hs.offer, hs.countdown⟩, .nil⟩

/-- **A dialogue that goes on from an idle scene comes to rest.** -/
theorem atRest_advance {s : Scene} (hs : s.Idle) (budget : Nat) :
    AtRest g (s.advance g limit budget []).scene (s.advance g limit budget []).events := by
  induction budget, s using advance_induction (g := g) with
  | ended budget s hf =>
    rw [advance_of_fetch_eq_none hf]
    refine .idle ⟨hs.offer, hs.countdown⟩ fun e he => ?_
    cases List.mem_singleton.mp he
    rfl
  | limited s s' step index hf =>
    rw [advance_zero hf]
    exact .idle (hs.fetch hf) .nil
  | done budget s s' step index b hf ht =>
    rw [advance_of_done hf ht]
    exact atRest_of_done (hs.fetch hf) hf ht
  | onwards budget s s' s'' step index events hf ht ih =>
    obtain ⟨hidle, hquiet⟩ := (hs.fetch hf).onwards ht
    rw [advance_succ_of_onwards hf ht]
    exact (ih hidle).after hquiet

theorem atRest_proceed {s : Scene} (hs : s.Idle) :
    AtRest g (s.proceed g limit).scene (s.proceed g limit).events := by
  rw [proceed, hs.offer]
  exact atRest_advance hs _

/-- The commands of an option run, and then the dialogue goes on. -/
theorem atRest_executeAll {s : Scene} (hs : s.Idle) (commands : List Command) :
    AtRest g ((s.executeAll g commands).andThen fun s => s.proceed g limit).scene
      ((s.executeAll g commands).andThen fun s => s.proceed g limit).events := by
  obtain ⟨hidle, hquiet⟩ := hs.executeAll (g := g) commands
  rw [Burst.andThen]
  split
  · exact .idle hidle hquiet
  · exact (atRest_proceed hidle).after hquiet

/-- A start under a name of the graph brings the dialogue to rest. -/
theorem atRest_start {s : Scene} {name : String} (h : g.contains name = true) :
    AtRest g (s.start g limit name).scene (s.start g limit name).events := by
  obtain ⟨n, hn⟩ := Option.isSome_iff_exists.mp h
  rw [start, jump, hn]
  exact atRest_proceed ⟨rfl, rfl⟩

/-- Taking an option that is on offer brings the dialogue to rest. -/
theorem atRest_choose {s : Scene} {index : Nat} (h : index < s.options.length) :
    AtRest g (s.choose g limit index).scene (s.choose g limit index).events := by
  rw [options] at h
  cases ho : s.offer with
  | none =>
    rw [ho] at h
    exact absurd h (Nat.not_lt_zero _)
  | some o =>
    rw [ho] at h
    have hlt : index < o.entries.length := List.length_map Entry.text ▸ h
    rw [choose]
    simp only [ho, List.getElem?_eq_getElem hlt]
    exact atRest_executeAll ⟨rfl, rfl⟩ _

/-! ## Replies -/

/-- An offer has a countdown at most while it stands. -/
def Timed (s : Scene) : Prop := s.countdown.isSome → s.offer.isSome

/-- Without an offer no countdown runs. -/
theorem Timed.idle_of_offer {s : Scene} (hs : s.Timed) (ho : s.offer = none) : s.Idle := by
  refine ⟨ho, Option.not_isSome_iff_eq_none.mp fun hsome => ?_⟩
  have hoffer := hs hsome
  rw [ho] at hoffer
  cases hoffer

/-- What a call can do to a scene, and the events it tells of it. -/
inductive Reply (g : Graph) (s : Scene) : Scene → List Event → Prop
  /-- The place, the offer and the countdown are as before. -/
  | unmoved {s' : Scene} : s'.cursor = s.cursor → s'.offer = s.offer →
      s'.countdown = s.countdown → Reply g s s' []
  /-- The countdown is stopped, and the offer stands. -/
  | disarmed : Reply g s { s with countdown := none } []
  /-- The countdown of the offer runs. -/
  | counted {remaining : Float} : s.countdown.isSome → s.offer.isSome →
      Reply g s { s with countdown := some remaining } [.timerUpdated remaining]
  /-- The dialogue goes on and comes to rest. -/
  | moved {s' : Scene} {events : List Event} : AtRest g s' events → Reply g s s' events
  /-- The countdown is over, with the default option taken or, if there is none, with nothing. -/
  | expired {s' : Scene} {events : List Event} {remaining : Float} : s.countdown.isSome →
      (s' = { s with countdown := none } ∧ events = [] ∨ AtRest g s' events) →
      Reply g s s' (.timerUpdated remaining :: .timerExpired :: events)

/-- Taking an option stops the countdown whatever happens. -/
theorem choose_cases (s : Scene) (index : Nat) :
    ((s.choose g limit index).scene = { s with countdown := none } ∧
      (s.choose g limit index).events = []) ∨
    AtRest g (s.choose g limit index).scene (s.choose g limit index).events := by
  by_cases h : index < s.options.length
  · exact .inr (atRest_choose h)
  · left
    rw [options] at h
    rw [choose]
    cases ho : s.offer with
    | none => exact ⟨by simp only [Burst.stop], rfl⟩
    | some o =>
      rw [ho] at h
      have hle : o.entries.length ≤ index := Nat.not_lt.mp (List.length_map Entry.text ▸ h)
      simp only [List.getElem?_eq_none hle]
      exact ⟨by simp only [Burst.fail], rfl⟩

theorem reply_start (s : Scene) (name : String) :
    Reply g s (s.start g limit name).scene (s.start g limit name).events := by
  by_cases h : g.contains name = true
  · exact .moved (atRest_start h)
  · have hn : g.get? name = none := Option.not_isSome_iff_eq_none.mp h
    rw [start, jump, hn]
    exact .unmoved rfl rfl rfl

theorem reply_proceed {s : Scene} (hs : s.Timed) :
    Reply g s (s.proceed g limit).scene (s.proceed g limit).events := by
  cases ho : s.offer with
  | some o =>
    rw [proceed, ho]
    exact .unmoved rfl rfl rfl
  | none => exact .moved (atRest_proceed (hs.idle_of_offer ho))

theorem reply_choose (s : Scene) (index : Nat) :
    Reply g s (s.choose g limit index).scene (s.choose g limit index).events := by
  rcases @choose_cases g limit s index with ⟨hscene, hevents⟩ | hrest
  · rw [hscene, hevents]
    exact .disarmed
  · exact .moved hrest

theorem reply_tick {s : Scene} (seconds : Float) :
    Reply g s (s.tick g limit seconds).scene (s.tick g limit seconds).events := by
  rw [tick]
  split
  · exact .unmoved rfl rfl rfl
  · next before hbefore =>
    have hcountdown : s.countdown.isSome := Option.isSome_iff_exists.mpr ⟨before, hbefore⟩
    split
    · exact .disarmed
    · next o ho =>
      dsimp only
      split
      · -- Nothing remains: the events of the countdown come in front of those of the option.
        have hchoose := @choose_cases g limit { s with countdown := none } o.defaultOption.toNat
        exact .expired hcountdown hchoose
      · exact .counted hcountdown (Option.isSome_iff_exists.mpr ⟨o, ho⟩)

end Scene

namespace Runner

/-- **What a call can do**, from a scene whose countdown has its offer. -/
theorem reply_perform {r : Runner} (hr : r.scene.Timed) (c : Call) :
    Scene.Reply r.graph r.scene (r.perform c).runner.scene (r.perform c).events := by
  cases c with
  | start name => exact Scene.reply_start r.scene name
  | proceed => exact Scene.reply_proceed hr
  | choose index => exact Scene.reply_choose r.scene index
  | tick seconds => exact Scene.reply_tick seconds
  | set name v => exact .unmoved rfl rfl rfl
  | remove name => exact .unmoved rfl rfl rfl
  | clear => exact .unmoved rfl rfl rfl
  | subscribe listener => exact .unmoved rfl rfl rfl
  | drain => exact .unmoved rfl rfl rfl

/-- All events that a runner tells of some calls, in their order. -/
def stream (r : Runner) (calls : List Call) : List Event :=
  (r.performAll calls).flatMap Answer.events

theorem stream_cons (r : Runner) (c : Call) (rest : List Call) :
    r.stream (c :: rest) = (r.perform c).events ++ (r.perform c).runner.stream rest := rfl

end Runner

end Dialogue
