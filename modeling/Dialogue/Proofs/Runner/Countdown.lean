import Dialogue.Proofs.Runner.Offer

/-!
# The protocol of countdowns

All events that a runner ever tells, call after call, make one stream. In it the events about
countdowns follow a protocol: a countdown is started directly behind the options that it is for, it
is updated directly behind its start or an update, and it expires directly behind an update.

`Event.MayFollow` is the protocol for one event and the one before it, and `Event.InOrder` for a
list of events behind a given one. That a run keeps it is an invariant of the scene and the last
event together: while a countdown runs, the last event was its start or an update (`Armed`). The
other direction is a fact about ordered lists: behind an event of any other kind no update comes
before the next start (`InOrder.quiet`), so a start has at most one end, and a choice that is taken
or dropped hears no more of its countdown.
-/

namespace Dialogue

namespace Event

/-! ## Ordered events -/

/-- Whether a countdown may run behind an event: it was started or updated. -/
def isLive : Event → Bool
  | .timerStarted _ => true
  | .timerUpdated _ => true
  | _ => false

/-- The protocol for an event and the one before it, if there is one. -/
def MayFollow (last : Option Event) : Event → Prop
  | .timerStarted _ => ∃ options, last = some (.optionsReady options)
  | .timerUpdated _ => ∃ e, last = some e ∧ e.isLive = true
  | .timerExpired => ∃ remaining, last = some (.timerUpdated remaining)
  | _ => True

/-- Every event keeps the protocol, the first of them behind a given one. -/
def InOrder (last : Option Event) : List Event → Prop
  | [] => True
  | e :: rest => e.MayFollow last ∧ InOrder (some e) rest

/-- The last of some events, or the one before them if there are none. -/
def lastOf (last : Option Event) (events : List Event) : Option Event := events.getLast?.or last

@[simp] theorem lastOf_cons (last : Option Event) (e : Event) (rest : List Event) :
    lastOf last (e :: rest) = lastOf (some e) rest := by
  simp only [lastOf, List.getLast?_cons]
  cases rest.getLast? <;> rfl

@[simp] theorem lastOf_nil (last : Option Event) : lastOf last [] = last := rfl

theorem lastOf_append (last : Option Event) (events more : List Event) :
    lastOf last (events ++ more) = lastOf (lastOf last events) more := by
  induction events generalizing last with
  | nil => rfl
  | cons e rest ih => rw [List.cons_append, lastOf_cons, lastOf_cons, ih]

theorem inOrder_append {last : Option Event} {events more : List Event} :
    InOrder last (events ++ more) ↔ InOrder last events ∧ InOrder (lastOf last events) more := by
  induction events generalizing last with
  | nil => simp [InOrder]
  | cons e rest ih => rw [List.cons_append, InOrder, InOrder, ih, lastOf_cons, and_assoc]

/-- What is in order is so at every place. -/
theorem InOrder.mayFollow {last : Option Event} {before after : List Event} {e : Event}
    (h : InOrder last (before ++ e :: after)) : e.MayFollow (lastOf last before) :=
  (inOrder_append.mp h).2.1

theorem mayFollow_of_isTimer_eq_false {e : Event} (h : e.isTimer = false) (last : Option Event) :
    e.MayFollow last := by
  cases e with
  | timerStarted seconds => cases h
  | timerUpdated remaining => cases h
  | timerExpired => cases h
  | lineReady text => trivial
  | optionsReady options => trivial
  | dialogueEnded => trivial
  | variableChanged name value => trivial

/-- Events that say nothing of countdowns are in order anywhere. -/
theorem Quiet.inOrder {events : List Event} (h : Quiet events) (last : Option Event) :
    InOrder last events := by
  induction events generalizing last with
  | nil => trivial
  | cons e rest ih =>
    obtain ⟨he, hrest⟩ := List.forall_mem_cons.mp h
    exact ⟨mayFollow_of_isTimer_eq_false he last, ih hrest (some e)⟩

/-! ### Between two starts -/

/-- Behind an event of another kind countdowns are not spoken of until the next start. The induction
goes along the events: none of them lets a countdown run for the next one. -/
theorem InOrder.quiet {last : Option Event} {events : List Event} (h : InOrder last events)
    (hlast : ∀ e, last = some e → e.isLive = false)
    (hstart : ∀ seconds, Event.timerStarted seconds ∉ events) : Quiet events := by
  induction events generalizing last with
  | nil => exact .nil
  | cons e rest ih =>
    obtain ⟨hfollow, hrest⟩ := h
    have hstartRest : ∀ seconds, Event.timerStarted seconds ∉ rest :=
      fun seconds hmem => hstart seconds (List.mem_cons_of_mem _ hmem)
    have htimer : e.isTimer = false := by
      cases e with
      | timerStarted seconds => exact absurd List.mem_cons_self (hstart seconds)
      | timerUpdated remaining =>
        obtain ⟨e', he', hlive⟩ := hfollow
        rw [hlast e' he'] at hlive
        cases hlive
      | timerExpired =>
        obtain ⟨remaining, hupdated⟩ := hfollow
        cases hlast _ hupdated
      | lineReady text => rfl
      | optionsReady options => rfl
      | dialogueEnded => rfl
      | variableChanged name value => rfl
    have hlive : ∀ e', some e = some e' → e'.isLive = false := by
      intro e' he'
      cases he'
      cases e with
      | timerStarted seconds => cases htimer
      | timerUpdated remaining => cases htimer
      | timerExpired => rfl
      | lineReady text => rfl
      | optionsReady options => rfl
      | dialogueEnded => rfl
      | variableChanged name value => rfl
    exact List.forall_mem_cons.mpr ⟨htimer, ih hrest hlive hstartRest⟩

/-- Behind an event of another kind a start comes before any update. -/
theorem InOrder.exists_started {last : Option Event} {before after : List Event} {remaining : Float}
    (h : InOrder last (before ++ .timerUpdated remaining :: after))
    (hlast : ∀ e, last = some e → e.isLive = false) :
    ∃ seconds, Event.timerStarted seconds ∈ before := by
  refine Classical.byContradiction fun hnone => ?_
  have hupto : InOrder last (before ++ [.timerUpdated remaining]) := by
    rw [List.append_cons] at h
    exact (inOrder_append.mp h).1
  have hquiet := hupto.quiet hlast fun seconds hmem => by
    rcases List.mem_append.mp hmem with hmem | hmem
    · exact hnone ⟨seconds, hmem⟩
    · cases List.mem_singleton.mp hmem
  cases hquiet (.timerUpdated remaining) (List.mem_append_right _ List.mem_cons_self)

/-- Until the next start a countdown expires once at most. -/
theorem InOrder.count_expired_le_one {last : Option Event} {events : List Event}
    (h : InOrder last events) (hstart : ∀ seconds, Event.timerStarted seconds ∉ events) :
    events.count .timerExpired ≤ 1 := by
  induction events generalizing last with
  | nil => exact Nat.zero_le 1
  | cons e rest ih =>
    have hstartRest : ∀ seconds, Event.timerStarted seconds ∉ rest :=
      fun seconds hmem => hstart seconds (List.mem_cons_of_mem _ hmem)
    by_cases he : e = .timerExpired
    · subst he
      have hquiet : Quiet rest := h.2.quiet (by rintro _ ⟨⟩; rfl) hstartRest
      have hnone : rest.count .timerExpired = 0 := by
        apply List.count_eq_zero.mpr
        intro hmem
        cases hquiet _ hmem
      have hone : (Event.timerExpired :: rest).count .timerExpired = 1 := by
        rw [List.count_cons_self, hnone]
      exact Nat.le_of_eq hone
    · rw [List.count_cons_of_ne he]
      exact ih h.2 hstartRest

end Event

/-! ## Scenes and the last event -/

namespace Scene

variable {g : Graph} {s s' : Scene} {events : List Event}

/-- While a countdown runs, the last event was its start or an update. -/
def Armed (last : Option Event) (s : Scene) : Prop :=
  s.countdown.isSome → ∃ e, last = some e ∧ e.isLive = true

theorem armed_of_countdown (last : Option Event) (h : s.countdown = none) : s.Armed last := by
  intro hsome
  rw [h] at hsome
  cases hsome

/-- A dialogue comes to rest in order, whatever was told before, and starts a countdown as the last
thing that it does. -/
theorem AtRest.inOrder (h : AtRest g s events) (last : Option Event) :
    Event.InOrder last events ∧ s.Armed (Event.lastOf last events) := by
  cases h with
  | idle hs hquiet => exact ⟨hquiet.inOrder last, armed_of_countdown _ hs.countdown⟩
  | @offering _ c entries told hs _ _ _ _ hquiet =>
    rw [Event.inOrder_append, Event.lastOf_append, offerEvents]
    cases ht : c.timeLimit with
    | none => exact ⟨⟨hquiet.inOrder last, trivial, trivial⟩, armed_of_countdown _ ht⟩
    | some seconds =>
      refine ⟨⟨hquiet.inOrder last, trivial, ⟨_, rfl⟩, trivial⟩, fun _ => ?_⟩
      exact ⟨.timerStarted seconds, rfl, rfl⟩

/-- **Every reply keeps the protocol.** -/
theorem Armed.reply {last : Option Event} (h : s.Armed last) (hreply : Reply g s s' events) :
    Event.InOrder last events ∧ s'.Armed (Event.lastOf last events) := by
  cases hreply with
  | unmoved _ _ hcountdown =>
    refine ⟨trivial, fun hsome => ?_⟩
    rw [hcountdown] at hsome
    exact h hsome
  | disarmed => exact ⟨trivial, armed_of_countdown _ rfl⟩
  | counted hcountdown _ => exact ⟨⟨h hcountdown, trivial⟩, fun _ => ⟨_, rfl, rfl⟩⟩
  | moved hrest => exact hrest.inOrder last
  | @expired _ more remaining hcountdown hrest =>
    rw [Event.lastOf_cons, Event.lastOf_cons]
    have hmore : Event.InOrder (some .timerExpired) more ∧
        s'.Armed (Event.lastOf (some .timerExpired) more) := by
      rcases hrest with ⟨rfl, rfl⟩ | hrest
      · exact ⟨trivial, armed_of_countdown _ rfl⟩
      · exact hrest.inOrder _
    exact ⟨⟨h hcountdown, ⟨remaining, rfl⟩, hmore.1⟩, hmore.2⟩

end Scene

/-! ## Streams -/

namespace Runner

/-- A run keeps the protocol. -/
theorem inOrder_stream {r : Runner} {last : Option Event} (hr : r.scene.Consistent r.graph)
    (harmed : r.scene.Armed last) (calls : List Call) : Event.InOrder last (r.stream calls) := by
  induction calls generalizing r last with
  | nil => trivial
  | cons c rest ih =>
    obtain ⟨hevents, hnext⟩ := harmed.reply (reply_perform hr.timed c)
    have hcall := consistent_perform hr c
    rw [← r.graph_perform c] at hcall
    rw [stream_cons, Event.inOrder_append]
    exact ⟨hevents, ih hcall hnext⟩

/-- Calls that put an end to an offer: a start under a name of the graph drops it, and taking one of
its options answers it. -/
def Closes (r : Runner) : Call → Prop
  | .start name => r.graph.contains name = true
  | .choose index => index < r.scene.options.length
  | _ => False

/-- Behind a call that puts an end to an offer the protocol begins anew: nothing of what was told
before lets a countdown run. -/
theorem inOrder_stream_of_closes {r : Runner} {c : Call} (hr : r.scene.Consistent r.graph)
    (hc : r.Closes c) (rest : List Call) : Event.InOrder none (r.stream (c :: rest)) := by
  have hrest : Scene.AtRest r.graph (r.perform c).runner.scene (r.perform c).events := by
    cases c with
    | start name => exact Scene.atRest_start hc
    | choose index => exact Scene.atRest_choose hc
    | _ => exact hc.elim
  obtain ⟨hevents, harmed⟩ := hrest.inOrder none
  have hcall := consistent_perform hr c
  rw [← r.graph_perform c] at hcall
  rw [stream_cons, Event.inOrder_append]
  exact ⟨hevents, inOrder_stream hcall harmed rest⟩

/-- **Countdowns follow their protocol.** In the stream of a new runner every event about a
countdown stands directly behind one that allows it; a start is answered by at most one end before
the next start; and once a countdown has expired, or its choice has been taken or dropped, no update
is told before a new start. -/
theorem stream_protocol (g : Graph) (config : Config) (calls : List Call) :
    (∀ before e after, (ofGraph g config).stream calls = before ++ e :: after →
      e.MayFollow before.getLast?) ∧
    (∀ before seconds between after,
      (ofGraph g config).stream calls = before ++ .timerStarted seconds :: (between ++ after) →
      (∀ next, Event.timerStarted next ∉ between) → between.count .timerExpired ≤ 1) ∧
    (∀ before between remaining after,
      (ofGraph g config).stream calls =
        before ++ .timerExpired :: (between ++ .timerUpdated remaining :: after) →
      ∃ seconds, Event.timerStarted seconds ∈ between) ∧
    (∀ first c second before remaining after, ((ofGraph g config).after first).Closes c →
      ((ofGraph g config).after first).stream (c :: second) =
        before ++ .timerUpdated remaining :: after →
      ∃ seconds, Event.timerStarted seconds ∈ before) := by
  have hstart : (ofGraph g config).scene.Consistent g := Scene.consistent_initial g
  have horder : Event.InOrder none ((ofGraph g config).stream calls) :=
    inOrder_stream hstart (Scene.armed_of_countdown none rfl) calls
  refine ⟨?_, ?_, ?_, ?_⟩
  · intro before e after heq
    rw [heq] at horder
    have hfollow := horder.mayFollow
    rwa [Event.lastOf, Option.or_none] at hfollow
  · intro before seconds between after heq hnone
    rw [heq] at horder
    have hbehind := (Event.inOrder_append.mp horder).2.2
    exact (Event.inOrder_append.mp hbehind).1.count_expired_le_one hnone
  · intro before between remaining after heq
    rw [heq] at horder
    have hbehind := (Event.inOrder_append.mp horder).2.2
    exact hbehind.exists_started (by rintro _ ⟨⟩; rfl)
  · intro first c second before remaining after hcloses heq
    have hfirst := consistent_run (r := ofGraph g config) hstart first
    rw [← graph_after] at hfirst
    have hclosed := inOrder_stream_of_closes hfirst hcloses second
    rw [heq] at hclosed
    exact hclosed.exists_started (by rintro _ ⟨⟩)

end Runner

/-- A duel that goes into a second round when the time is over. -/
def duelGraph : Graph :=
  Graph.empty.insert ⟨"Duel", [
    .choice ⟨[⟨"Draw", none, [], ⟨3, 1, 7⟩⟩, ⟨"Wait", none, [], ⟨4, 1, 7⟩⟩], some 5, 1, ⟨3, 1, 7⟩⟩,
    .choice ⟨[⟨"Fire", none, [], ⟨6, 1, 7⟩⟩], some 8, 0, ⟨6, 1, 7⟩⟩], ⟨1, 1, 11⟩⟩

/-- The first round is left to the countdown, and the second is dropped. -/
def duelCalls : List Call := [.start "duel", .tick 2, .tick 9, .tick 1, .start "Duel"]

theorem Runner.stream_protocol_duelGraph :
    (ofGraph duelGraph .usual).stream duelCalls =
        [.optionsReady ["Draw", "Wait"], .timerStarted 5, .timerUpdated 3, .timerUpdated 0,
          .timerExpired, .optionsReady ["Fire"], .timerStarted 8, .timerUpdated 7,
          .optionsReady ["Draw", "Wait"], .timerStarted 5] ∧
      Event.timerExpired.MayFollow (some (.timerUpdated 0)) ∧
      [Event.timerUpdated 3, .timerUpdated 0, .timerExpired].count .timerExpired ≤ 1 ∧
      (∃ seconds, Event.timerStarted seconds ∈ [Event.optionsReady ["Fire"], .timerStarted 8]) ∧
      ((ofGraph duelGraph .usual).after [.start "duel"]).Closes (.choose 0) ∧
      ∃ seconds, Event.timerStarted seconds ∈ [Event.optionsReady ["Fire"], .timerStarted 8] := by
  have hstream : (ofGraph duelGraph .usual).stream duelCalls =
      [.optionsReady ["Draw", "Wait"], .timerStarted 5, .timerUpdated 3, .timerUpdated 0,
        .timerExpired, .optionsReady ["Fire"], .timerStarted 8, .timerUpdated 7,
        .optionsReady ["Draw", "Wait"], .timerStarted 5] := by decide +kernel
  have hcloses : ((ofGraph duelGraph .usual).after [.start "duel"]).Closes (.choose 0) :=
    show 0 < _ by decide +kernel
  have hchosen : ((ofGraph duelGraph .usual).after [.start "duel"]).stream [.choose 0, .tick 1] =
      [.optionsReady ["Fire"], .timerStarted 8, .timerUpdated 7] := by decide +kernel
  obtain ⟨hfollow, honce, hexpired, hclosed⟩ := stream_protocol duelGraph .usual duelCalls
  refine ⟨hstream, ?_, ?_, ?_, hcloses, ?_⟩
  · exact hfollow [_, _, _, _] _ _ hstream
  · exact honce [_] _ [_, _, _] _ hstream (by simp)
  · exact hexpired [_, _, _, _] [_, _] _ _ hstream
  · exact hclosed [_] _ [_] [_, _] _ _ hcloses hchosen

end Dialogue
