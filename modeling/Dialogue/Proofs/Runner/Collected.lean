import Dialogue.Proofs.Runner.Countdown
import Mathlib.Data.List.DropRight

/-!
# Collected events

There are two ways to learn of events: a listener hears each of them at once, and a host may collect
those that the backlog has kept. Between two collections the backlog takes in what is told and
nothing else (`backlog_after`), so what is collected is the end of what a listener has heard since
the last collection, as long as the limit allows.

The limit itself is never looked at by anything else. Two runners that differ in their backlogs only
are `Alike`, every call keeps them so, and a host that does not collect cannot tell them apart
(`Alike.performAll`).
-/

namespace Dialogue

/-! ## Hearing -/

/-- The events of a call that a listener hears. -/
def Answer.heardBy (a : Answer) (listener : String) : List Event :=
  (a.heard.filter fun h => h.1 == listener).map Prod.snd

/-- A listener that is registered once hears every event once. -/
theorem Event.heard_broadcast {listeners : List String} {listener : String}
    (h : listeners.count listener = 1) (events : List Event) :
    ((broadcast listeners events).filter fun h => h.1 == listener).map Prod.snd = events := by
  induction events with
  | nil => rfl
  | cons e rest ih =>
    have hself : listeners.filter (fun l => l == listener) = [listener] := by
      rw [List.filter_beq, h]
      rfl
    have hone : ((listeners.map fun l => (l, e)).filter fun h => h.1 == listener).map Prod.snd =
        [e] := by
      rw [List.filter_map, List.map_map]
      show (listeners.filter fun l => l == listener).map (fun _ => e) = [e]
      rw [hself]
      rfl
    rw [broadcast, List.flatMap_cons, ← broadcast, List.filter_append, List.map_append, hone, ih]
    rfl

namespace Runner

/-- The events of some calls that a listener hears, in their order. -/
def heardBy (r : Runner) (listener : String) (calls : List Call) : List Event :=
  (r.performAll calls).flatMap fun a => a.heardBy listener

/-- Nobody is registered but by a call for it. -/
theorem count_listeners_perform {r : Runner} {c : Call} {listener : String}
    (hc : c ≠ .subscribe listener) :
    (r.perform c).runner.listeners.count listener = r.listeners.count listener := by
  cases c with
  | subscribe other =>
    have hne : ¬ other = listener := fun h => hc (h ▸ rfl)
    show (r.listeners ++ [other]).count listener = _
    rw [List.count_append, List.count_singleton, if_neg (by simpa using hne), Nat.add_zero]
  | _ => rfl

theorem count_listeners_after {r : Runner} {calls : List Call} {listener : String}
    (hcalls : .subscribe listener ∉ calls) :
    (r.after calls).listeners.count listener = r.listeners.count listener := by
  induction calls generalizing r with
  | nil => rfl
  | cons c rest ih =>
    rw [after_cons, ih (List.not_mem_of_not_mem_cons hcalls),
      count_listeners_perform (List.ne_of_not_mem_cons hcalls).symm]

/-- A listener that has been registered once hears all that is told from then on. -/
theorem heardBy_eq_stream {r : Runner} {calls : List Call} {listener : String}
    (hr : r.listeners.count listener = 1) (hcalls : .subscribe listener ∉ calls) :
    r.heardBy listener calls = r.stream calls := by
  induction calls generalizing r with
  | nil => rfl
  | cons c rest ih =>
    have hcall := count_listeners_perform (r := r) (List.ne_of_not_mem_cons hcalls).symm
    rw [hr] at hcall
    have hhead : (r.perform c).heardBy listener = (r.perform c).events :=
      Event.heard_broadcast hcall _
    rw [stream_cons, ← ih hcall (List.not_mem_of_not_mem_cons hcalls), ← hhead]
    rfl

/-! ## Collecting -/

theorem backlog_perform {r : Runner} {c : Call} (hc : c ≠ .drain) :
    (r.perform c).runner.backlog = r.backlog.add (r.perform c).events := by
  cases c with
  | drain => exact absurd rfl hc
  | _ => rfl

/-- Until it is collected the backlog takes in all that is told, and nothing else. -/
theorem backlog_after {r : Runner} {calls : List Call} (hcalls : .drain ∉ calls) :
    (r.after calls).backlog = r.backlog.add (r.stream calls) := by
  induction calls generalizing r with
  | nil => rfl
  | cons c rest ih =>
    have hrest := ih (r := (r.perform c).runner) (List.not_mem_of_not_mem_cons hcalls)
    rw [after_cons, hrest, backlog_perform (List.ne_of_not_mem_cons hcalls).symm, stream_cons,
      Backlog.add, Backlog.add, Backlog.add, List.foldl_append]

/-- What is collected after some calls, when nothing was waiting before them, is the end of what
they told. -/
theorem drain_after {r : Runner} {calls : List Call} (hr : r.backlog.toList = [])
    (hcalls : .drain ∉ calls) :
    (r.after calls).drain.1 =
      (r.stream calls).rtake (min r.backlog.limit.toNat (r.stream calls).length) := by
  have hkept : (r.stream calls).length - min r.backlog.limit.toNat (r.stream calls).length =
      (r.stream calls).length - r.backlog.limit.toNat := by omega
  rw [drain, backlog_after hcalls, Backlog.toList_add, hr, List.nil_append, List.rtake, hkept]

/-- Nothing waits in a new runner, nor after a collection. -/
theorem toList_backlog_eq_nil {r : Runner} {calls : List Call} (hr : r.backlog.toList = [])
    (hcalls : calls = [] ∨ calls.getLast? = some .drain) : (r.after calls).backlog.toList = [] := by
  rcases hcalls with rfl | hlast
  · exact hr
  · obtain ⟨before, rfl⟩ := List.getLast?_eq_some_iff.mp hlast
    rw [after_append]
    rfl

/-! ## Backlogs aside -/

/-- The runners are the same, their backlogs and the limits of these aside. -/
structure Alike (r r' : Runner) : Prop where
  graph : r'.graph = r.graph
  stepLimit : r'.config.stepLimit = r.config.stepLimit
  scene : r'.scene = r.scene
  listeners : r'.listeners = r.listeners

end Runner

/-- The calls gave the same, and what they left is the same, backlogs aside. -/
structure Answer.Alike (a a' : Answer) : Prop where
  runner : a.runner.Alike a'.runner
  events : a'.events = a.events
  heard : a'.heard = a.heard
  fault : a'.fault = a.fault

namespace Runner

/-- A call does not look at the backlog. -/
theorem Alike.perform {r r' : Runner} (h : r.Alike r') (c : Call) :
    (r.perform c).Alike (r'.perform c) := by
  obtain ⟨g, ⟨stepLimit, limit⟩, scene, backlog, listeners⟩ := r
  obtain ⟨g', ⟨stepLimit', limit'⟩, scene', backlog', listeners'⟩ := r'
  obtain ⟨hg, hlimit, hscene, hlisteners⟩ := h
  dsimp only at hg hlimit hscene hlisteners
  subst hg hlimit hscene hlisteners
  cases c <;> exact ⟨⟨rfl, rfl, rfl, rfl⟩, rfl, rfl, rfl⟩

theorem Alike.performAll {r r' : Runner} (h : r.Alike r') (calls : List Call) :
    List.Forall₂ Answer.Alike (r.performAll calls) (r'.performAll calls) := by
  induction calls generalizing r r' with
  | nil => exact .nil
  | cons c rest ih =>
    have hcall := h.perform c
    exact .cons hcall (ih hcall.runner)

/-- **The backlog is a bounded view of what is told, and nothing depends on it.** Take a listener
that is registered first. As long as it is not registered a second time, what is collected is the
last of the events that it has heard since the collection before, as many as the limit allows. And
under another limit every call gives the same and leaves the same, backlogs aside. -/
theorem collected_and_alike (g : Graph) (config : Config) (listener : String)
    (calls : List Call) :
    let r := (ofGraph g config).subscribe listener
    (∀ earlier recent later, calls = earlier ++ recent ++ .drain :: later →
      (earlier = [] ∨ earlier.getLast? = some .drain) → .drain ∉ recent →
      .subscribe listener ∉ calls →
      let heard := (r.after earlier).heardBy listener recent
      (r.after (earlier ++ recent)).drain.1 =
        heard.rtake (min config.backlogLimit.toNat heard.length)) ∧
    ∀ limit, List.Forall₂ Answer.Alike (r.performAll calls)
      (((ofGraph g { config with backlogLimit := limit }).subscribe
        listener).performAll calls) := by
  intro r
  constructor
  · rintro earlier recent later rfl hearlier hrecent hlistener
    simp only [List.mem_append, not_or] at hlistener
    obtain ⟨⟨hbefore, hsince⟩, -⟩ := hlistener
    have hcount : (r.after earlier).listeners.count listener = 1 := by
      rw [count_listeners_after hbefore]
      exact List.count_singleton_self
    have hlimit : (r.after earlier).backlog.limit = config.backlogLimit :=
      limit_backlog_after r earlier
    have hwaiting : (r.after earlier).backlog.toList = [] := toList_backlog_eq_nil rfl hearlier
    rw [heardBy_eq_stream hcount hsince, after_append, drain_after hwaiting hrecent, hlimit]
  · intro limit
    have halike : r.Alike
        ((ofGraph g { config with backlogLimit := limit }).subscribe listener) :=
      ⟨rfl, rfl, rfl, rfl⟩
    exact halike.performAll calls

end Runner

/-- The calls of a host up to its first collection, and those up to the second. -/
def earlierCalls : List Call := [.start "duel", .tick 2, .drain]

def recentCalls : List Call := [.subscribe "screen", .tick 9, .tick 1]

/-- Between the two collections five events are told, of which a backlog of two keeps the last. -/
theorem Runner.collected_and_alike_duelGraph :
    let r := (ofGraph duelGraph ⟨10000, 2⟩).subscribe "log"
    earlierCalls.getLast? = some .drain ∧ .drain ∉ recentCalls ∧
      .subscribe "log" ∉ earlierCalls ++ recentCalls ++ [.drain] ∧
      (r.after earlierCalls).heardBy "log" recentCalls = [.timerUpdated 0, .timerExpired,
        .optionsReady ["Fire"], .timerStarted 8, .timerUpdated 7] ∧
      (r.after (earlierCalls ++ recentCalls)).drain.1 = [.timerStarted 8, .timerUpdated 7] := by
  intro r
  have hlast : earlierCalls.getLast? = some .drain := rfl
  have hrecent : .drain ∉ recentCalls := by simp [recentCalls]
  have hlistener : .subscribe "log" ∉ earlierCalls ++ recentCalls ++ [.drain] := by
    simp [earlierCalls, recentCalls]
  have hheard : (r.after earlierCalls).heardBy "log" recentCalls = [.timerUpdated 0,
      .timerExpired, .optionsReady ["Fire"], .timerStarted 8, .timerUpdated 7] := by
    decide +kernel
  have hdrain := (collected_and_alike duelGraph ⟨10000, 2⟩ "log"
    (earlierCalls ++ recentCalls ++ [.drain])).1 earlierCalls recentCalls [] rfl (.inr hlast)
    hrecent hlistener
  refine ⟨hlast, hrecent, hlistener, hheard, ?_⟩
  dsimp only at hdrain
  rw [hdrain, hheard]
  rfl

end Dialogue
