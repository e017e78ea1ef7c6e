import Dialogue.Proofs.Runner.Refinement
import Dialogue.Proofs.Runner.Reply

/-!
# Offers

The offer, its countdown and the cursor of a scene are three fields that may hold something or not.
In the scenes of a runner they always fit together: a countdown belongs to an offer, an offer stands
at a place of the dialogue, and it shows some entries of one choice of the graph in their order
(`Consistent`). Every reply keeps this (`Consistent.reply`), so every run does (`consistent_after`),
for graphs of any kind and whatever the calls were.

The same runs keep the limit of the backlog.
-/

namespace Dialogue

namespace Scene

/-- The offer, the countdown and the cursor fit together. -/
structure Consistent (g : Graph) (s : Scene) : Prop where
  timed : s.countdown.isSome → s.offer.isSome
  placed : ∀ o, s.offer = some o → s.node?.isSome
  shown : ∀ o, s.offer = some o →
    o.entries ≠ [] ∧ ∃ c, g.Holds (.choice c) ∧ o.entries.Sublist c.entries

variable {g : Graph}

theorem consistent_initial (g : Graph) : initial.Consistent g where
  timed h := nomatch h
  placed _ h := nomatch h
  shown _ h := nomatch h

/-- Stopping the countdown of an offer leaves the offer as it is. -/
theorem Consistent.disarm {s : Scene} (h : s.Consistent g) :
    ({ s with countdown := none } : Scene).Consistent g where
  timed h' := nomatch h'
  placed := h.placed
  shown := h.shown

/-- A dialogue at rest has either no offer at all or the one just made. -/
theorem AtRest.consistent {s : Scene} {events : List Event} (h : AtRest g s events) :
    s.Consistent g := by
  cases h with
  | idle hs _ =>
    constructor
    case timed =>
      intro h
      rw [hs.countdown] at h
      cases h
    case placed =>
      intro o ho
      rw [hs.offer] at ho
      cases ho
    case shown =>
      intro o ho
      rw [hs.offer] at ho
      cases ho
  | offering hs hcursor hc hne hsub _ =>
    constructor
    case timed =>
      intro _
      rfl
    case placed =>
      intro o _
      rw [node?, Option.isSome_map]
      exact hcursor
    case shown =>
      intro o ho
      cases ho
      exact ⟨hne, _, hc, hsub⟩

/-- **No reply breaks an offer apart.** -/
theorem Consistent.reply {s s' : Scene} {events : List Event} (h : s.Consistent g)
    (hreply : Reply g s s' events) : s'.Consistent g := by
  cases hreply with
  | unmoved hcursor hoffer hcountdown =>
    constructor
    case timed =>
      intro h'
      rw [hcountdown] at h'
      rw [hoffer]
      exact h.timed h'
    case placed =>
      intro o ho
      rw [hoffer] at ho
      rw [node?, hcursor]
      exact h.placed o ho
    case shown =>
      intro o ho
      rw [hoffer] at ho
      exact h.shown o ho
  | disarmed => exact h.disarm
  | counted _ hoffer => exact ⟨fun _ => hoffer, h.placed, h.shown⟩
  | moved hrest => exact hrest.consistent
  | expired _ hrest =>
    rcases hrest with ⟨rfl, -⟩ | hrest
    · exact h.disarm
    · exact hrest.consistent

end Scene

/-! ## Backlogs -/

theorem Backlog.limit_add (b : Backlog) (events : List Event) : (b.add events).limit = b.limit := by
  induction events generalizing b with
  | nil => rfl
  | cons e rest ih =>
    have hrest : (b.push e).add rest = b.add (e :: rest) := rfl
    rw [← hrest, ih, limit_push]

/-! ## Runs -/

namespace Runner

theorem after_cons (r : Runner) (c : Call) (rest : List Call) :
    r.after (c :: rest) = (r.perform c).runner.after rest := rfl

theorem graph_after (r : Runner) (calls : List Call) : (r.after calls).graph = r.graph := by
  induction calls generalizing r with
  | nil => rfl
  | cons c rest ih => rw [after_cons, ih, graph_perform]

theorem limit_backlog_perform (r : Runner) (c : Call) :
    (r.perform c).runner.backlog.limit = r.backlog.limit := by
  cases c with
  | start name => exact r.backlog.limit_add _
  | proceed => exact r.backlog.limit_add _
  | choose index => exact r.backlog.limit_add _
  | tick seconds => exact r.backlog.limit_add _
  | set name v => rfl
  | remove name => rfl
  | clear => rfl
  | subscribe listener => rfl
  | drain => rfl

theorem limit_backlog_after (r : Runner) (calls : List Call) :
    (r.after calls).backlog.limit = r.backlog.limit := by
  induction calls generalizing r with
  | nil => rfl
  | cons c rest ih => rw [after_cons, ih, limit_backlog_perform]

theorem consistent_perform {r : Runner} (hr : r.scene.Consistent r.graph) (c : Call) :
    (r.perform c).runner.scene.Consistent r.graph :=
  hr.reply (reply_perform hr.timed c)

theorem consistent_run {r : Runner} (hr : r.scene.Consistent r.graph) (calls : List Call) :
    (r.after calls).scene.Consistent r.graph := by
  induction calls generalizing r with
  | nil => exact hr
  | cons c rest ih =>
    have hgraph := r.graph_perform c
    have hcall := consistent_perform hr c
    rw [← hgraph] at hcall ⊢
    exact ih hcall

/-- **Offers fit together in every run**: after any calls on a new runner a countdown belongs to an
offer, so that no tick ever meets a countdown without one, an offer stands at a node and shows, in
their order, one or more entries of one choice of the graph, and no more events wait than the limit
allows. -/
theorem consistent_after (g : Graph) (config : Config) (calls : List Call) :
    ((ofGraph g config).after calls).scene.Consistent g ∧
      ¬ (((ofGraph g config).after calls).scene.countdown.isSome ∧
        ((ofGraph g config).after calls).scene.offer = none) ∧
      ((ofGraph g config).after calls).backlog.toList.length ≤ config.backlogLimit.toNat := by
  have hscene := consistent_run (r := ofGraph g config) (Scene.consistent_initial g) calls
  refine ⟨hscene, ?_, ?_⟩
  · rintro ⟨hcountdown, hoffer⟩
    have hsome := hscene.timed hcountdown
    rw [hoffer] at hsome
    cases hsome
  · have hle := ((ofGraph g config).after calls).backlog.length_toList_le
    rw [limit_backlog_after] at hle
    exact hle

end Runner

end Dialogue
