import Dialogue.Proofs.Graph.WellKeyed
import Dialogue.Proofs.Runner.Remaining
import Dialogue.Proofs.Runner.Turn
import Dialogue.Runner.Call

/-!
# The step limit

A call that takes more steps than the limit fails, and a host may go on with another call. The limit
is tested behind the fetch, so the call has already moved past the step that breaks it: that step is
*lost* (`Lost`). It is the first of the steps that remained, and behind the call all others remain
and nothing else has changed (`Lost.dropped`).

`Resumed g limit s b` says that proceeding again after every failure of this kind ends with the
burst `b`, the events of all calls in a row. One call under a limit that is large enough gives the
same burst exactly when going on without the lost step does what going on with it does
(`resumed_proceed_iff`); in general it does not (`line_lost_at_limit`).

Two facts about budgets carry the proofs. A call that does not break its budget is the same under
every larger one (`advance_of_hitsLimit_eq_false`), and a call that breaks it has run exactly as
many steps as the budget allows (`exists_steps_of_hitsLimit`).
-/

namespace Dialogue

/-! ## Faults of the limit -/

def RunFault.isStepLimit : RunFault → Bool
  | .stepLimit _ _ => true
  | _ => false

/-- Whether the step limit has ended a call. -/
def Burst.hitsLimit (b : Burst) : Bool := b.fault.any RunFault.isStepLimit

@[simp] theorem Burst.hitsLimit_after (events : List Event) (b : Burst) :
    (b.after events).hitsLimit = b.hitsLimit := rfl

namespace Scene

variable {g : Graph} {limit : UInt64}

theorem hitsLimit_present (s : Scene) (c : Choice) : (s.present c).hitsLimit = false := by
  rw [present]
  split
  · next e hoffered =>
    obtain ⟨text, cause, rfl⟩ := Entry.fault_of_offered hoffered
    rfl
  · rfl
  · rfl

theorem hitsLimit_execute (s : Scene) (c : Command) : (s.execute g c).hitsLimit = false := by
  cases c with
  | set name v => rfl
  | jump target =>
    rw [execute, jump]
    cases g.get? target <;> rfl

/-- A step that is taken may end a call in many ways, but not by the limit. -/
theorem hitsLimit_of_done {s : Scene} {step : Step} {index : Nat} {b : Burst}
    (h : s.take g step index = .done b) : b.hitsLimit = false := by
  rcases take_eq_done_cases h with ⟨text, span, -, rfl⟩ | ⟨c, -, rfl⟩ |
    ⟨c, span, s', events, e, -, hexecute, rfl⟩ |
    ⟨condition, thenSteps, elseSteps, span, e, -, hcheck, rfl⟩
  · rfl
  · exact hitsLimit_present s c
  · have hhits := hitsLimit_execute (g := g) s c
    rw [hexecute] at hhits
    exact hhits
  · obtain ⟨text, cause, rfl⟩ := Store.fault_of_check hcheck
    rfl

/-! ## Counted steps -/

/-- `Steps g n s events s'`: from `s` the call goes on for `n` steps, which tell the events and lead
to `s'`. -/
inductive Steps (g : Graph) : Nat → Scene → List Event → Scene → Prop
  | none {s : Scene} : Steps g 0 s [] s
  | one {n : Nat} {s s' s₁ s₂ : Scene} {step : Step} {index : Nat} {events more : List Event} :
      s.fetch g = some (step, index, s') → s'.take g step index = .onwards s₁ events →
      Steps g n s₁ more s₂ → Steps g (n + 1) s (events ++ more) s₂

theorem Steps.unique {n : Nat} {s s₁ s₂ : Scene} {events more : List Event}
    (h : Steps g n s events s₁) (h' : Steps g n s more s₂) : events = more ∧ s₁ = s₂ := by
  induction h generalizing more s₂ with
  | none =>
    cases h'
    exact ⟨rfl, rfl⟩
  | one hf ht _ ih =>
    cases h' with
    | one hf' ht' h' =>
      cases hf.symm.trans hf'
      cases ht.symm.trans ht'
      obtain ⟨rfl, rfl⟩ := ih h'
      exact ⟨rfl, rfl⟩

theorem Steps.offer_eq {n : Nat} {s s' : Scene} {events : List Event} (h : Steps g n s events s') :
    s'.offer = s.offer := by
  induction h with
  | none => rfl
  | one hf ht _ ih => rw [ih, offer_of_onwards ht, offer_of_fetch hf]

/-- A call that can afford some steps takes them, and goes on with what is left of its budget. -/
theorem advance_of_steps {n : Nat} {s s' : Scene} {events : List Event} (h : Steps g n s events s')
    (limit : UInt64) (budget : Nat) :
    s.advance g limit (n + budget) [] = (s'.advance g limit budget []).after events := by
  induction h with
  | none => rw [Nat.zero_add, Burst.after_nil]
  | one hf ht _ ih =>
    rw [Nat.add_right_comm, advance_succ_of_onwards hf ht, ih, Burst.after_after]

/-- A call that breaks its budget has taken as many steps as the budget allows, and has moved past
one step more. -/
theorem exists_steps_of_hitsLimit {budget : Nat} {s : Scene}
    (h : (s.advance g limit budget []).hitsLimit = true) :
    ∃ s₀ events step index s₁, Steps g budget s events s₀ ∧ s₀.fetch g = some (step, index, s₁) ∧
      s.advance g limit budget [] = .fail s₁ events (.stepLimit limit (s₁.node?.getD "")) := by
  induction budget, s using advance_induction (g := g) with
  | ended budget s hf =>
    rw [advance_of_fetch_eq_none hf] at h
    cases h
  | limited s s' step index hf => exact ⟨s, [], step, index, s', .none, hf, advance_zero hf []⟩
  | done budget s s' step index b hf ht =>
    rw [advance_of_done hf ht, Burst.hitsLimit_after, hitsLimit_of_done ht] at h
    cases h
  | onwards budget s s' s'' step index events hf ht ih =>
    rw [advance_succ_of_onwards hf ht, Burst.hitsLimit_after] at h
    obtain ⟨s₀, more, step₀, index₀, s₁, hsteps, hfetch, heq⟩ := ih h
    refine ⟨s₀, events ++ more, step₀, index₀, s₁, .one hf ht hsteps, hfetch, ?_⟩
    rw [advance_succ_of_onwards hf ht, heq, Burst.after_fail]

/-- A call that does not break its budget is the same under every larger one, whatever limit its
fault would name. -/
theorem advance_of_hitsLimit_eq_false {limit' : UInt64} {budget budget' : Nat} {s : Scene}
    (h : (s.advance g limit budget []).hitsLimit = false) (hle : budget ≤ budget') :
    s.advance g limit' budget' [] = s.advance g limit budget [] := by
  induction budget, s using advance_induction (g := g) generalizing budget' with
  | ended budget s hf => rw [advance_of_fetch_eq_none hf, advance_of_fetch_eq_none hf]
  | limited s s' step index hf =>
    -- With a step to take and no budget the call does break it.
    rw [advance_zero hf] at h
    cases h
  | done budget s s' step index b hf ht =>
    obtain ⟨more, rfl⟩ := Nat.exists_eq_succ_of_ne_zero (Nat.ne_zero_of_lt hle)
    rw [advance_of_done hf ht, advance_of_done hf ht]
  | onwards budget s s' s'' step index events hf ht ih =>
    obtain ⟨more, rfl⟩ := Nat.exists_eq_succ_of_ne_zero (Nat.ne_zero_of_lt hle)
    rw [advance_succ_of_onwards hf ht, Burst.hitsLimit_after] at h
    rw [advance_succ_of_onwards hf ht, advance_succ_of_onwards hf ht,
      ih h (Nat.le_of_succ_le_succ hle)]

/-! ## Going on after the limit -/

theorem proceed_of_offer {s : Scene} (h : s.offer = none) (limit : UInt64) :
    s.proceed g limit = s.advance g limit limit.toNat [] := by
  rw [proceed, h]

/-- `Resumed g limit s b`: proceeding from `s`, and again after every failure by the limit, ends
with `b`, which holds the events of all these calls. -/
inductive Resumed (g : Graph) (limit : UInt64) : Scene → Burst → Prop
  | last {s : Scene} : (s.proceed g limit).hitsLimit = false → Resumed g limit s (s.proceed g limit)
  | again {s : Scene} {b : Burst} : (s.proceed g limit).hitsLimit = true →
      Resumed g limit (s.proceed g limit).scene b →
      Resumed g limit s (b.after (s.proceed g limit).events)

/-- The step that a call under a limit loses: as many steps as the limit allows lead to the scene
`s₀`, whose next step it is, and the call stands behind it when it fails. -/
structure Lost (g : Graph) (limit : UInt64) (s s₀ : Scene) (step : Step) (index : Nat) : Prop where
  ran : Steps g limit.toNat s (s.proceed g limit).events s₀
  fetched : s₀.fetch g = some (step, index, (s.proceed g limit).scene)
  hits : (s.proceed g limit).hitsLimit = true

/-- A call that the limit ends has lost a step. -/
theorem exists_lost {s : Scene} (hoffer : s.offer = none)
    (h : (s.proceed g limit).hitsLimit = true) : ∃ s₀ step index, Lost g limit s s₀ step index := by
  have hproceed : s.proceed g limit = s.advance g limit limit.toNat [] :=
    proceed_of_offer hoffer limit
  rw [hproceed] at h
  obtain ⟨s₀, events, step, index, s₁, hsteps, hfetch, heq⟩ := exists_steps_of_hitsLimit h
  refine ⟨s₀, step, index, ?_, ?_, hproceed ▸ h⟩
  · rw [hproceed, heq]
    exact hsteps
  · rw [hproceed, heq]
    exact hfetch

/-- The lost step is the only one that the call drops: the others remain in their order, and all but
the cursor is as it was in front of the lost step. -/
theorem Lost.dropped {s s₀ : Scene} {step : Step} {index : Nat} (h : Lost g limit s s₀ step index) :
    Fetched g s₀ step index (s.proceed g limit).scene :=
  Scene.fetched h.fetched

/-- A call loses one step at most. -/
theorem Lost.unique {s s₀ s₁ : Scene} {step step' : Step} {index index' : Nat}
    (h : Lost g limit s s₀ step index) (h' : Lost g limit s s₁ step' index') :
    s₀ = s₁ ∧ step = step' ∧ index = index' := by
  obtain ⟨-, rfl⟩ := h.ran.unique h'.ran
  cases h.fetched.symm.trans h'.fetched
  exact ⟨rfl, rfl, rfl⟩

/-- A call under a limit that is large enough goes on with the step that a call under a smaller one
loses. -/
theorem Lost.proceed_eq {big : UInt64} {s s₀ : Scene} {step : Step} {index : Nat}
    (h : Lost g limit s s₀ step index) (hoffer : s.offer = none)
    (hbig : (s.proceed g big).hitsLimit = false) :
    s.proceed g big = (s₀.proceed g big).after (s.proceed g limit).events := by
  have hoffer₀ : s₀.offer = none := h.ran.offer_eq.trans hoffer
  have hhits := h.hits
  rw [proceed_of_offer hoffer] at hbig hhits
  -- A limit that is not broken is larger than one that is.
  have hlt : limit.toNat < big.toNat := by
    apply Nat.lt_of_not_le
    intro hle
    rw [advance_of_hitsLimit_eq_false hbig hle, hbig] at hhits
    cases hhits
  obtain ⟨more, hmore⟩ := Nat.exists_eq_add_of_lt hlt
  -- Cut the long call behind the steps that the short one takes: what follows has a part of the
  -- large budget, and as it does not break this part it is the same under all of the budget.
  have hsplit := advance_of_steps h.ran big (more + 1)
  rw [← Nat.add_assoc, ← hmore] at hsplit
  rw [hsplit, Burst.hitsLimit_after] at hbig
  rw [proceed_of_offer hoffer, proceed_of_offer hoffer₀, hsplit,
    advance_of_hitsLimit_eq_false hbig (by omega : more + 1 ≤ big.toNat)]

/-- Where the limit does not end the call, it makes no difference. -/
theorem proceed_eq_of_hitsLimit_eq_false {big : UInt64} {s : Scene} (hoffer : s.offer = none)
    (hclean : (s.proceed g limit).hitsLimit = false) (hbig : (s.proceed g big).hitsLimit = false) :
    s.proceed g big = s.proceed g limit := by
  rw [proceed_of_offer hoffer] at hbig hclean
  rw [proceed_of_offer hoffer, proceed_of_offer hoffer]
  rcases Nat.le_total limit.toNat big.toNat with hle | hle
  · exact advance_of_hitsLimit_eq_false hclean hle
  · exact (advance_of_hitsLimit_eq_false hbig hle).symm

/-- When a call has lost a step, going on after it starts behind this step. -/
theorem Lost.resumed_iff {s s₀ : Scene} {step : Step} {index : Nat} {b : Burst}
    (h : Lost g limit s s₀ step index) :
    Resumed g limit s (b.after (s.proceed g limit).events) ↔
      Resumed g limit (s.proceed g limit).scene b := by
  constructor
  · intro hresumed
    generalize hb : b.after (s.proceed g limit).events = b' at hresumed
    cases hresumed with
    | last hclean =>
      have hhits := h.hits
      rw [hclean] at hhits
      cases hhits
    | again _ hagain =>
      rw [Burst.after_inj hb]
      exact hagain
  · exact .again h.hits

end Scene

/-- **What the limit does.** A call that the limit ends drops the step it did not take, and nothing
else. Proceeding again after every failure by the limit gives what one call under a large enough
limit gives, exactly when going on without the step that the first call drops, if it drops one,
gives what going on with this step gives. -/
theorem Scene.resumed_proceed_iff {g : Graph} {limit big : UInt64} {s : Scene}
    (hoffer : s.offer = none) (hbig : (s.proceed g big).hitsLimit = false) :
    ((s.proceed g limit).hitsLimit = true →
      ∃ s₀ step index, Lost g limit s s₀ step index ∧
        Fetched g s₀ step index (s.proceed g limit).scene) ∧
    (Resumed g limit s (s.proceed g big) ↔
      ∀ s₀ step index, Lost g limit s s₀ step index →
        Resumed g limit (s.proceed g limit).scene (s₀.proceed g big)) := by
  refine ⟨?_, ?_, ?_⟩
  · intro hhits
    obtain ⟨s₀, step, index, hlost⟩ := exists_lost hoffer hhits
    exact ⟨s₀, step, index, hlost, hlost.dropped⟩
  · intro h s₀ step index hlost
    rw [hlost.proceed_eq hoffer hbig] at h
    exact hlost.resumed_iff.1 h
  · intro h
    by_cases hhits : (s.proceed g limit).hitsLimit = true
    · obtain ⟨s₀, step, index, hlost⟩ := exists_lost hoffer hhits
      rw [hlost.proceed_eq hoffer hbig]
      exact hlost.resumed_iff.2 (h s₀ step index hlost)
    · have hclean := Bool.eq_false_iff.2 hhits
      rw [proceed_eq_of_hitsLimit_eq_false hoffer hclean hbig]
      exact .last hclean

/-! ## A lost line -/

/-- A graph whose node tells a line, sets a variable, and tells another line. -/
def pausingGraph : Graph :=
  Graph.empty.insert ⟨"A", [.line "Hello" ⟨3, 1, 5⟩, .command (.set "seen" (.bool true)) ⟨4, 1, 19⟩,
    .line "Done" ⟨5, 1, 4⟩], ⟨1, 1, 8⟩⟩

/-- A runner of it behind its first line, under a limit of one step. -/
def pausedRunner : Runner := (Runner.ofGraph pausingGraph ⟨1, 8⟩).after [.start "A"]

theorem Scene.resumed_proceed_iff_pausedRunner :
    (pausedRunner.scene.offer = none ∧
        (pausedRunner.scene.proceed pausingGraph 9).hitsLimit = false) ∧
      ((pausedRunner.scene.proceed pausingGraph 1).hitsLimit = true →
        ∃ s₀ step index, Lost pausingGraph 1 pausedRunner.scene s₀ step index ∧
          Fetched pausingGraph s₀ step index
            (pausedRunner.scene.proceed pausingGraph 1).scene) ∧
      (Resumed pausingGraph 1 pausedRunner.scene (pausedRunner.scene.proceed pausingGraph 9) ↔
        ∀ s₀ step index, Lost pausingGraph 1 pausedRunner.scene s₀ step index →
          Resumed pausingGraph 1 (pausedRunner.scene.proceed pausingGraph 1).scene
            (s₀.proceed pausingGraph 9)) :=
  ⟨⟨rfl, by decide⟩, resumed_proceed_iff rfl (by decide)⟩

/-- **The limit loses a line**: in a reachable scene of a well-keyed graph, one call under a large
limit tells the last line, and calls under the limit of one step end the dialogue without it. -/
theorem line_lost_at_limit :
    pausingGraph.WellKeyed ∧ pausedRunner.config.stepLimit = 1 ∧ pausedRunner.scene.offer = none ∧
      (pausedRunner.scene.proceed pausingGraph 9).hitsLimit = false ∧
      (pausedRunner.scene.proceed pausingGraph 9).events =
        [.variableChanged "seen" (.bool true), .lineReady "Done"] ∧
      (∃ b, Scene.Resumed pausingGraph 1 pausedRunner.scene b ∧
        b.events = [.variableChanged "seen" (.bool true), .dialogueEnded]) ∧
      ¬ Scene.Resumed pausingGraph 1 pausedRunner.scene
        (pausedRunner.scene.proceed pausingGraph 9) := by
  refine ⟨Graph.wellKeyed_empty.insert _, rfl, rfl, by decide, by decide, ?_, ?_⟩
  · -- The first call sets the variable and loses the line, the second one ends the dialogue.
    exact ⟨_, .again (by decide) (.last (by decide)), by decide⟩
  · intro h
    have hevents : (pausedRunner.scene.proceed pausingGraph 9).events =
        [.variableChanged "seen" (.bool true), .lineReady "Done"] := by decide
    generalize pausedRunner.scene.proceed pausingGraph 9 = b at h hevents
    -- The calls are determined, and what they tell is not what `hevents` says.
    cases h with
    | last hclean => exact absurd hclean (by decide)
    | again _ hagain =>
      cases hagain with
      | last _ => exact absurd hevents (by decide)
      | again hhits _ => exact absurd hhits (by decide)

end Dialogue
