import Dialogue.Proofs.Runner.StepLimit

/-!
# Calls without a limit

What a call would do if there were no step limit, and what a limit makes of it. A call without a
limit may go on for ever, so it is described by relations: `Fetches g s n` says that it fetches `n`
steps at least, and `Runs g s n b` that it comes to an end, with the burst `b`, after fetching
exactly `n`. The step that ends a call counts; the ends of branches on the way and the end of the
node do not.

A limit is exact: it ends just the calls that would fetch more steps, and makes no difference to any
other (`Runner.limitedBy`). So a larger limit changes nothing for a call that keeps to a smaller
one.

A runner counts with a word of the machine, which goes up behind each fetch and is compared with the
limit. `round` is one round of that loop, and `Loop` what it ends with. Under any limit below the
largest word the counter does not overflow, and the loop does what `Scene.proceed` does, which has a
budget instead. Under the largest word the two come apart behind as many steps as there are words,
and what is said of this limit is said of the budget.
-/

namespace Dialogue

namespace Scene

variable {g : Graph} {limit : UInt64}

/-! ## Without a limit -/

/-- Without a limit the call from the scene fetches so many steps, and perhaps more. -/
inductive Fetches (g : Graph) : Scene → Nat → Prop
  | none {s : Scene} : Fetches g s 0
  | one {s s' : Scene} {step : Step} {index : Nat} : s.fetch g = some (step, index, s') →
      Fetches g s 1
  | onwards {n : Nat} {s s' s'' : Scene} {step : Step} {index : Nat} {events : List Event} :
      s.fetch g = some (step, index, s') → s'.take g step index = .onwards s'' events →
      Fetches g s'' n → Fetches g s (n + 1)

/-- Without a limit the call from the scene fetches exactly so many steps and ends with the
burst. -/
inductive Runs (g : Graph) : Scene → Nat → Burst → Prop
  | ended {s : Scene} : s.fetch g = none → Runs g s 0 (.stop s.close [.dialogueEnded])
  | done {s s' : Scene} {step : Step} {index : Nat} {b : Burst} :
      s.fetch g = some (step, index, s') → s'.take g step index = .done b → Runs g s 1 b
  | onwards {n : Nat} {s s' s'' : Scene} {step : Step} {index : Nat} {events : List Event}
      {b : Burst} :
      s.fetch g = some (step, index, s') → s'.take g step index = .onwards s'' events →
      Runs g s'' n b → Runs g s (n + 1) (b.after events)

/-- A call that comes to an end fetches no more steps than it does. -/
theorem Runs.fetches_iff {s : Scene} {n m : Nat} {b : Burst} (h : Runs g s n b) :
    Fetches g s m ↔ m ≤ n := by
  induction h generalizing m with
  | ended hf =>
    constructor
    · rintro (_ | hf' | ⟨hf', -, -⟩)
      · exact Nat.le_refl 0
      · cases hf.symm.trans hf'
      · cases hf.symm.trans hf'
    · intro hle
      rw [Nat.le_zero.mp hle]
      exact .none
  | done hf ht =>
    constructor
    · rintro (_ | _ | ⟨hf', ht', -⟩)
      · exact Nat.zero_le 1
      · exact Nat.le_refl 1
      · cases hf.symm.trans hf'
        cases ht.symm.trans ht'
    · intro hle
      rcases Nat.le_one_iff_eq_zero_or_eq_one.mp hle with rfl | rfl
      · exact .none
      · exact .one hf
  | onwards hf ht _ ih =>
    constructor
    · rintro (_ | _ | ⟨hf', ht', hmore⟩)
      · exact Nat.zero_le _
      · exact Nat.succ_le_succ (Nat.zero_le _)
      · cases hf.symm.trans hf'
        cases ht.symm.trans ht'
        exact Nat.succ_le_succ (ih.mp hmore)
    · intro hle
      cases m with
      | zero => exact .none
      | succ m => exact .onwards hf ht (ih.mpr (Nat.le_of_succ_le_succ hle))

/-- A call that comes to an end does so under every budget that it keeps to. -/
theorem Runs.advance_eq {s : Scene} {n budget : Nat} {b : Burst} (h : Runs g s n b)
    (hle : n ≤ budget) : s.advance g limit budget [] = b := by
  induction h generalizing budget with
  | ended hf => rw [advance_of_fetch_eq_none hf]; rfl
  | done hf ht =>
    obtain ⟨more, rfl⟩ := Nat.exists_eq_succ_of_ne_zero (Nat.ne_zero_of_lt hle)
    rw [advance_of_done hf ht]
    rfl
  | onwards hf ht _ ih =>
    obtain ⟨more, rfl⟩ := Nat.exists_eq_succ_of_ne_zero (Nat.ne_zero_of_lt hle)
    rw [advance_succ_of_onwards hf ht, ih (Nat.le_of_succ_le_succ hle)]

/-! ## Under a limit -/

/-- A call that does not break its budget is the call without a limit. -/
theorem exists_runs_of_hitsLimit_eq_false {s : Scene} {budget : Nat}
    (h : (s.advance g limit budget []).hitsLimit = false) :
    ∃ n, n ≤ budget ∧ Runs g s n (s.advance g limit budget []) := by
  induction budget, s using advance_induction (g := g) with
  | ended budget s hf =>
    rw [advance_of_fetch_eq_none hf]
    exact ⟨0, Nat.zero_le _, .ended hf⟩
  | limited s s' step index hf =>
    rw [advance_zero hf] at h
    cases h
  | done budget s s' step index b hf ht =>
    rw [advance_of_done hf ht]
    exact ⟨1, Nat.succ_le_succ (Nat.zero_le _), .done hf ht⟩
  | onwards budget s s' s'' step index events hf ht ih =>
    rw [advance_succ_of_onwards hf ht, Burst.hitsLimit_after] at h
    obtain ⟨n, hle, hruns⟩ := ih h
    rw [advance_succ_of_onwards hf ht]
    exact ⟨n + 1, Nat.succ_le_succ hle, .onwards hf ht hruns⟩

/-- **A budget is broken by the calls that would fetch more steps.** -/
theorem hitsLimit_advance_iff {s : Scene} {budget : Nat} :
    (s.advance g limit budget []).hitsLimit = true ↔ Fetches g s (budget + 1) := by
  constructor
  · intro h
    obtain ⟨s₀, events, step, index, s₁, hsteps, hfetch, -⟩ := exists_steps_of_hitsLimit h
    clear h
    induction hsteps with
    | none => exact .one hfetch
    | one hf ht _ ih => exact .onwards hf ht (ih hfetch)
  · intro hfetches
    rw [← Bool.not_eq_false]
    intro h
    obtain ⟨n, hle, hruns⟩ := exists_runs_of_hitsLimit_eq_false h
    exact absurd (hruns.fetches_iff.mp hfetches) (by omega)

/-! ## The counter -/

/-- What a round of the loop leads to: the call is over, or it goes on with the counter. -/
inductive Round where
  | over (b : Burst)
  | again (counter : UInt64) (s : Scene) (events : List Event)

/-- One round: the next step is fetched, the counter goes up and is compared with the limit, and
then the step is taken. -/
def round (g : Graph) (limit counter : UInt64) (s : Scene) : Round :=
  match s.fetch g with
  | none => .over (.stop s.close [.dialogueEnded])
  | some (step, index, s') =>
    if limit < counter + 1 then .over (.fail s' [] (.stepLimit limit (s'.node?.getD "")))
    else
      match s'.take g step index with
      | .done b => .over b
      | .onwards s'' events => .again (counter + 1) s'' events

/-- From the scene and the counter, the loop ends with the burst. -/
inductive Loop (g : Graph) (limit : UInt64) : UInt64 → Scene → Burst → Prop
  | over {counter : UInt64} {s : Scene} {b : Burst} : s.round g limit counter = .over b →
      Loop g limit counter s b
  | again {counter counter' : UInt64} {s s' : Scene} {events : List Event} {b : Burst} :
      s.round g limit counter = .again counter' s' events → Loop g limit counter' s' b →
      Loop g limit counter s (b.after events)

/-- The loop of a call from the scene `s` starts a round with the counter and the scene. -/
inductive Counts (g : Graph) (limit : UInt64) (s : Scene) : UInt64 → Scene → Prop
  | start : Counts g limit s 0 s
  | again {counter counter' : UInt64} {s' s'' : Scene} {events : List Event} :
      Counts g limit s counter s' → s'.round g limit counter = .again counter' s'' events →
      Counts g limit s counter' s''

theorem round_eq_again {counter counter' : UInt64} {s s' : Scene} {events : List Event}
    (h : s.round g limit counter = .again counter' s' events) :
    counter' = counter + 1 ∧ counter + 1 ≤ limit ∧
      ∃ step index s₁, s.fetch g = some (step, index, s₁) ∧
        s₁.take g step index = .onwards s' events := by
  rw [round] at h
  split at h
  · cases h
  · next step index s₁ hf =>
    split at h
    · cases h
    · next hlimit =>
      split at h
      · cases h
      · next ht =>
        cases h
        exact ⟨rfl, UInt64.not_lt.mp hlimit, step, index, s₁, hf, ht⟩

/-- The counter stays within the limit, so it can go up by one once more. -/
theorem Counts.le {s s' : Scene} {counter : UInt64} (h : Counts g limit s counter s') :
    counter ≤ limit := by
  cases h with
  | start => exact UInt64.zero_le
  | again _ hround =>
    obtain ⟨rfl, hle, -⟩ := round_eq_again hround
    exact hle

/-- Below the largest word, one more is one more. -/
theorem toNat_add_one {counter : UInt64} (hmax : limit.toNat + 1 < UInt64.size)
    (hle : counter.toNat ≤ limit.toNat) : (counter + 1).toNat = counter.toNat + 1 := by
  rw [UInt64.toNat_add]
  exact Nat.mod_eq_of_lt (Nat.lt_of_le_of_lt (Nat.succ_le_succ hle) hmax)

/-- The counter goes over the limit when nothing of the budget is left. -/
theorem lt_counter_iff (hmax : limit.toNat + 1 < UInt64.size) {counter : UInt64} {budget : Nat}
    (hbudget : counter.toNat + budget = limit.toNat) : limit < counter + 1 ↔ budget = 0 := by
  rw [UInt64.lt_iff_toNat_lt, toNat_add_one hmax (by omega)]
  omega

theorem loop_iff_of_over {counter : UInt64} {s : Scene} {b b' : Burst}
    (h : s.round g limit counter = .over b') : Loop g limit counter s b ↔ b = b' := by
  constructor
  · rintro (hover | ⟨hagain, -⟩)
    · cases h.symm.trans hover
      rfl
    · cases h.symm.trans hagain
  · rintro rfl
    exact .over h

theorem loop_iff_of_again {counter counter' : UInt64} {s s' : Scene} {events : List Event}
    {b : Burst} (h : s.round g limit counter = .again counter' s' events) :
    Loop g limit counter s b ↔ ∃ b', Loop g limit counter' s' b' ∧ b = b'.after events := by
  constructor
  · rintro (hover | ⟨hagain, hloop⟩)
    · cases h.symm.trans hover
    · cases h.symm.trans hagain
      exact ⟨_, hloop, rfl⟩
  · rintro ⟨b', hloop, rfl⟩
    exact .again h hloop

/-- **The counter does what the budget does**: with the counter at the steps that have been taken
and a budget of those that are left. -/
theorem loop_iff (hmax : limit.toNat + 1 < UInt64.size) {counter : UInt64} {budget : Nat}
    {s : Scene} {b : Burst} (hbudget : counter.toNat + budget = limit.toNat) :
    Loop g limit counter s b ↔ b = s.advance g limit budget [] := by
  induction budget, s using advance_induction (g := g) generalizing counter b with
  | ended budget s hf =>
    rw [advance_of_fetch_eq_none hf]
    exact loop_iff_of_over (by rw [round, hf]; rfl)
  | limited s s' step index hf =>
    have hover : limit < counter + 1 := (lt_counter_iff hmax hbudget).mpr rfl
    rw [advance_zero hf]
    refine loop_iff_of_over ?_
    rw [round, hf]
    exact if_pos hover
  | done budget s s' step index b' hf ht =>
    have hwithin : ¬ limit < counter + 1 := mt (lt_counter_iff hmax hbudget).mp (Nat.succ_ne_zero _)
    rw [advance_of_done hf ht]
    refine loop_iff_of_over ?_
    simp only [round, hf, if_neg hwithin, ht]
    rfl
  | onwards budget s s' s'' step index events hf ht ih =>
    have hwithin : ¬ limit < counter + 1 := mt (lt_counter_iff hmax hbudget).mp (Nat.succ_ne_zero _)
    have hagain : s.round g limit counter = .again (counter + 1) s'' events := by
      simp only [round, hf, if_neg hwithin, ht]
    have hmore : (counter + 1).toNat + budget = limit.toNat := by
      rw [toNat_add_one hmax (by omega)]
      omega
    rw [loop_iff_of_again hagain, advance_succ_of_onwards hf ht]
    constructor
    · rintro ⟨b', hloop, rfl⟩
      rw [(ih hmore).mp hloop]
    · rintro rfl
      exact ⟨_, (ih hmore).mpr rfl, rfl⟩

end Scene

/-! ## Limits of a runner -/

/-- The runner with another step limit. -/
def Runner.withStepLimit (r : Runner) (limit : UInt64) : Runner :=
  { r with config := { r.config with stepLimit := limit } }

/-- The answer with another step limit of the runner. -/
def Answer.withStepLimit (a : Answer) (limit : UInt64) : Answer :=
  { a with runner := a.runner.withStepLimit limit }

/-- Whether the call has failed as it takes more steps than the limit. -/
def Answer.Exceeds (a : Answer) (limit : UInt64) : Prop :=
  ∃ node, a.fault = some (.stepLimit limit node)

/-- What a limit makes of going on from where the runner is, and what a limit that is no smaller
does. -/
structure Runner.LimitedBy (r : Runner) (limit limit' : UInt64) : Prop where
  /-- A call that the limit does not end is the same under the other limit. -/
  invisible : ¬ (r.withStepLimit limit).proceed.Exceeds limit →
    (r.withStepLimit limit').proceed = (r.withStepLimit limit).proceed.withStepLimit limit'
  /-- The limit ends the calls that would fetch more steps without it. With the largest word as
  limit this is said of the budget only, and not of the counter, which would overflow. -/
  exact : (r.withStepLimit limit).proceed.Exceeds limit ↔
    Scene.Fetches r.graph r.scene (limit.toNat + 1)
  /-- A call that comes to an end without a limit does so under each that is not too small. Here too
  the largest word as limit stands for a budget, and what the counter does is left open. -/
  ended : ∀ n b, Scene.Runs r.graph r.scene n b →
    ((r.withStepLimit limit).proceed.Exceeds limit ↔ limit.toNat < n) ∧
      (n ≤ limit.toNat → (r.withStepLimit limit).proceed = (r.withStepLimit limit).take b)
  /-- A call that goes on for ever without a limit is ended by each. With the largest word as limit
  it is the budget that ends it, since no counter gets past this limit. -/
  endless : (∀ n b, ¬ Scene.Runs r.graph r.scene n b) →
    (r.withStepLimit limit).proceed.Exceeds limit
  /-- The counter goes up to the limit and once more, which is more by one if the limit is not the
  largest word. -/
  counter : ∀ counter s, Scene.Counts r.graph limit r.scene counter s →
    counter ≤ limit ∧ (limit.toNat + 1 < UInt64.size → (counter + 1).toNat = counter.toNat + 1)
  /-- The loop with the counter ends with what the call gives. -/
  loop : limit.toNat + 1 < UInt64.size → ∀ b, Scene.Loop r.graph limit 0 r.scene b ↔
    b = r.scene.proceed r.graph limit

namespace Runner

variable {r : Runner} {limit : UInt64}

theorem proceed_withStepLimit (hoffer : r.scene.offer = none) (limit : UInt64) :
    (r.withStepLimit limit).proceed =
      (r.withStepLimit limit).take (r.scene.advance r.graph limit limit.toNat []) := by
  rw [← Scene.proceed_of_offer hoffer]
  rfl

/-- A call fails by its limit when its scene breaks the budget. -/
theorem exceeds_iff (hoffer : r.scene.offer = none) :
    (r.withStepLimit limit).proceed.Exceeds limit ↔
      (r.scene.advance r.graph limit limit.toNat []).hitsLimit = true := by
  rw [proceed_withStepLimit hoffer]
  constructor
  · rintro ⟨node, hfault⟩
    exact congrArg (Option.any RunFault.isStepLimit) hfault
  · intro hhits
    obtain ⟨s₀, events, step, index, s₁, -, -, heq⟩ := Scene.exists_steps_of_hitsLimit hhits
    exact ⟨_, congrArg Burst.fault heq⟩

/-- A call that keeps to its limit is the call without a limit. -/
theorem exists_runs_of_not_exceeds (hoffer : r.scene.offer = none)
    (h : ¬ (r.withStepLimit limit).proceed.Exceeds limit) :
    ∃ n b, Scene.Runs r.graph r.scene n b ∧ n ≤ limit.toNat := by
  rw [exceeds_iff hoffer, Bool.not_eq_true] at h
  obtain ⟨n, hle, hruns⟩ := Scene.exists_runs_of_hitsLimit_eq_false h
  exact ⟨n, _, hruns, hle⟩

theorem proceed_of_runs (hoffer : r.scene.offer = none) {n : Nat} {b : Burst}
    (h : Scene.Runs r.graph r.scene n b) (hle : n ≤ limit.toNat) :
    (r.withStepLimit limit).proceed = (r.withStepLimit limit).take b := by
  rw [proceed_withStepLimit hoffer, h.advance_eq hle]

/-- **The step limit is exact and makes no other difference.** -/
theorem limitedBy (hoffer : r.scene.offer = none) {limit' : UInt64} (hle : limit ≤ limit') :
    r.LimitedBy limit limit' := by
  have hexact : (r.withStepLimit limit).proceed.Exceeds limit ↔
      Scene.Fetches r.graph r.scene (limit.toNat + 1) :=
    (exceeds_iff hoffer).trans Scene.hitsLimit_advance_iff
  refine ⟨?invisible, hexact, ?ended, ?endless, ?counter, ?loop⟩
  case invisible =>
    intro h
    obtain ⟨n, b, hruns, hn⟩ := exists_runs_of_not_exceeds hoffer h
    rw [proceed_of_runs hoffer hruns hn,
      proceed_of_runs hoffer hruns (Nat.le_trans hn (UInt64.le_iff_toNat_le.mp hle))]
    rfl
  case ended =>
    intro n b hruns
    exact ⟨hexact.trans hruns.fetches_iff, proceed_of_runs hoffer hruns⟩
  case endless =>
    intro hendless
    refine Classical.byContradiction fun h => ?_
    obtain ⟨n, b, hruns, -⟩ := exists_runs_of_not_exceeds hoffer h
    exact hendless n b hruns
  case counter =>
    intro counter s hcounts
    exact ⟨hcounts.le, fun hmax => Scene.toNat_add_one hmax (UInt64.le_iff_toNat_le.mp hcounts.le)⟩
  case loop =>
    intro hmax b
    rw [Scene.proceed_of_offer hoffer]
    exact Scene.loop_iff hmax (Nat.zero_add _)

/-- Behind its first line the runner sets a variable and tells another line, for which one step is
too few. -/
theorem limitedBy_pausedRunner :
    (pausedRunner.scene.offer = none ∧ (1 : UInt64) ≤ 9) ∧ pausedRunner.LimitedBy 1 9 ∧
      (pausedRunner.withStepLimit 1).proceed.Exceeds 1 ∧
      Scene.Fetches pausedRunner.graph pausedRunner.scene 2 := by
  have hlimited : pausedRunner.LimitedBy 1 9 := limitedBy rfl (by decide)
  have hexceeds : (pausedRunner.withStepLimit 1).proceed.Exceeds 1 := ⟨"A", by decide⟩
  exact ⟨⟨rfl, by decide⟩, hlimited, hexceeds, hlimited.exact.mp hexceeds⟩

end Runner

end Dialogue
