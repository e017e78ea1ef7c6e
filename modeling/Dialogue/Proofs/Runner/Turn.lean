import Dialogue.Proofs.Outcome
import Dialogue.Runner.Scene

/-!
# One step at a time

`Scene.advance` takes steps in a loop. Here the loop is cut open: `Scene.take` says what one step
leads to, which is a `Turn`. Either the call goes on from another scene, or it is over.

What a turn can be is said once (`take_eq_done_cases`, `take_eq_onwards_cases`). The loop is then
four equations, one for each way a round can go: no step is left (`advance_of_fetch_eq_none`), the
budget is used up (`advance_zero`), the call is over (`advance_of_done`), or it goes on with a
smaller budget (`advance_of_onwards`). `advance_induction` is the induction over the rounds with
these four cases, and proofs about runs use it and do not unfold `advance`.
-/

namespace Dialogue

/-- The burst with some events before its own. -/
def Burst.after (events : List Event) (b : Burst) : Burst := { b with events := events ++ b.events }

/-- What a step leads to: the call goes on from a scene after some events, or it is over. -/
inductive Turn where
  | onwards (s : Scene) (events : List Event)
  | done (b : Burst)

namespace Burst

@[simp] theorem after_nil (b : Burst) : b.after [] = b := rfl

@[simp] theorem after_after (first second : List Event) (b : Burst) :
    (b.after second).after first = b.after (first ++ second) := by
  simp [after]

@[simp] theorem after_stop (first events : List Event) (s : Scene) :
    (Burst.stop s events).after first = .stop s (first ++ events) := rfl

@[simp] theorem after_fail (first events : List Event) (s : Scene) (e : RunFault) :
    (Burst.fail s events e).after first = .fail s (first ++ events) e := rfl

/-- The events in front can be taken off again. -/
theorem after_inj {events : List Event} {b c : Burst} (h : b.after events = c.after events) :
    b = c := by
  obtain ⟨s, told, fault⟩ := b
  obtain ⟨s', told', fault'⟩ := c
  simp only [after, mk.injEq, List.append_cancel_left_eq] at h ⊢
  exact h

end Burst

/-! ## Faults of conditions -/

theorem Store.fault_of_check {vars : Store} {condition : String} {e : RunFault}
    (h : vars.check condition = .error e) : ∃ text cause, e = .condition text cause := by
  rw [check] at h
  split at h
  · cases h
  · next cause _ =>
    cases h
    exact ⟨condition, cause, rfl⟩

theorem Entry.fault_of_isOffered {vars : Store} {entry : Entry} {e : RunFault}
    (h : entry.isOffered vars = .error e) : ∃ text cause, e = .condition text cause := by
  rw [isOffered] at h
  split at h
  · cases h
  · split at h
    · exact Store.fault_of_check (Outcome.map_eq_error_iff.mp h)
    · exact Store.fault_of_check h

/-- Where the entries of a choice cannot be offered, one of their conditions has failed. -/
theorem Entry.fault_of_offered {vars : Store} {entries : List Entry} {e : RunFault}
    (h : offered vars entries = .error e) : ∃ text cause, e = .condition text cause := by
  induction entries with
  | nil => cases h
  | cons entry rest ih =>
    rw [offered] at h
    split at h
    · next hentry =>
      cases h
      exact fault_of_isOffered hentry
    · exact ih (Outcome.map_eq_error_iff.mp h)

namespace Scene

variable {g : Graph} {limit : UInt64}

/-- What a step leads to that has just been fetched at a position. -/
def take (g : Graph) (s : Scene) (step : Step) (index : Nat) : Turn :=
  match step with
  | .line text _ => .done (.stop { s with justJumped := false } [.lineReady text])
  | .choice c => .done (s.present c)
  | .command c _ =>
    match s.execute g c with
    | ⟨s, events, some e⟩ => .done (.fail s events e)
    | ⟨s, events, none⟩ => .onwards s events
  | .branch condition _ _ _ =>
    match s.vars.check condition with
    | .error e => .done (.fail s [] e)
    | .ok holds => .onwards (s.enter index (if holds then .thenArm else .elseArm)) []

/-- The steps that end a call: a line, a choice, and a command or a branch that fails. -/
theorem take_eq_done_cases {s : Scene} {step : Step} {index : Nat} {b : Burst}
    (h : s.take g step index = .done b) :
    (∃ text span, step = .line text span ∧
      b = .stop { s with justJumped := false } [.lineReady text]) ∨
    (∃ c, step = .choice c ∧ b = s.present c) ∨
    (∃ c span s' events e, step = .command c span ∧ s.execute g c = ⟨s', events, some e⟩ ∧
      b = .fail s' events e) ∨
    (∃ condition thenSteps elseSteps span e, step = .branch condition thenSteps elseSteps span ∧
      s.vars.check condition = .error e ∧ b = .fail s [] e) := by
  cases step with
  | line text span =>
    cases h
    exact .inl ⟨text, span, rfl, rfl⟩
  | choice c =>
    cases h
    exact .inr (.inl ⟨c, rfl, rfl⟩)
  | command c span =>
    rw [take] at h
    split at h
    · next s' events e hexecute =>
      cases h
      exact .inr (.inr (.inl ⟨c, span, s', events, e, rfl, hexecute, rfl⟩))
    · cases h
  | branch condition thenSteps elseSteps span =>
    rw [take] at h
    split at h
    · next e hcheck =>
      cases h
      exact .inr (.inr (.inr ⟨condition, thenSteps, elseSteps, span, e, rfl, hcheck, rfl⟩))
    · cases h

/-- The steps behind which a call goes on: a command or a branch that does not fail. -/
theorem take_eq_onwards_cases {s s' : Scene} {step : Step} {index : Nat} {events : List Event}
    (h : s.take g step index = .onwards s' events) :
    (∃ c span, step = .command c span ∧ s.execute g c = .stop s' events) ∨
    (∃ condition thenSteps elseSteps span holds,
      step = .branch condition thenSteps elseSteps span ∧ s.vars.check condition = .ok holds ∧
      s' = s.enter index (if holds then .thenArm else .elseArm) ∧ events = []) := by
  cases step with
  | line text span => cases h
  | choice c => cases h
  | command c span =>
    rw [take] at h
    split at h
    · cases h
    · next s₁ told hexecute =>
      cases h
      exact .inl ⟨c, span, rfl, hexecute⟩
  | branch condition thenSteps elseSteps span =>
    rw [take] at h
    split at h
    · cases h
    · next holds hcheck =>
      cases h
      exact .inr ⟨condition, thenSteps, elseSteps, span, holds, rfl, hcheck, rfl, rfl⟩

/-! ## The rounds of a run -/

theorem advance_of_fetch_eq_none {s : Scene} (h : s.fetch g = none) (budget : Nat)
    (told : List Event) :
    s.advance g limit budget told = .stop s.close (told.reverse ++ [.dialogueEnded]) := by
  rw [advance.eq_def, h]

theorem advance_zero {s s' : Scene} {step : Step} {index : Nat}
    (h : s.fetch g = some (step, index, s')) (told : List Event) :
    s.advance g limit 0 told = .fail s' told.reverse (.stepLimit limit (s'.node?.getD "")) := by
  rw [advance, h]

theorem advance_of_done {s s' : Scene} {step : Step} {index : Nat} {b : Burst}
    (h : s.fetch g = some (step, index, s')) (hdone : s'.take g step index = .done b)
    (budget : Nat) (told : List Event) :
    s.advance g limit (budget + 1) told = b.after told.reverse := by
  rw [advance, h]
  rcases take_eq_done_cases hdone with ⟨text, span, rfl, rfl⟩ | ⟨c, rfl, rfl⟩ |
    ⟨c, span, s₁, events, e, rfl, hexecute, rfl⟩ |
    ⟨condition, thenSteps, elseSteps, span, e, rfl, hcheck, rfl⟩
  · rfl
  · rfl
  · simp only [hexecute, Burst.after_fail]
  · simp only [hcheck, Burst.after_fail, List.append_nil]

theorem advance_of_onwards {s s' s'' : Scene} {step : Step} {index : Nat} {events : List Event}
    (h : s.fetch g = some (step, index, s')) (honwards : s'.take g step index = .onwards s'' events)
    (budget : Nat) (told : List Event) :
    s.advance g limit (budget + 1) told = s''.advance g limit budget (events.reverse ++ told) := by
  rw [advance, h]
  rcases take_eq_onwards_cases honwards with ⟨c, span, rfl, hexecute⟩ |
    ⟨condition, thenSteps, elseSteps, span, holds, rfl, hcheck, rfl, rfl⟩
  · simp only [hexecute, Burst.stop]
  · simp only [hcheck, List.reverse_nil, List.nil_append]

/-- A run goes round by round. To prove something of every budget and scene it is enough to prove it
where no step is left, where a step is left but no budget, where a step ends the call, and, given
that it holds of what follows, where the call goes on. -/
@[elab_as_elim]
theorem advance_induction {motive : Nat → Scene → Prop}
    (ended : ∀ (budget : Nat) (s : Scene), s.fetch g = none → motive budget s)
    (limited : ∀ (s s' : Scene) (step : Step) (index : Nat),
      s.fetch g = some (step, index, s') → motive 0 s)
    (done : ∀ (budget : Nat) (s s' : Scene) (step : Step) (index : Nat) (b : Burst),
      s.fetch g = some (step, index, s') → s'.take g step index = .done b → motive (budget + 1) s)
    (onwards : ∀ (budget : Nat) (s s' s'' : Scene) (step : Step) (index : Nat)
      (events : List Event), s.fetch g = some (step, index, s') →
      s'.take g step index = .onwards s'' events → motive budget s'' → motive (budget + 1) s)
    (budget : Nat) (s : Scene) : motive budget s := by
  induction budget generalizing s with
  | zero =>
    cases hf : s.fetch g with
    | none => exact ended 0 s hf
    | some found => exact limited s found.2.2 found.1 found.2.1 hf
  | succ budget ih =>
    cases hf : s.fetch g with
    | none => exact ended (budget + 1) s hf
    | some found =>
      obtain ⟨step, index, s'⟩ := found
      cases ht : s'.take g step index with
      | done b => exact done budget s s' step index b hf ht
      | onwards s'' events => exact onwards budget s s' s'' step index events hf ht (ih s'')

/-- What was told before comes before everything else. -/
theorem advance_told (s : Scene) (budget : Nat) (told : List Event) :
    s.advance g limit budget told = (s.advance g limit budget []).after told.reverse := by
  induction budget, s using advance_induction (g := g) generalizing told with
  | ended budget s hf => simp [advance_of_fetch_eq_none hf]
  | limited s s' step index hf => simp [advance_zero hf]
  | done budget s s' step index b hf ht => simp [advance_of_done hf ht]
  | onwards budget s s' s'' step index events hf ht ih =>
    rw [advance_of_onwards hf ht, advance_of_onwards hf ht, ih (events.reverse ++ told),
      ih (events.reverse ++ [])]
    simp

/-- A call that goes on tells the events of its first step, and then does what is left to do. -/
theorem advance_succ_of_onwards {s s' s'' : Scene} {step : Step} {index : Nat} {events : List Event}
    (h : s.fetch g = some (step, index, s')) (honwards : s'.take g step index = .onwards s'' events)
    (budget : Nat) :
    s.advance g limit (budget + 1) [] = (s''.advance g limit budget []).after events := by
  rw [advance_of_onwards h honwards, advance_told]
  simp

/-! ## What a round leaves alone -/

theorem offer_of_fetch {s s' : Scene} {step : Step} {index : Nat}
    (h : s.fetch g = some (step, index, s')) : s'.offer = s.offer := by
  rw [fetch] at h
  split at h
  · cases h
  · obtain ⟨found, -, heq⟩ := Option.map_eq_some_iff.mp h
    cases heq
    rfl

/-- A jump moves the cursor, and no command makes an offer. -/
theorem offer_execute (s : Scene) (c : Command) : (s.execute g c).scene.offer = s.offer := by
  cases c with
  | set name v => rfl
  | jump target =>
    rw [execute, jump]
    cases g.get? target <;> rfl

/-- A call that goes on has made no offer. -/
theorem offer_of_onwards {s s' : Scene} {step : Step} {index : Nat} {events : List Event}
    (h : s.take g step index = .onwards s' events) : s'.offer = s.offer := by
  rcases take_eq_onwards_cases h with ⟨c, span, -, hexecute⟩ |
    ⟨condition, thenSteps, elseSteps, span, holds, -, -, rfl, -⟩
  · have hoffer := offer_execute (g := g) s c
    rw [hexecute] at hoffer
    exact hoffer
  · rfl

end Scene

end Dialogue
