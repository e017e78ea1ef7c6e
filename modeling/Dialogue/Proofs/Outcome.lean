/-!
# Outcomes

An outcome is a result or a fault. The lemmas here say what `Except.map` makes of either, and when a
mapped outcome is a result or a fault.
-/

namespace Dialogue.Outcome

variable {ε α β : Type}

@[simp] theorem map_ok (f : α → β) (a : α) : (Except.ok a : Except ε α).map f = .ok (f a) := rfl

@[simp] theorem map_error (f : α → β) (e : ε) :
    (Except.error e : Except ε α).map f = .error e := rfl

/-- A mapped outcome is a result exactly when the outcome is one that is mapped to it. -/
theorem map_eq_ok_iff {f : α → β} {x : Except ε α} {b : β} :
    x.map f = .ok b ↔ ∃ a, x = .ok a ∧ f a = b := by
  cases x with
  | ok a => simp
  | error e => simp

/-- A mapped outcome is a fault exactly when the outcome is this fault. -/
theorem map_eq_error_iff {f : α → β} {x : Except ε α} {e : ε} :
    x.map f = .error e ↔ x = .error e := by
  cases x with
  | ok a => simp
  | error e' => simp

end Dialogue.Outcome
