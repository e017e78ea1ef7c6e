import Dialogue.Proofs.Graph.Within
import Dialogue.Proofs.Outcome

/-!
# The conditions of a graph

What a graph holds, as lists that can be computed: its steps at any depth (`Graph.allSteps`), the
texts that a step evaluates as conditions when it is run (`Step.evaluated`), and the folded names of
the variables that stand in them (`Graph.mentioned`).

For an entry whose condition starts with an exclamation mark, the text that is evaluated is the rest
of the condition; whether the entry is offered is the outcome of that text, turned round
(`Entry.isOffered_eq`). The value of an expression depends on its own variables only
(`Expr.eval_congr`).
-/

namespace Dialogue

/-! ## All steps -/

mutual
/-- The step, and the steps in its arms at any depth. -/
def Step.subtree : Step → List Step
  | .branch condition thenSteps elseSteps span =>
    .branch condition thenSteps elseSteps span ::
      (Step.forest thenSteps ++ Step.forest elseSteps)
  | .line text span => [.line text span]
  | .choice c => [.choice c]
  | .command c span => [.command c span]

/-- The steps of a list, and those in their arms at any depth. -/
def Step.forest : List Step → List Step
  | [] => []
  | s :: rest => s.subtree ++ Step.forest rest
end

namespace Step

theorem self_mem_subtree (s : Step) : s ∈ s.subtree := by
  cases s <;> exact List.mem_cons_self

theorem forest_arm_subset (s : Step) (arm : Arm) : forest (s.arm arm) ⊆ s.subtree := by
  intro step hstep
  cases s with
  | branch condition thenSteps elseSteps span =>
    rw [subtree]
    refine List.mem_cons_of_mem _ ?_
    cases arm with
    | thenArm => exact List.mem_append_left _ hstep
    | elseArm => exact List.mem_append_right _ hstep
  | _ => cases hstep

theorem subtree_subset_forest {s : Step} {steps : List Step} (h : s ∈ steps) :
    s.subtree ⊆ forest steps := by
  induction steps with
  | nil => cases h
  | cons t rest ih =>
    intro step hstep
    rw [forest]
    rcases List.mem_cons.mp h with rfl | h
    · exact List.mem_append_left _ hstep
    · exact List.mem_append_right _ (ih h hstep)

theorem mem_forest_of_within {step : Step} {steps : List Step} (h : step.Within steps) :
    step ∈ forest steps := by
  induction h with
  | here hmem => exact subtree_subset_forest hmem (self_mem_subtree step)
  | inArm arm hmem _ ih => exact subtree_subset_forest hmem (forest_arm_subset _ arm ih)

theorem Within.cons {step s : Step} {steps : List Step} (h : step.Within steps) :
    step.Within (s :: steps) := by
  cases h with
  | here hmem => exact .here (List.mem_cons_of_mem _ hmem)
  | inArm arm hmem h => exact .inArm arm (List.mem_cons_of_mem _ hmem) h

mutual
theorem within_of_mem_subtree {step : Step} : (s : Step) → step ∈ s.subtree → step.Within [s]
  | .line text span, h => by
    rw [subtree] at h
    exact .here h
  | .choice c, h => by
    rw [subtree] at h
    exact .here h
  | .command c span, h => by
    rw [subtree] at h
    exact .here h
  | .branch condition thenSteps elseSteps span, h => by
    rw [subtree] at h
    rcases List.mem_cons.mp h with rfl | h
    · exact .here List.mem_cons_self
    · rcases List.mem_append.mp h with h | h
      · exact .inArm .thenArm List.mem_cons_self (within_of_mem_forest thenSteps h)
      · exact .inArm .elseArm List.mem_cons_self (within_of_mem_forest elseSteps h)

theorem within_of_mem_forest {step : Step} : (steps : List Step) → step ∈ forest steps →
    step.Within steps
  | [], h => nomatch h
  | s :: rest, h => by
    rw [forest] at h
    rcases List.mem_append.mp h with h | h
    · cases within_of_mem_subtree s h with
      | here hmem =>
        cases List.mem_singleton.mp hmem
        exact .here List.mem_cons_self
      | inArm arm hmem h =>
        cases List.mem_singleton.mp hmem
        exact .inArm arm List.mem_cons_self h
    · exact (within_of_mem_forest rest h).cons
end

/-- The steps of a forest are those within the list. -/
theorem mem_forest_iff {step : Step} {steps : List Step} :
    step ∈ forest steps ↔ step.Within steps :=
  ⟨within_of_mem_forest steps, mem_forest_of_within⟩

end Step

/-- All steps that a graph holds. -/
def Graph.allSteps (g : Graph) : List Step := g.toList.flatMap fun n => Step.forest n.steps

theorem Graph.mem_allSteps_iff {g : Graph} {step : Step} : step ∈ g.allSteps ↔ g.Holds step := by
  simp only [allSteps, List.mem_flatMap, Step.mem_forest_iff, Holds]

/-! ## Conditions -/

/-- The text that is evaluated for the condition of an entry. -/
def Entry.evaluated (e : Entry) : Option String :=
  e.condition.map fun condition =>
    match Text.trim condition.toList with
    | '!' :: rest => String.ofList rest
    | _ => condition

/-- The texts that a step evaluates when it is run. -/
def Step.evaluated : Step → List String
  | .choice c => c.entries.filterMap Entry.evaluated
  | .branch condition _ _ _ => [condition]
  | .line _ _ => []
  | .command _ _ => []

namespace Entry

variable {e : Entry} {condition : String}

/-- With an exclamation mark in front, the rest of the condition is evaluated, and its outcome is
turned round. -/
theorem isOffered_of_bang {rest : List Char} (hc : e.condition = some condition)
    (hbang : Text.trim condition.toList = '!' :: rest) :
    e.evaluated = some (String.ofList rest) ∧
      ∀ vars : Store, e.isOffered vars = (vars.check (String.ofList rest)).map (!·) := by
  constructor
  · simp only [evaluated, hc, Option.map_some, hbang]
  · intro vars
    simp only [isOffered, hc, hbang]

/-- Without an exclamation mark in front, the condition is evaluated as it is written. -/
theorem isOffered_of_not_bang (hc : e.condition = some condition)
    (hbang : ∀ rest, Text.trim condition.toList ≠ '!' :: rest) :
    e.evaluated = some condition ∧ ∀ vars : Store, e.isOffered vars = vars.check condition := by
  constructor
  · rw [evaluated, hc, Option.map_some]
    split
    · next rest hrest => exact absurd hrest (hbang rest)
    · rfl
  · intro vars
    rw [isOffered, hc]
    dsimp only
    split
    · next rest hrest => exact absurd hrest (hbang rest)
    · rfl

/-- An entry without a condition is offered. Of any other one the text that is evaluated decides,
with its outcome taken as it is or turned round. -/
theorem isOffered_eq (e : Entry) : ∃ f : Bool → Bool, ∀ vars : Store,
    e.isOffered vars =
      match e.evaluated with
      | none => .ok true
      | some text => (vars.check text).map f := by
  cases hc : e.condition with
  | none => exact ⟨id, fun vars => by simp only [isOffered, evaluated, hc, Option.map_none]⟩
  | some condition =>
    by_cases hbang : ∃ rest, Text.trim condition.toList = '!' :: rest
    · obtain ⟨rest, hrest⟩ := hbang
      obtain ⟨hevaluated, hoffered⟩ := isOffered_of_bang hc hrest
      exact ⟨(!·), fun vars => by rw [hevaluated, hoffered]⟩
    · obtain ⟨hevaluated, hoffered⟩ := isOffered_of_not_bang hc (not_exists.mp hbang)
      refine ⟨id, fun vars => ?_⟩
      rw [hevaluated, hoffered]
      dsimp only
      cases vars.check condition <;> rfl

end Entry

/-! ## Variables -/

/-- The names of the variables of an expression, as written. -/
def Expr.variables : Expr → List String
  | .literal _ => []
  | .variable name => [name]
  | .not e => e.variables
  | .binary _ left right => left.variables ++ right.variables

/-- Stores that agree on the variables of an expression give it the same value, or the same
fault. -/
theorem Expr.eval_congr {s s' : Store} {e : Expr}
    (h : ∀ name ∈ e.variables, s'.read name = s.read name) : e.eval s' = e.eval s := by
  induction e with
  | literal v => rfl
  | «variable» name => rw [eval, eval, h name List.mem_cons_self]
  | not e ih => rw [eval, eval, ih h]
  | binary op left right ihl ihr =>
    obtain ⟨hl, hr⟩ := List.forall_mem_append.mp h
    cases op <;> simp only [eval, ihl hl, ihr hr]

/-- The variables of a condition; a text that cannot be read has none. -/
def Expr.variablesOf (text : String) : List String :=
  match ofText text.toList with
  | .ok e => e.variables
  | .error _ => []

/-- The folded names of the variables that stand in the conditions of a graph, as they are
evaluated. -/
def Graph.mentioned (g : Graph) : List String :=
  ((g.allSteps.flatMap Step.evaluated).flatMap Expr.variablesOf).map foldName

theorem Graph.mem_mentioned {g : Graph} {step : Step} {text name : String} (hstep : g.Holds step)
    (htext : text ∈ step.evaluated) (hname : name ∈ Expr.variablesOf text) :
    foldName name ∈ g.mentioned :=
  List.mem_map_of_mem (List.mem_flatMap_of_mem
    (List.mem_flatMap_of_mem (mem_allSteps_iff.mpr hstep) htext) hname)

/-- A condition has the same outcome over stores that agree on its variables. -/
theorem Store.check_congr {s s' : Store} {text : String}
    (h : ∀ name ∈ Expr.variablesOf text, s'.read name = s.read name) :
    s'.check text = s.check text := by
  have hholds : s'.holds text = s.holds text := by
    rw [holds, holds]
    rw [Expr.variablesOf] at h
    split
    · rfl
    · next e he =>
      rw [he] at h
      rw [Expr.eval_congr h]
  rw [check, check, hholds]

end Dialogue
