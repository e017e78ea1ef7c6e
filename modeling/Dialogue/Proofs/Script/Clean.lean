import Dialogue.Proofs.Condition.Negated
import Dialogue.Proofs.Graph.Conditions
import Dialogue.Proofs.Script.Provenance

/-!
# Clean graphs

A graph is *clean* when three things that reading a script does not check hold of it: every jump has
a target in the graph, every choice has an entry without a condition, and every condition can be
read and compares nothing by order. All three can be computed.

Reading a script gives more: the default option of a choice is its first one, and the conditions of
entries are trimmed (`Graph.regular_of_ofText`). So in a clean graph that is read from a script
every condition has an outcome over every store (`Clean.exists_check`), and every choice has
something to offer (`Clean.exists_offered`).
-/

namespace Dialogue

/-! ## What a script gives -/

/-- The first option is the default, and the conditions of the entries are trimmed. -/
structure Choice.Regular (c : Choice) : Prop where
  default : c.defaultOption = 0
  trimmed : ∀ e ∈ c.entries, ∀ condition ∈ e.condition, Text.Trimmed condition.toList

/-- The condition of an entry is what trimming leaves of the inside of its tag, and not empty. -/
theorem EntryText.exists_trim_of_ofText {cs : List Char} {e : EntryText} (h : ofText cs = .ok e) :
    ∀ condition ∈ e.condition, ∃ inner, condition = Text.trim inner ∧ Text.trim inner ≠ [] := by
  obtain ⟨afterIf, afterTime, inner, inner', -, -, -, hread, -⟩ := ofText_eq_ok h
  intro condition hcondition
  rw [readCondition.eq_def] at hread
  split at hread
  · rw [← Except.ok.inj hread] at hcondition
    cases hcondition
  · next inner =>
    dsimp only at hread
    split at hread
    · cases hread
    · next hne =>
      rw [← Except.ok.inj hread] at hcondition
      cases hcondition
      exact ⟨inner, rfl, hne⟩

theorem Choice.ComesFrom.regular {lines : List (String × Nat)} {texts : List EntryText} {c : Choice}
    (h : c.ComesFrom lines texts) : c.Regular := by
  refine ⟨h.default, fun e he condition hcondition => ?_⟩
  obtain ⟨text, -, hentry⟩ := exists_of_forall₂ h.entries he
  obtain ⟨line, -, before, rest, -, hread, -⟩ := hentry.line
  rw [hentry.condition] at hcondition
  obtain ⟨own, hown, rfl⟩ := Option.map_eq_some_iff.mp hcondition
  rw [String.toList_ofList]
  obtain ⟨inner, rfl, -⟩ := EntryText.exists_trim_of_ofText hread own hown
  exact Text.trim_trim inner

/-- **The choices of a script are regular.** -/
theorem Graph.regular_of_ofText {name text : String} {g : Graph} (h : ofText name text = .ok g)
    {c : Choice} (hc : g.Holds (.choice c)) : c.Regular := by
  cases (comesFrom_of_ofText h).of_holds hc with
  | choice hchoice => exact hchoice.regular

/-! ## Clean graphs -/

/-- The text can be read as an expression that compares nothing by order. -/
def OrderFree (text : String) : Prop := ∃ e, Expr.ofText text.toList = .ok e ∧ e.isOrderFree = true

namespace Step

/-- The commands of a step: its own, or those of its entries. -/
def commands : Step → List Command
  | .command c _ => [c]
  | .choice c => c.entries.flatMap Entry.commands
  | .line _ _ => []
  | .branch _ _ _ _ => []

/-- The conditions of a step as they are written: its own, or those of its entries. -/
def conditions : Step → List String
  | .branch condition _ _ _ => [condition]
  | .choice c => c.entries.filterMap Entry.condition
  | .line _ _ => []
  | .command _ _ => []

end Step

/-- The commands jump to nodes of the graph only. -/
def Graph.Lands (g : Graph) (commands : List Command) : Prop :=
  ∀ target, .jump target ∈ commands → g.contains target = true

/-- Every jump lands in the graph, every choice has an entry without a condition, and every
condition can be read and compares nothing by order. -/
structure Graph.Clean (g : Graph) : Prop where
  lands : ∀ step, g.Holds step → g.Lands step.commands
  unconditional : ∀ c, g.Holds (.choice c) → ∃ e ∈ c.entries, e.condition = none
  orderFree : ∀ step, g.Holds step → ∀ text ∈ step.conditions, OrderFree text

/-! ### Computing it -/

/-- Whether a text can be read as an expression that compares nothing by order. -/
def isOrderFree (text : String) : Bool :=
  match Expr.ofText text.toList with
  | .ok e => e.isOrderFree
  | .error _ => false

/-- Whether a command leads out of a graph. -/
def Command.leaves (g : Graph) : Command → Bool
  | .jump target => !g.contains target
  | .set _ _ => false

namespace Step

/-- Whether a step is a choice with conditions on all of its entries. -/
def isGuarded : Step → Bool
  | .choice c => c.entries.all fun e => e.condition.isSome
  | _ => false

/-- Whether nothing is wrong with a step of a graph. -/
def isClean (g : Graph) (s : Step) : Bool :=
  !s.commands.any (Command.leaves g) && !s.isGuarded && s.conditions.all Dialogue.isOrderFree

end Step

theorem isOrderFree_iff {text : String} : isOrderFree text = true ↔ OrderFree text := by
  rw [isOrderFree, OrderFree]
  cases Expr.ofText text.toList with
  | ok e => simp
  | error e => simp

theorem Graph.lands_iff {g : Graph} {commands : List Command} :
    commands.any (Command.leaves g) = false ↔ g.Lands commands := by
  rw [List.any_eq_false, Lands]
  constructor
  · intro h target htarget
    simpa [Command.leaves] using h _ htarget
  · intro h c hc
    cases c with
    | jump target => simp [Command.leaves, h target hc]
    | set name v => simp [Command.leaves]

/-- Whether a graph is clean can be computed. -/
theorem Graph.clean_iff {g : Graph} : g.Clean ↔ g.allSteps.all (Step.isClean g) = true := by
  simp only [List.all_eq_true, mem_allSteps_iff, Step.isClean, Bool.and_eq_true, Bool.not_eq_true',
    lands_iff, isOrderFree_iff]
  constructor
  · rintro ⟨hlands, hunconditional, horder⟩ step hstep
    refine ⟨⟨hlands step hstep, ?_⟩, horder step hstep⟩
    cases step with
    | choice c =>
      obtain ⟨e, he, hnone⟩ := hunconditional c hstep
      exact List.all_eq_false.mpr ⟨e, he, by simp [hnone]⟩
    | _ => rfl
  · intro h
    refine ⟨fun step hstep => (h step hstep).1.1, fun c hc => ?_,
      fun step hstep => (h step hstep).2⟩
    obtain ⟨e, he, hnone⟩ := List.all_eq_false.mp (h _ hc).1.2
    exact ⟨e, he, by simpa using hnone⟩

instance (g : Graph) : Decidable g.Clean := decidable_of_iff _ Graph.clean_iff.symm

/-! ## Conditions with an outcome -/

theorem OrderFree.exists_check {text : String} (h : OrderFree text) (vars : Store) :
    ∃ b, vars.check text = .ok b := by
  obtain ⟨e, he, hfree⟩ := h
  obtain ⟨v, hv⟩ := Expr.exists_eval_of_isOrderFree hfree vars
  exact ⟨v.isTruthy, by simp [Store.check, Store.holds, he, hv]⟩

/-- The exclamation mark at the front of a trimmed condition may be taken off. -/
theorem OrderFree.of_bang {condition : String} {rest : List Char} (h : OrderFree condition)
    (htrimmed : Text.Trimmed condition.toList)
    (hbang : Text.trim condition.toList = '!' :: rest) : OrderFree (String.ofList rest) := by
  obtain ⟨e, he, hfree⟩ := h
  rw [← htrimmed.eq, hbang] at he
  refine ⟨e.unnegated, ?_, Expr.isOrderFree_unnegated hfree⟩
  rw [String.toList_ofList]
  exact Expr.ofText_of_bang he

/-- Whether an entry is offered has an outcome. -/
theorem Entry.exists_isOffered {e : Entry} (horder : ∀ c ∈ e.condition, OrderFree c)
    (htrimmed : ∀ c ∈ e.condition, Text.Trimmed c.toList) (vars : Store) :
    ∃ b, e.isOffered vars = .ok b := by
  cases hc : e.condition with
  | none => exact ⟨true, by rw [isOffered, hc]⟩
  | some condition =>
    by_cases hbang : ∃ rest, Text.trim condition.toList = '!' :: rest
    · obtain ⟨rest, hrest⟩ := hbang
      have hfree := (horder condition hc).of_bang (htrimmed condition hc) hrest
      obtain ⟨b, hb⟩ := hfree.exists_check vars
      exact ⟨!b, by rw [(isOffered_of_bang hc hrest).2, hb]; rfl⟩
    · obtain ⟨b, hb⟩ := (horder condition hc).exists_check vars
      exact ⟨b, by rw [(isOffered_of_not_bang hc (not_exists.mp hbang)).2, hb]⟩

/-- A list of entries whose conditions have outcomes can be offered. -/
theorem Entry.exists_offered {entries : List Entry} {vars : Store}
    (h : ∀ e ∈ entries, ∃ b, e.isOffered vars = .ok b) :
    ∃ shown, Entry.offered vars entries = .ok shown ∧
      ∀ e ∈ entries, e.condition = none → e ∈ shown := by
  induction entries with
  | nil => exact ⟨[], rfl, fun _ he => nomatch he⟩
  | cons e rest ih =>
    obtain ⟨⟨b, hb⟩, hrest⟩ := List.forall_mem_cons.mp h
    obtain ⟨shown, hshown, hfree⟩ := ih hrest
    refine ⟨if b then e :: shown else shown, by rw [offered, hb, hshown]; rfl, ?_⟩
    intro e' he' hnone
    rcases List.mem_cons.mp he' with rfl | he'
    · have htrue : b = true := by
        rw [isOffered, hnone] at hb
        cases hb
        rfl
      rw [if_pos htrue]
      exact List.mem_cons_self
    · split
      · exact List.mem_cons_of_mem _ (hfree e' he' hnone)
      · exact hfree e' he' hnone

namespace Graph.Clean

variable {g : Graph}

/-- A clean choice that is regular has something to offer, whatever the variables are. -/
theorem exists_offered (hg : g.Clean) {c : Choice} (hc : g.Holds (.choice c)) (hregular : c.Regular)
    (vars : Store) : ∃ shown, Entry.offered vars c.entries = .ok shown ∧ shown ≠ [] := by
  have hentries : ∀ e ∈ c.entries, ∃ b, e.isOffered vars = .ok b := by
    intro e he
    refine Entry.exists_isOffered (fun condition hcondition => ?_) (hregular.trimmed e he) vars
    exact hg.orderFree _ hc condition (List.mem_filterMap.mpr ⟨e, he, hcondition⟩)
  obtain ⟨shown, hshown, hfree⟩ := Entry.exists_offered hentries
  obtain ⟨e, he, hnone⟩ := hg.unconditional c hc
  exact ⟨shown, hshown, List.ne_nil_of_mem (hfree e he hnone)⟩

end Graph.Clean

end Dialogue
