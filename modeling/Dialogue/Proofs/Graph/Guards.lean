import Dialogue.Proofs.Condition.Blanks
import Dialogue.Proofs.Graph.Conditions

/-!
# Conditions of entries and of branches

A branch evaluates its condition as it is written. An entry does the same, unless the condition
starts with an exclamation mark: then the mark is taken off the text, the rest is read and evaluated
for itself, and the outcome is turned round. So in a condition of an entry the mark reaches over
everything behind it, where the grammar gives it the leftmost operand alone.

The two readings meet in the tree: the rest holds the same expression with the negation at its left
end taken off (`Expr.ofText_of_bang`). They have the same outcome whenever nothing stands outside of
that negation (`Store.holds_of_not`), and otherwise an operator does
(`Expr.eq_not_or_binary_of_leftmost`).
-/

namespace Dialogue

/-! ## The left end of an expression -/

namespace Expr

/-- The operand at the left end of an expression: what is left when operators are taken off with
their right operands. -/
def leftmost : Expr → Expr
  | .binary _ left _ => left.leftmost
  | .not e => .not e
  | .literal v => .literal v
  | .variable name => .variable name

/-- With a negation at its left end an expression is this negation, or an operator stands outside of
it. -/
theorem eq_not_or_binary_of_leftmost {e operand : Expr} (h : e.leftmost = .not operand) :
    e = .not operand ∨
      ∃ op left right, e = .binary op left right ∧ left.leftmost = .not operand := by
  cases e with
  | literal v => cases h
  | «variable» name => cases h
  | not e => exact .inl h
  | binary op left right => exact .inr ⟨op, left, right, rfl, h⟩

end Expr

/-- What is derived behind an exclamation mark has a negation at its left end. -/
theorem Derives.exists_leftmost {n : Nat} {level : Level} {ts : List Token} {e : Expr}
    (h : Derives n level (.bang :: ts) e) : ∃ operand, e.leftmost = .not operand := by
  generalize hus : Token.bang :: ts = us at h
  induction h generalizing ts with
  | binary hl _ ihl _ =>
    obtain ⟨token, l, rfl, -⟩ := hl.exists_head
    cases hus
    exact ihl rfl
  | tighter _ ih => exact ih hus
  | not _ _ => exact ⟨_, rfl⟩
  | literal v => cases hus
  | name x => cases hus
  | paren _ _ => cases hus

/-! ## Outcomes of conditions -/

namespace Store

variable {s : Store} {condition : String}

/-- A negation holds when its operand does not, and has no value when its operand has none. -/
theorem holds_of_not {rest : String} {operand : Expr}
    (h : Expr.ofText condition.toList = .ok (.not operand))
    (hrest : Expr.ofText rest.toList = .ok operand) :
    s.holds condition = (s.holds rest).map (!·) := by
  rw [holds_of_ofText h, holds_of_ofText hrest, Expr.eval]
  cases operand.eval s <;> rfl

theorem check_eq (s : Store) (condition : String) :
    s.check condition = (s.holds condition).mapError (.condition condition) := by
  rw [check]
  cases s.holds condition <;> rfl

end Store

/-! ## Entries -/

/-- The entry goes with an outcome: it is offered if this is true, it is not if this is false, and
it fails if this is a fault, with the fault as the cause. -/
def Entry.GoesWith (entry : Entry) (s : Store) (outcome : Except ConditionFault Bool) : Prop :=
  ∃ text, entry.isOffered s = outcome.mapError (.condition text)

namespace Entry

variable {entry : Entry} {condition : String}

/-- Without an exclamation mark in front, an entry goes with its condition. -/
theorem goesWith_of_not_bang (hc : entry.condition = some condition)
    (hbang : ∀ rest, Text.trim condition.toList ≠ '!' :: rest) (s : Store) :
    entry.GoesWith s (s.holds condition) :=
  ⟨condition, by rw [(isOffered_of_not_bang hc hbang).2, Store.check_eq]⟩

/-- With an exclamation mark in front, an entry goes against the rest of its condition. -/
theorem goesWith_of_bang {rest : List Char} (hc : entry.condition = some condition)
    (hbang : Text.trim condition.toList = '!' :: rest) (s : Store) :
    entry.GoesWith s ((s.holds (String.ofList rest)).map (!·)) := by
  refine ⟨String.ofList rest, ?_⟩
  rw [(isOffered_of_bang hc hbang).2, Store.check_eq]
  cases s.holds (String.ofList rest) <;> rfl

end Entry

/-- The rest behind an exclamation mark, blanks around the condition aside, holds the expression of
the condition with the negation at its left end taken off. -/
theorem Expr.ofText_of_trim_bang {cs rest : List Char} {e : Expr} (h : ofText cs = .ok e)
    (hbang : Text.trim cs = '!' :: rest) :
    (∃ operand, e.leftmost = .not operand) ∧ ofText rest = .ok e.unnegated := by
  rw [← ofText_trim_eq_ok_iff, hbang] at h
  obtain ⟨ts, -, hder⟩ := exists_derives_of_bang h
  exact ⟨hder.exists_leftmost, ofText_of_bang h⟩

/-- **A condition means the same for an entry and for a branch, up to the reach of an exclamation
mark in front.** An entry goes with a condition that does not start with a mark. Behind a mark the
rest can be read, as the expression with the negation at its left end taken off, and the entry goes
against the outcome of the rest. That is the outcome of the condition itself when the expression is
a negation. So an entry and a branch differ only where an operator stands outside of the
negation. -/
theorem Entry.goesWith_of_ofText {entry : Entry} {condition : String} {e : Expr}
    (hc : entry.condition = some condition) (he : Expr.ofText condition.toList = .ok e)
    (s : Store) :
    ((∀ rest, Text.trim condition.toList ≠ '!' :: rest) → entry.GoesWith s (s.holds condition)) ∧
    (∀ rest, Text.trim condition.toList = '!' :: rest →
      (∃ operand, e.leftmost = .not operand) ∧ Expr.ofText rest = .ok e.unnegated ∧
      entry.GoesWith s ((s.holds (String.ofList rest)).map (!·)) ∧
      ∀ operand, e = .not operand →
        s.holds condition = (s.holds (String.ofList rest)).map (!·)) ∧
    (¬ entry.GoesWith s (s.holds condition) →
      ∃ rest op left right operand, Text.trim condition.toList = '!' :: rest ∧
        e = .binary op left right ∧ left.leftmost = .not operand) := by
  have hnegation : ∀ rest, Text.trim condition.toList = '!' :: rest → ∀ operand, e = .not operand →
      s.holds condition = (s.holds (String.ofList rest)).map (!·) := by
    rintro rest hrest operand rfl
    refine Store.holds_of_not he ?_
    rw [String.toList_ofList]
    exact (Expr.ofText_of_trim_bang he hrest).2
  refine ⟨fun hbang => goesWith_of_not_bang hc hbang s, fun rest hrest => ?_, fun hdiffer => ?_⟩
  · obtain ⟨hleftmost, hunnegated⟩ := Expr.ofText_of_trim_bang he hrest
    exact ⟨hleftmost, hunnegated, goesWith_of_bang hc hrest s, hnegation rest hrest⟩
  · by_cases hbang : ∃ rest, Text.trim condition.toList = '!' :: rest
    · obtain ⟨rest, hrest⟩ := hbang
      obtain ⟨⟨operand, hleftmost⟩, -⟩ := Expr.ofText_of_trim_bang he hrest
      rcases Expr.eq_not_or_binary_of_leftmost hleftmost with
        hnot | ⟨op, left, right, hbinary, hleft⟩
      · refine absurd ?_ hdiffer
        rw [hnegation rest hrest operand hnot]
        exact goesWith_of_bang hc hrest s
      · exact ⟨rest, op, left, right, operand, hrest, hbinary, hleft⟩
    · exact absurd (goesWith_of_not_bang hc (not_exists.mp hbang) s) hdiffer

/-- In front of the comparison `!a == b` the mark makes a branch compare the negation of `a`, and an
entry turn the comparison round. -/
theorem Entry.goesWith_of_ofText_negated_comparison :
    let entry : Entry := ⟨"Leave.", some " !a == b", [], ⟨2, 4, 22⟩⟩
    let e : Expr := .binary .eq (.not (.variable "a")) (.variable "b")
    Expr.ofText " !a == b".toList = .ok e ∧ Text.trim " !a == b".toList = '!' :: "a == b".toList ∧
      Expr.ofText "a == b".toList = .ok (.binary .eq (.variable "a") (.variable "b")) ∧
      ∀ s, entry.GoesWith s ((s.holds "a == b").map (!·)) := by
  intro entry e
  have ha : Spells ['a'] (.name "a") := .of_isLetter (by decide)
  have hb : Spells ['b'] (.name "b") := .of_isLetter (by decide)
  have hspelled : e.Spelled (fun _ => []) := ⟨ha, hb⟩
  have hwritten : e.Written "!a == b".toList := Expr.written_render hspelled
  have htrim : Text.trim " !a == b".toList = "!a == b".toList := by decide
  have he : Expr.ofText " !a == b".toList = .ok e := by
    rw [← Expr.ofText_trim_eq_ok_iff, htrim]
    exact Expr.ofText_of_written hwritten (by decide)
  have hgoes := fun s => (@Entry.goesWith_of_ofText entry _ _ rfl he s).2.1 _ htrim
  exact ⟨he, htrim, (hgoes .empty).2.1, fun s => (hgoes s).2.2.1⟩

end Dialogue
