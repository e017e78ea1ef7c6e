import Dialogue.Condition.Token

/-!
# The grammar of conditions

The grammar is stratified: one level for each strength of the operators, and two more for negations
and for what stands between operators.

    or      ::= or '||' and | and
    and     ::= and '&&' eq | eq
    eq      ::= eq ('==' | '!=') order | order
    order   ::= order ('<' | '<=' | '>' | '>=') unary | unary
    unary   ::= '!' unary | primary
    primary ::= literal | name | '(' or ')'

`Derives n level ts e` says that the tokens `ts` derive the tree `e` from `level` with at most `n`
parentheses and negations around any place. It speaks of a list of tokens and knows of no reader.
-/

namespace Dialogue

/-! ## Levels -/

/-- The levels of the grammar, the weakest first. -/
inductive Level where
  | or
  | and
  | eq
  | order
  | unary
  | primary
  deriving DecidableEq, Repr

namespace Level

/-- The next level, whose expressions hold together more tightly. Nothing is tighter than a primary
expression. -/
def tighter : Level → Level
  | .or => .and
  | .and => .eq
  | .eq => .order
  | .order => .unary
  | .unary => .primary
  | .primary => .primary

/-- The strength of the operators of a level. The levels without operators go on counting. -/
def strength : Level → Nat
  | .or => 1
  | .and => 2
  | .eq => 3
  | .order => 4
  | .unary => 5
  | .primary => 6

theorem strength_tighter {level : Level} (h : level.strength < 6) :
    level.tighter.strength = level.strength + 1 := by
  cases level <;> first | rfl | exact absurd h (by decide)

theorem strength_le_six (level : Level) : level.strength ≤ 6 := by
  cases level <;> decide

theorem strength_or_le (level : Level) : Level.or.strength ≤ level.strength := by
  cases level <;> decide

theorem eq_of_strength_eq {level level' : Level} (h : level.strength = level'.strength) :
    level = level' := by
  cases level <;> cases level' <;> first | rfl | exact absurd h (by decide)

end Level

namespace BinaryOp

/-- The level of the grammar at which an operator stands. -/
def level : BinaryOp → Level
  | .or => .or
  | .and => .and
  | .eq => .eq
  | .notEq => .eq
  | .less => .order
  | .lessEq => .order
  | .greater => .order
  | .greaterEq => .order

@[simp] theorem strength_level (op : BinaryOp) : op.level.strength = op.strength := by
  cases op <;> rfl

theorem strength_le_four (op : BinaryOp) : op.strength ≤ 4 := by
  cases op <;> decide

@[simp] theorem strength_tighter_level (op : BinaryOp) :
    op.level.tighter.strength = op.strength + 1 := by
  have := op.strength_le_four
  rw [Level.strength_tighter (by rw [strength_level]; omega), strength_level]

end BinaryOp

/-! ## Derivations -/

/-- The tokens `ts` derive the tree `e` from `level`, and no place is inside more than `n`
parentheses and negations. The left operand of an operator is of the operator's own level and the
right one of the next, so operators of one level group to the left. -/
inductive Derives : Nat → Level → List Token → Expr → Prop where
  | binary {n : Nat} {op : BinaryOp} {l r : List Token} {a b : Expr} :
      Derives n op.level l a → Derives n op.level.tighter r b →
      Derives n op.level (l ++ .operator op :: r) (.binary op a b)
  | tighter {n : Nat} {level : Level} {ts : List Token} {e : Expr} :
      Derives n level.tighter ts e → Derives n level ts e
  | not {n : Nat} {ts : List Token} {e : Expr} :
      Derives n .unary ts e → Derives (n + 1) .unary (.bang :: ts) (.not e)
  | literal {n : Nat} (v : Value) : Derives n .primary [.literal v] (.literal v)
  | name {n : Nat} (x : String) : Derives n .primary [.name x] (.variable x)
  | paren {n : Nat} {ts : List Token} {e : Expr} :
      Derives n .or ts e → Derives (n + 1) .primary (.openParen :: ts ++ [.closeParen]) e

/-- What a tight level derives, every weaker level derives. -/
theorem Derives.of_strength_le {n : Nat} {level : Level} {ts : List Token} {e : Expr}
    (h : Derives n level ts e) (weak : Level) (hle : weak.strength ≤ level.strength) :
    Derives n weak ts e := by
  by_cases heq : weak = level
  · subst heq
    exact h
  · have hlt : weak.strength < level.strength := by
      have hne := mt Level.eq_of_strength_eq heq
      omega
    have hstep := Level.strength_tighter (Nat.lt_of_lt_of_le hlt level.strength_le_six)
    -- One rule takes `weak` a level up, towards the level of the derivation.
    exact .tighter (h.of_strength_le _ (by omega))
termination_by level.strength - weak.strength

end Dialogue
