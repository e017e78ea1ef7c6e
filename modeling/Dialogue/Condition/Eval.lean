import Dialogue.Condition.Parser
import Dialogue.Store

/-!
# Evaluating conditions

An expression is evaluated over a store from left to right. `&&` and `||` look at their right
operand only when the left one does not decide, and give a Boolean. A comparison of order needs two
operands that count as numbers, and is the only way for an evaluation to fail.
-/

namespace Dialogue

/-- What a comparison of order makes of two numbers; the other operators compare nothing. -/
def BinaryOp.compare : BinaryOp → Float → Float → Bool
  | .less, x, y => decide (x < y)
  | .lessEq, x, y => decide (x ≤ y)
  | .greater, x, y => decide (y < x)
  | .greaterEq, x, y => decide (y ≤ x)
  | _, _, _ => false

namespace Expr

/-- The outcome of a comparison of order. -/
def compareOrder (op : BinaryOp) (a b : Value) : Except ConditionFault Value :=
  match a.asNumber?, b.asNumber? with
  | some x, some y => .ok (.bool (op.compare x y))
  | _, _ => .error (.notComparable op a.kind b.kind)

/-- What an operator other than `&&` and `||` makes of the values of its operands. -/
def combine (op : BinaryOp) (a b : Value) : Except ConditionFault Value :=
  match op with
  | .eq => .ok (.bool (a.looseEq b))
  | .notEq => .ok (.bool (!a.looseEq b))
  | op => compareOrder op a b

/-- The value of an expression over a store. -/
def eval (s : Store) : Expr → Except ConditionFault Value
  | .literal v => .ok v
  | .variable name => .ok (s.read name)
  | .not e => (e.eval s).map fun v => .bool (!v.isTruthy)
  | .binary .and left right =>
    match left.eval s with
    | .error e => .error e
    | .ok a =>
      if a.isTruthy then (right.eval s).map fun b => .bool b.isTruthy else .ok (.bool false)
  | .binary .or left right =>
    match left.eval s with
    | .error e => .error e
    | .ok a => if a.isTruthy then .ok (.bool true) else (right.eval s).map fun b => .bool b.isTruthy
  | .binary op left right =>
    match left.eval s with
    | .error e => .error e
    | .ok a =>
      match right.eval s with
      | .error e => .error e
      | .ok b => combine op a b

end Expr

/-- Whether a condition holds over a store: its text is read and evaluated, and the value counts as
`Value.isTruthy` says. A blank condition holds. -/
def Store.holds (s : Store) (condition : String) : Except ConditionFault Bool :=
  match Expr.ofText condition.toList with
  | .error e => .error e
  | .ok e => (e.eval s).map Value.isTruthy

theorem Store.holds_of_ofText {s : Store} {condition : String} {e : Expr}
    (h : Expr.ofText condition.toList = .ok e) :
    s.holds condition = (e.eval s).map Value.isTruthy := by
  rw [holds, h]

end Dialogue
