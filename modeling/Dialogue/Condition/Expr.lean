import Dialogue.Value

/-!
# Expressions

A condition is an expression over literals and variables, with negation and eight binary operators.
The operators bind in four strengths, from `||` (weakest) to the comparisons of order; all of them
group to the left.
-/

namespace Dialogue

/-- The binary operators. -/
inductive BinaryOp where
  | or
  | and
  | eq
  | notEq
  | less
  | lessEq
  | greater
  | greaterEq
  deriving DecidableEq, Repr

namespace BinaryOp

/-- All operators, the weakest first. -/
def all : List BinaryOp := [.or, .and, .eq, .notEq, .less, .lessEq, .greater, .greaterEq]

/-- How strongly an operator binds its operands. -/
def strength : BinaryOp → Nat
  | .or => 1
  | .and => 2
  | .eq => 3
  | .notEq => 3
  | .less => 4
  | .lessEq => 4
  | .greater => 4
  | .greaterEq => 4

/-- How an operator is written. -/
def symbol : BinaryOp → String
  | .or => "||"
  | .and => "&&"
  | .eq => "=="
  | .notEq => "!="
  | .less => "<"
  | .lessEq => "<="
  | .greater => ">"
  | .greaterEq => ">="

/-- Every operator is in the list of all operators. -/
theorem mem_all (op : BinaryOp) : op ∈ all := by
  cases op <;> decide

end BinaryOp

/-- A condition. -/
inductive Expr where
  | literal (v : Value)
  | variable (name : String)
  | not (e : Expr)
  | binary (op : BinaryOp) (left right : Expr)
  deriving DecidableEq, Repr

end Dialogue
