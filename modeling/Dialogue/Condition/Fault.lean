import Dialogue.Condition.Token

/-!
# Faults of conditions

What can be wrong with a condition: with its characters, with the order of its tokens, with its
depth, or, when it is evaluated, with the kinds of two values that are compared by order. Positions
count characters from zero.
-/

namespace Dialogue

/-- A reason why a condition has no value. -/
inductive ConditionFault where
  | unexpectedCharacter (c : Char) (pos : Nat)
  | unterminatedString (pos : Nat)
  | invalidNumber (text : String) (pos : Nat)
  | unknownOperator (c : Char) (pos : Nat)
  | unexpectedToken (found : Token) (pos : Nat)
  | trailingToken (found : Token) (pos : Nat)
  | tooDeep (limit : Nat) (pos : Nat)
  | notComparable (op : BinaryOp) (left right : Value.Kind)
  deriving DecidableEq, Repr

/-- The wording of a fault. -/
def ConditionFault.message : ConditionFault → String
  | .unexpectedCharacter c pos =>
    "unexpected character '" ++ c.toString ++ "' at position " ++ toString pos
  | .unterminatedString pos =>
    "unterminated string literal starting at position " ++ toString pos
  | .invalidNumber text pos =>
    "invalid number literal '" ++ text ++ "' at position " ++ toString pos
  | .unknownOperator c pos =>
    "unknown operator '" ++ c.toString ++ "' at position " ++ toString pos
  | .unexpectedToken found pos =>
    "unexpected token " ++ found.describe ++ " at position " ++ toString pos
  | .trailingToken found pos =>
    "unexpected trailing token " ++ found.describe ++ " at position " ++ toString pos
  | .tooDeep limit pos =>
    "expression nested deeper than " ++ toString limit ++ " levels at position " ++ toString pos
  | .notComparable op left right =>
    "operator '" ++ op.symbol ++ "' requires numeric operands, got " ++ left.name ++ " and "
      ++ right.name

end Dialogue
