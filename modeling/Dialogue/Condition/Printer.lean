import Dialogue.Condition.Expr

/-!
# Writing expressions

`Expr.render` writes an expression as a condition: one space on either side of a binary operator,
and parentheses only where the grouping asks for them. These are the places:

* a left operand that binds less strongly than its operator;
* a right operand that does not bind more strongly than its operator, since operators of one
  strength group to the left;
* an operand of a negation that is a binary operation.

Strings stand between double quotes, with a backslash before every double quote and backslash in
them. Numerals of conditions have no sign, so not every number has one; how a number is written is
left to the caller.

`Expr.nesting` counts how many parentheses and negations stand around the innermost place of the
text, which is what the reader limits.
-/

namespace Dialogue

/-! ### Literals -/

/-- A character as it stands in a string. -/
def quotedChar (c : Char) : List Char := if c = '"' ∨ c = '\\' then ['\\', c] else [c]

/-- A text between double quotes. -/
def quote (cs : List Char) : List Char := '"' :: cs.flatMap quotedChar ++ ['"']

/-- The literal of a value. -/
def Value.literalText (numeral : Float → List Char) : Value → List Char
  | .bool true => ['t', 'r', 'u', 'e']
  | .bool false => ['f', 'a', 'l', 's', 'e']
  | .number x => numeral x
  | .string s => quote s.toList
  | .null => ['n', 'u', 'l', 'l']

namespace Expr

/-! ### Grouping -/

/-- How strongly the outermost operator of an expression binds; an expression without a binary
operator outside binds more strongly than all operators. -/
def strength : Expr → Nat
  | .binary op _ _ => op.strength
  | _ => 5

/-- Whether the left operand of an operator needs parentheses. -/
def groupsLeft (op : BinaryOp) (left : Expr) : Bool := left.strength < op.strength

/-- Whether the right operand of an operator needs parentheses. -/
def groupsRight (op : BinaryOp) (right : Expr) : Bool := right.strength ≤ op.strength

/-- Whether the operand of a negation needs parentheses. -/
def groupsUnderNot (e : Expr) : Bool := e.strength < 5

/-- A text, in parentheses if it needs them. -/
def enclose (grouped : Bool) (cs : List Char) : List Char :=
  if grouped then '(' :: cs ++ [')'] else cs

/-! ### Expressions -/

/-- The condition that an expression is read from. -/
def render (numeral : Float → List Char) : Expr → List Char
  | .literal v => v.literalText numeral
  | .variable name => name.toList
  | .not e => '!' :: enclose (groupsUnderNot e) (e.render numeral)
  | .binary op left right =>
    enclose (groupsLeft op left) (left.render numeral) ++ ' ' :: op.symbol.toList
      ++ ' ' :: enclose (groupsRight op right) (right.render numeral)

/-- The parentheses and negations around the innermost place of a rendered expression. -/
def nesting : Expr → Nat
  | .literal _ => 0
  | .variable _ => 0
  | .not e => e.nesting + (groupsUnderNot e).toNat + 1
  | .binary op left right =>
    max (left.nesting + (groupsLeft op left).toNat) (right.nesting + (groupsRight op right).toNat)

end Expr

end Dialogue
