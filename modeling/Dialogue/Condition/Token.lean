import Dialogue.Condition.Expr
import Dialogue.Text.Case

/-!
# Tokens

The words of the language of conditions. A token that stands for a value carries the value, and a
token that stands for a binary operator carries the operator.
-/

namespace Dialogue

/-- A word of a condition. -/
inductive Token where
  | literal (v : Value)
  | name (s : String)
  | operator (op : BinaryOp)
  | bang
  | openParen
  | closeParen
  | endOfText
  deriving DecidableEq, Repr

/-- A token with the position of its first character, counted from zero. -/
structure PlacedToken where
  token : Token
  pos : Nat
  deriving DecidableEq, Repr

namespace Token

/-- The literal that a word stands for if it is a keyword, in any case of its letters. -/
def ofKeyword? (word : List Char) : Option Token :=
  if Text.sameIgnoringCase word ['t', 'r', 'u', 'e'] then some (.literal (.bool true))
  else if Text.sameIgnoringCase word ['f', 'a', 'l', 's', 'e'] then some (.literal (.bool false))
  else if Text.sameIgnoringCase word ['n', 'u', 'l', 'l'] then some (.literal .null)
  else none

/-- The token of a word: a keyword or else a name. -/
def ofWord (word : List Char) : Token := (ofKeyword? word).getD (.name (String.ofList word))

/-- How a message speaks of a token. -/
def describe : Token → String
  | .literal (.number x) => "number " ++ floatText x
  | .literal (.string s) => "string \"" ++ s ++ "\""
  | .literal v => "'" ++ v.text ++ "'"
  | .name s => "identifier '" ++ s ++ "'"
  | .operator op => "'" ++ op.symbol ++ "'"
  | .bang => "'!'"
  | .openParen => "'('"
  | .closeParen => "')'"
  | .endOfText => "end of input"

end Token

end Dialogue
