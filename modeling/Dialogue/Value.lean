import Dialogue.Decimal.Numeral
import Dialogue.Decimal.Printer
import Dialogue.Text.Blank

/-!
# Values

A variable of a dialogue holds a Boolean, a number, a string or null. Every coercion rule of the
language is a function here, by cases on the four kinds:

* `isTruthy`, what a condition makes of a value;
* `asNumber?`, what a comparison makes of it: a string counts as the number it denotes;
* `looseEq`, the equality of conditions, which compares a number with a string that denotes one;
* `text`, what is written in place of a variable.
-/

namespace Dialogue

/-- The finite number that a text denotes, blanks at its ends aside. -/
def readNumber? (s : String) : Option Float :=
  match Decimal.ofText? (Text.trim s.toList) with
  | none => none
  | some d => if d.toFloat.isFinite then some d.toFloat else none

/-- The value of a variable. -/
inductive Value where
  | bool (b : Bool)
  | number (x : Float)
  | string (s : String)
  | null
  deriving DecidableEq, Repr

namespace Value

/-- The four kinds of value. -/
inductive Kind where
  | boolean
  | number
  | string
  | null
  deriving DecidableEq, Repr

/-- The name of a kind, as it stands in messages. -/
def Kind.name : Kind → String
  | .boolean => "Boolean"
  | .number => "Number"
  | .string => "String"
  | .null => "Null"

/-- The kind of a value. -/
def kind : Value → Kind
  | .bool _ => .boolean
  | .number _ => .number
  | .string _ => .string
  | .null => .null

/-- Whether a value is null. -/
def isNull : Value → Bool
  | .null => true
  | _ => false

/-- Whether a value holds as a condition: null does not, a number does when its size is above zero
(so a number that is not a number does not), a string does unless it is empty. -/
def isTruthy : Value → Bool
  | .bool b => b
  | .number x => decide (0 < x.abs)
  | .string s => !s.isEmpty
  | .null => false

/-- The number that a value counts as: a number itself, a string the number it denotes. -/
def asNumber? : Value → Option Float
  | .number x => some x
  | .string s => readNumber? s
  | .bool _ => none
  | .null => none

/-- The truth value of a Boolean. -/
def asBool? : Value → Option Bool
  | .bool b => some b
  | _ => none

/-- The text of a string value. -/
def asString? : Value → Option String
  | .string s => some s
  | _ => none

/-- What is written for a value. -/
def text : Value → String
  | .bool true => "true"
  | .bool false => "false"
  | .number x => floatText x
  | .string s => s
  | .null => "null"

/-- Equality as conditions see it. Null equals null only, two strings are compared as texts, two
Booleans as truth values, and otherwise both sides have to count as numbers and be equal as
such. -/
def looseEq : Value → Value → Bool
  | .null, .null => true
  | .string s, .string t => s == t
  | .bool a, .bool b => a == b
  | a, b =>
    match a.asNumber?, b.asNumber? with
    | some x, some y => x == y
    | _, _ => false

end Value

end Dialogue
