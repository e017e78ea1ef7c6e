/-!
# Numerals

A *numeral* is a decimal number as people write it: digits with an optional decimal point, then an
optional power of ten.

    numeral  ::= sign? (digits ('.' digits?)? | '.' digits) power?
    power    ::= ('e' | 'E') sign? digits
    sign     ::= '+' | '-'

`Decimal.ofText?` reads a whole text by this grammar to an exact `Decimal`, and `Decimal.toFloat`
rounds that to the nearest double, ties to even. The pieces of a numeral (`digits`, `afterDigits`,
`digitsValue`) are shared with the scanner of conditions, whose numerals are the unsigned ones that
start with a digit and have a digit behind every point.
-/

namespace Dialogue

/-- An exact decimal number: `coefficient · 10 ^ exponent`, negated if `negative`. Zero has a sign
too. -/
structure Decimal where
  negative : Bool
  coefficient : Nat
  exponent : Int
  deriving DecidableEq, Repr

namespace Decimal

/-! ### Pieces of a numeral -/

/-- The digits that a text starts with. -/
def digits (cs : List Char) : List Char := cs.takeWhile Char.isDigit

/-- What follows the digits that a text starts with. -/
def afterDigits (cs : List Char) : List Char := cs.dropWhile Char.isDigit

/-- The number that a list of digits denotes, most significant digit first. -/
def digitsValue (ds : List Char) : Nat := ds.foldl (fun n d => 10 * n + (d.toNat - 48)) 0

/-- Whether a text starts with a minus sign, and what follows its sign. -/
def splitSign : List Char → Bool × List Char
  | '-' :: cs => (true, cs)
  | '+' :: cs => (false, cs)
  | cs => (false, cs)

/-- The digits behind the decimal point, if there is one, and what follows. -/
def splitFraction : List Char → List Char × List Char
  | '.' :: cs => (digits cs, afterDigits cs)
  | cs => ([], cs)

/-- The power of ten that a whole text denotes; no text denotes the power zero. -/
def powerOfText? : List Char → Option Int
  | [] => some 0
  | c :: cs =>
    if c = 'e' ∨ c = 'E' then
      let (negative, ds) := splitSign cs
      if ds ≠ [] ∧ ds.all Char.isDigit then
        some (if negative then -(digitsValue ds : Int) else digitsValue ds)
      else none
    else none

/-! ### Reading and rounding -/

/-- The number that a whole text denotes, if the text is a numeral. -/
def ofText? (cs : List Char) : Option Decimal :=
  let (negative, body) := splitSign cs
  let whole := digits body
  let (fraction, rest) := splitFraction (afterDigits body)
  if whole = [] ∧ fraction = [] then none
  else (powerOfText? rest).map fun power =>
    ⟨negative, digitsValue (whole ++ fraction), power - fraction.length⟩

/-- The nearest double to a decimal number, ties to even; too large a number is an infinity. -/
def toFloat (d : Decimal) : Float :=
  let size := Float.ofScientific d.coefficient (d.exponent < 0) d.exponent.natAbs
  if d.negative then -size else size

/-! ### The pieces make up the text -/

theorem digits_append_afterDigits (cs : List Char) : digits cs ++ afterDigits cs = cs :=
  List.takeWhile_append_dropWhile

/-- The digits of a text are digits. -/
theorem isDigit_of_mem_digits {c : Char} {cs : List Char} (h : c ∈ digits cs) :
    c.isDigit = true := by
  induction cs with
  | nil => simp [digits] at h
  | cons d cs ih =>
    rw [digits, List.takeWhile_cons] at h
    split at h
    · next hd =>
      rcases List.mem_cons.1 h with rfl | h
      · exact hd
      · exact ih h
    · simp at h

end Decimal

end Dialogue
