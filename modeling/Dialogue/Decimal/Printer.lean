import Dialogue.Decimal.Shortest

/-!
# The text of a double

A double is written with the fewest decimal digits that read back as the same double, in positional
notation at every size: never a power of ten, and no point unless a digit other than zero follows
it. Zero keeps its sign. What is not finite is written as a word.
-/

namespace Dialogue

/-- The decimal digits of a natural number. -/
def natDigits (n : Nat) : List Char := Nat.toDigits 10 n

/-- A text without its trailing zeros. -/
def dropTrailingZeros (ds : List Char) : List Char := (ds.reverse.dropWhile (· == '0')).reverse

/-- `n · 10 ^ k` in positional notation. -/
def positional (n : Nat) (k : Int) : List Char :=
  if 0 ≤ k then natDigits n ++ List.replicate k.toNat '0'
  else
    let places := (-k).toNat
    let ds := natDigits n
    let padded := List.replicate (places + 1 - ds.length) '0' ++ ds
    let whole := padded.take (padded.length - places)
    let fraction := dropTrailingZeros (padded.drop (padded.length - places))
    if fraction = [] then whole else whole ++ '.' :: fraction

/-- The text of the size of a double that is a number. -/
def sizeText (x : Float) : List Char :=
  if x.isInf then ['i', 'n', 'f']
  else if (Binary.ofFloat x).significand = 0 then ['0']
  else
    let (n, k) := (Binary.ofFloat x).shortest
    positional n k

/-- The text of a double. -/
def floatText (x : Float) : String :=
  if x.isNaN then "NaN"
  else if x.toBits >>> 63 == 1 then String.ofList ('-' :: sizeText x)
  else String.ofList (sizeText x)

end Dialogue
