/-!
# The shortest decimal of a double

Of all decimal numbers that read back as a given double, the one with the fewest digits is written,
and of those the nearest to the double.

A positive finite double is `m · 2 ^ q`. The real numbers that round to it form an interval around
it, which holds its ends exactly when `m` is even. The multiples of `10 ^ k` form a *grid*; the
coarser the grid, the fewer digits its points need. `Binary.shortest` walks from a grid too coarse
to meet the interval to finer ones, and stops at the first grid that meets it. If any point of a
grid lies in the interval, then one of the double's two neighbours on the grid does, so only those
two are looked at.

All arithmetic is exact, on natural numbers.
-/

namespace Dialogue

/-- A finite double without its sign, `significand · 2 ^ power`. The gap to the double below is half
the gap to the one above when `narrowBelow` holds, which is at the powers of two. -/
structure Binary where
  significand : Nat
  power : Int
  narrowBelow : Bool
  deriving DecidableEq, Repr

namespace Binary

/-- `2 ^ e`, and `1` for a negative `e`. -/
def twoPow (e : Int) : Nat := Nat.pow 2 e.toNat

/-- `10 ^ e`, and `1` for a negative `e`. -/
def tenPow (e : Int) : Nat := Nat.pow 10 e.toNat

/-- The size of a finite double; zero has the significand zero. -/
def ofFloat (x : Float) : Binary :=
  let fraction := (x.toBits &&& 0xFFFFFFFFFFFFF).toNat
  let biased := ((x.toBits >>> 52) &&& 0x7FF).toNat
  if biased = 0 then ⟨fraction, -1074, false⟩
  else ⟨twoPow 52 + fraction, biased - 1075, fraction = 0 ∧ 1 < biased⟩

/-- The point of the grid of `10 ^ k` nearest to `b` among those that read back as `b`, as a
multiple of `10 ^ k`. A tie goes to the larger point.

Quarters of the last place of `b` are the unit: `b` is `4 · significand` of them, and the interval
reaches two up and two (or, next to a narrow gap, one) down. `unit / grid` is the quotient of a
quarter and `10 ^ k`. -/
def onGrid (b : Binary) (k : Int) : Option Nat :=
  let unit := twoPow (b.power - 2) * tenPow (-k)
  let grid := twoPow (2 - b.power) * tenPow k
  let value := 4 * b.significand * unit
  let low := (4 * b.significand - if b.narrowBelow then 1 else 2) * unit
  let high := (4 * b.significand + 2) * unit
  let below := value / grid
  let above := below + 1
  let closed := b.significand % 2 = 0
  let belowIn := low < below * grid ∨ closed ∧ low = below * grid
  let aboveIn := above * grid < high ∨ closed ∧ above * grid = high
  if belowIn ∧ aboveIn then
    some (if value - below * grid < above * grid - value then below else above)
  else if belowIn then some below
  else if aboveIn then some above
  else none

/-- An exponent such that its power of ten is above `b`: with `n` the number of bits of the
significand, `b` is below `2 ^ (n + power)`, and `30103 / 100000` is a little more than the decimal
logarithm of two. -/
def coarsest (b : Binary) : Int :=
  ((b.significand.log2 + 1 : Nat) + b.power) * 30103 / 100000 + 1

/-- All the digits of `b`, of which every finite double has finitely many. -/
def exact (b : Binary) : Nat × Int :=
  (b.significand * twoPow b.power * Nat.pow 5 (-b.power).toNat, min b.power 0)

/-- The shortest decimal that reads back as `b`: a natural number and a power of ten. Seventeen
significant digits always suffice, so the search ends within its first grids. -/
def shortest (b : Binary) : Nat × Int :=
  let hit := (List.range 24).findSome? fun (i : Nat) =>
    (b.onGrid (b.coarsest - i)).map fun n => (n, b.coarsest - i)
  hit.getD b.exact

end Binary

end Dialogue
