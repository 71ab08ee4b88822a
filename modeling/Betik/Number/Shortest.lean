/-
The shortest decimal that reads back as a given double.  Grids of powers of ten
are tried from the coarsest on; the first that has a point among the reals which
round to the double gives the digits, because a coarser grid means fewer of them.
All comparisons are between natural numbers.
-/
import Betik.Number.Binary64

namespace Betik
namespace Number

/-- The positive decimal `digits · 10 ^ exponent`. -/
structure Decimal where
  digits : Nat
  exponent : Int
deriving DecidableEq, Repr

/-- The reals that round to one double, in quarters of its last place: from `low`
to `high` around `middle`, where one quarter is `2 ^ exponent`.  Both ends belong
to it exactly if the significand is even, since a tie goes to the even one. -/
structure Roundings where
  low : Nat
  middle : Nat
  high : Nat
  exponent : Int
  closed : Bool
deriving DecidableEq, Repr

namespace Roundings

/-- The lower neighbour of a power of two is only half as far away, unless it is
the subnormal below the first normal double. -/
def ofBinary (significand : Nat) (exponent : Int) : Roundings :=
  let halfGap :=
    significand = Binary64.hiddenBit ∧ Binary64.minExponent < exponent
  { low := 4 * significand - (if halfGap then 1 else 2)
    middle := 4 * significand
    high := 4 * significand + 2
    exponent := exponent - 2
    closed := significand % 2 == 0 }

/-- Quarters and grid steps brought to whole multiples of one unit: the first
number is a quarter, the second a step of the grid `10 ^ grid`. -/
def units (r : Roundings) (grid : Int) : Nat × Nat :=
  (Nat.pow 10 (-grid).toNat <<< r.exponent.toNat,
    Nat.pow 10 grid.toNat <<< (-r.exponent).toNat)

def contains (r : Roundings) (grid : Int) (point : Nat) : Bool :=
  let (quarter, step) := r.units grid
  let place := point * step
  if r.closed then r.low * quarter ≤ place && place ≤ r.high * quarter
  else r.low * quarter < place && place < r.high * quarter

/-- The point of a grid that rounds to the double, if there is one; of two the
nearer, and of two equally near the larger.  Only the two neighbours of the
double on the grid have to be looked at. -/
def nearest? (r : Roundings) (grid : Int) : Option Nat :=
  let (quarter, step) := r.units grid
  let below := r.middle * quarter / step
  let nearerBelow := 2 * (r.middle * quarter % step) < step
  match r.contains grid below, r.contains grid (below + 1) with
  | true, true => some (if nearerBelow then below else below + 1)
  | true, false => some below
  | false, true => some (below + 1)
  | false, false => none

/-- Tries `count` grids from `10 ^ grid` down.  The last one is taken as it is:
the start and the count are such that no double gets there. -/
def search (r : Roundings) (grid : Int) : Nat → Decimal
  | 0 => ⟨r.middle * (r.units grid).1 / (r.units grid).2, grid⟩
  | count + 1 =>
    match r.nearest? grid with
    | some digits => ⟨digits, grid⟩
    | none => search r (grid - 1) count

end Roundings

/-- A grid no finer than the first digit of `significand · 2 ^ exponent`.  The
factor is a little above the common logarithm of two, and the sum of a rounded
logarithm and the exponent is at most one too small. -/
def coarsestGrid (significand : Nat) (exponent : Int) : Int :=
  (significand.log2 + 1 + exponent) * 30103 / 100000 + 1

/-- The shortest decimal for a positive double.  Seventeen digits tell all doubles
apart, and the search starts at most two places above the first digit. -/
def shortest (significand : Nat) (exponent : Int) : Decimal :=
  (Roundings.ofBinary significand exponent).search (coarsestGrid significand exponent) 21

end Number
end Betik
