/-
The shortest decimal that reads back.

A number is written with the fewest significant digits that still read back as
that number; of two such decimals the nearer one is taken, and the larger one
when they are equally near.  The notation is positional throughout.
-/
import PostfixSheet.Decimal.FixedPoint

namespace PostfixSheet.Decimal

/-- The place of the last decimal that is looked at, where the smallest positive
number has its first digit. -/
def finestPlaces : Nat := 324

def finestScale : Nat := tenPow finestPlaces

/-- Whether `parts / finestScale` reads back as `count` ticks. -/
def readsBack (count parts : Nat) : Bool :=
  ticks (nearestBits parts finestScale) == count

/-- Of the two multiples of `unit` parts around a number of ticks, the nearer one
that reads back, if one of them does. -/
def nearestOnGrid? (count unit : Nat) : Option Nat :=
  let exactParts := count * finestScale
  let below := exactParts / (tickScale * unit) * unit
  let above := below + unit
  if readsBack count below then
    if readsBack count above ∧ (below + above) * tickScale ≤ 2 * exactParts then
      some above
    else some below
  else if readsBack count above then some above
  else none

/-- The parts of the shortest decimal for a positive number of ticks.  The first
significant digit fixes the coarsest grid, and each further digit makes the grid
ten times finer; 17 digits suffice for every number. -/
def shortestParts (count : Nat) : Nat :=
  let length := (Nat.toDigits 10 (count * finestScale / tickScale)).length
  let grids := (List.range 17).map fun digits => tenPow (length - 1 - digits)
  (grids.findSome? (nearestOnGrid? count)).getD 0

/-- A number `parts / finestScale` without closing zeros after the point,
and without a point when nothing follows it. -/
def partsText (parts : Nat) : String :=
  let fraction :=
    (paddedDigits finestPlaces (parts % finestScale)).reverse
      |>.dropWhile (· == '0') |>.reverse
  toString (parts / finestScale) ++
    (if fraction.isEmpty then "" else "." ++ String.ofList fraction)

def shortest (x : Float) : String :=
  match exact x with
  | .nan => "NaN"
  | .infinite negative => signText negative ++ "inf"
  | .finite negative count =>
    signText negative ++ partsText (if count = 0 then 0 else shortestParts count)

end PostfixSheet.Decimal
