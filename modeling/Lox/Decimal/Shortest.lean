import Lox.Decimal.Binary64

/-!
# Shortest digits

The decimal number with the fewest digits that reads back as a given double, and of those with
equally few the nearest one.  A double is read back from every number between the midpoints to its
two neighbours, the midpoints included when its rank is even.  `shortest` looks at coarser grids
of powers of ten first and on each at the two points next to the double, since a grid with a point
inside the interval has one of these two inside.  A grid fine enough holds the double itself, so
the search ends.
-/

namespace Lox.Decimal

/-- The numbers that read back as one double, in units of 2⁻¹⁰⁷⁵. -/
structure Interval where
  /-- The midpoint to the next smaller double. -/
  low : Nat
  /-- The double itself. -/
  mid : Nat
  /-- The midpoint to the next larger double. -/
  high : Nat
  /-- Do the midpoints belong to it? -/
  closed : Bool
  deriving Repr

/-- The interval of the double of a positive rank. -/
def Interval.ofRank (rank : Nat) : Interval where
  low := units (rank - 1) + units rank
  mid := 2 * units rank
  high := units rank + units (rank + 1)
  closed := rank % 2 = 0

namespace Interval

/-- Ten to the power of `place` is `gridNum place / gridDen place`. -/
def gridNum (place : Int) : Nat := Nat.pow 10 place.toNat

/-- The denominator of ten to the power of `place`. -/
def gridDen (place : Int) : Nat := Nat.pow 10 (-place).toNat

/-- Is `c · 10 ^ place` in the interval? -/
def holds (i : Interval) (place : Int) (c : Nat) : Bool :=
  let point := (c * gridNum place) <<< 1075
  let low := i.low * gridDen place
  let high := i.high * gridDen place
  if i.closed then low ≤ point && point ≤ high else low < point && point < high

/-- The point of the grid at `place` to write, if one next to the double is in the interval: the
nearer one, or the larger one of two equally near. -/
def gridPoint? (i : Interval) (place : Int) : Option Nat :=
  let step := gridNum place <<< 1075
  let exact := i.mid * gridDen place
  let below := exact / step
  match i.holds place below, i.holds place (below + 1) with
  | true, true => some (if 2 * (exact % step) < step then below else below + 1)
  | true, false => some below
  | false, true => some (below + 1)
  | false, false => none

/-- Looks for a point on the grids from `place` down, at most `fuel` of them. -/
def search (i : Interval) : Nat → Int → Nat × Int
  | 0, place => (i.mid * gridDen place / (gridNum place <<< 1075), place)
  | fuel + 1, place =>
    match i.gridPoint? place with
    | some c => (c, place)
    | none => i.search fuel (place - 1)

end Interval

/-- A place `p` such that the double of the rank is less than `10 ^ p`. -/
def placeAbove (rank : Nat) : Int :=
  (((units rank).log2 : Int) - 1073) * 30103 / 100000 + 1

/-- The digits `c` and the place `p` of the shortest decimal `c · 10 ^ p` for the double of a
positive rank. -/
def shortest (rank : Nat) : Nat × Int :=
  let place := placeAbove rank
  (Interval.ofRank rank).search (place + 1075).toNat place

end Lox.Decimal
