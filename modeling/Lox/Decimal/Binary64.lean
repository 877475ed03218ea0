/-!
# Doubles as ranks

The non-negative finite doubles in increasing order are numbered 0, 1, 2, …: the number of a
double, its *rank*, is what its bits without the sign say when read as a number.  `units` gives
the value of a rank as a whole number of smallest doubles (of 2⁻¹⁰⁷⁴), so that the decimal modules
can compute with natural numbers alone.  The first rank that is no finite double stands for
infinity.
-/

namespace Lox.Decimal

/-- The rank that stands for infinity. -/
def infinityRank : Nat := 2047 <<< 52

/-- The value of the double of a rank, in units of 2⁻¹⁰⁷⁴. -/
def units (rank : Nat) : Nat :=
  let exponent := rank >>> 52
  let fraction := rank % (1 <<< 52)
  if exponent = 0 then fraction else (1 <<< 52 + fraction) <<< (exponent - 1)

/-- A double taken apart. -/
inductive Binary64 where
  | nan
  | infinite (negative : Bool)
  | finite (negative : Bool) (rank : Nat)
  deriving DecidableEq, Repr

namespace Binary64

/-- Takes a double apart. -/
def ofFloat (x : Float) : Binary64 :=
  let bits := x.toBits.toNat
  let rank := bits % (1 <<< 63)
  let negative := decide (1 <<< 63 ≤ bits)
  if rank < infinityRank then .finite negative rank
  else if rank = infinityRank then .infinite negative
  else .nan

end Binary64

/-- The non-negative double of a rank. -/
def ofRank (rank : Nat) : Float := Float.ofBits (UInt64.ofNat rank)

end Lox.Decimal
