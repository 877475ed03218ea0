import Lox.Decimal.Binary64

/-!
# Reading decimal literals

A literal is a ratio of two whole numbers, its digits over a power of ten, and stands for the
double nearest to that ratio; between two equally near doubles the one with an even rank is taken.
`nearestRank` works on the rank alone: counted in units of the last place, the ratio rounds to a
whole number, and adding that number to the rank where its binade starts carries by itself into
the next binade.
-/

namespace Lox.Decimal

/-- `num / den` rounded to a whole number, a half to the even neighbour. -/
def roundHalfEven (num den : Nat) : Nat :=
  let low := num / den
  let twice := 2 * (num % den)
  if twice < den then low
  else if den < twice then low + 1
  else if low % 2 = 0 then low else low + 1

/-- The rank of the double nearest to `num / den`; what is too large has the rank of infinity. -/
def nearestRank (num den : Nat) : Nat :=
  let scaled := num <<< 1074
  let shift := (scaled / den).log2 - 52
  min (shift <<< 52 + roundHalfEven scaled (den <<< shift)) infinityRank

/-- The number that a row of digits stands for. -/
def ofDigits (digits : List Char) : Nat :=
  digits.foldl (fun n d => 10 * n + (d.toNat - '0'.toNat)) 0

/-- The double that a literal stands for: digits, then perhaps a point and more digits. -/
def read (literal : String) : Float :=
  let whole := literal.toList.takeWhile (· ≠ '.')
  let fraction := (literal.toList.dropWhile (· ≠ '.')).drop 1
  ofRank (nearestRank (ofDigits (whole ++ fraction)) (Nat.pow 10 fraction.length))

end Lox.Decimal
