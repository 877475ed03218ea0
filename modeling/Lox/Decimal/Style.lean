import Lox.Decimal.Shortest

/-!
# Writing numbers

How the shortest digits of a double become text.  All conventions are in one record, `Style`;
`Style.plain` is the one of the language itself and `Style.exact` the one that always shows a
number to be one with a fraction.
-/

namespace Lox.Decimal

/-- The conventions for writing a double. -/
structure Style where
  /-- The smallest power of ten whose numbers are written without an exponent. -/
  least : Int
  /-- The smallest power of ten above them whose numbers are written with an exponent. -/
  limit : Int
  /-- Is a whole number without exponent given a fraction of zero? -/
  wholePoint : Bool
  /-- What is written for a value that is no number. -/
  nan : String
  deriving Repr

/-- The style of printed values: an exponent below 10⁻⁷ and from 10²¹ on. -/
def Style.plain : Style := ⟨-7, 21, false, "nan"⟩

/-- The style of inspected values: an exponent below 10⁻⁴ and from 10¹⁶ on, and a fraction always. -/
def Style.exact : Style := ⟨-4, 16, true, "NaN"⟩

namespace Style

/-- A run of zeros. -/
def zeros (n : Nat) : List Char := List.replicate n '0'

/-- The digits of `c · 10 ^ place` without exponent. -/
def positional (style : Style) (digits : List Char) (place : Int) : List Char :=
  if 0 ≤ place then
    digits ++ zeros place.toNat ++ (if style.wholePoint then ['.', '0'] else [])
  else
    let behind := (-place).toNat
    if behind < digits.length then
      let before := digits.length - behind
      digits.take before ++ '.' :: digits.drop before
    else '0' :: '.' :: zeros (behind - digits.length) ++ digits

/-- The digits of a number with an exponent: one digit before the point. -/
def scientific (digits : List Char) (exponent : Int) : List Char :=
  let mantissa :=
    match digits with
    | [] => []
    | [d] => [d]
    | d :: ds => d :: '.' :: ds
  mantissa ++ 'e' :: (toString exponent).toList

/-- The text of the decimal `c · 10 ^ place`. -/
def writeDecimal (style : Style) (c : Nat) (place : Int) : List Char :=
  let digits := Nat.toDigits 10 c
  let exponent := place + digits.length - 1
  if style.least ≤ exponent ∧ exponent < style.limit then style.positional digits place
  else scientific digits exponent

/-- The text of a number. -/
def write (style : Style) (x : Float) : String :=
  let signed (negative : Bool) (text : List Char) : String :=
    String.ofList (if negative then '-' :: text else text)
  match Binary64.ofFloat x with
  | .nan => style.nan
  | .infinite negative => signed negative ['i', 'n', 'f']
  | .finite negative rank =>
    if rank = 0 then signed negative (style.positional ['0'] 0)
    else
      let (c, place) := shortest rank
      signed negative (style.writeDecimal c place)

end Style

end Lox.Decimal
