import Rustlet.Number.Shortest

/-! Whole numbers below 10^21 are written out. Every other number is written with the fewest digits
that read back as it, with a power of ten if the first digit stands below the fourth or above the
fifteenth place from the point. -/
namespace Rustlet.Number

/-- Whole numbers are written out below this bound. -/
def wholeBound : Nat := Nat.pow 10 21

/-- The greatest power of ten that is written as a place. -/
def topPlace : Int := 15

/-- The least power of ten that is written as a place. -/
def bottomPlace : Int := -4

/-- A power of ten: a sign and at least two digits. -/
def exponentText (e : Int) : List Char :=
  let digits := Decimal.digitChars e.natAbs
  'e' :: (if e < 0 then '-' else '+') :: (List.replicate (2 - digits.length) '0' ++ digits)

/-- One digit, the other digits after a point, and a power of ten. -/
def scientific (digits : List Char) (e : Int) : List Char :=
  match digits with
  | [] => []
  | [d] => d :: exponentText e
  | d :: rest => d :: '.' :: (rest ++ exponentText e)

/-- Digits with a point after the first `p` of them. -/
def positional (digits : List Char) : Int → List Char
  | .negSucc p => '0' :: '.' :: (List.replicate (p + 1) '0' ++ digits)
  | .ofNat 0 => '0' :: '.' :: digits
  | .ofNat p =>
    if p < digits.length then digits.take p ++ '.' :: digits.drop p
    else digits ++ List.replicate (p - digits.length) '0' ++ ['.', '0']

/-- A decimal, with a power of ten where its first digit calls for one. -/
def decimalText (d : Decimal) : List Char :=
  let digits := Decimal.digitChars d.digits
  let place := d.exponent + digits.length - 1
  if bottomPlace ≤ place && place ≤ topPlace then positional digits (place + 1)
  else scientific digits place

/-- A finite magnitude. -/
def magnitudeText (m : Nat) : List Char :=
  let size := units m
  if size % one = 0 && size / one < wholeBound then Decimal.digitChars (size / one)
  else decimalText (Decimal.shortest m)

/-- A number as it is printed. -/
def text (n : Number) : String :=
  if n.isNaN then "NaN"
  else
    let body := if n.isInfinite then "inf".toList else magnitudeText n.magnitude
    String.ofList (if n.isNegative then '-' :: body else body)

end Rustlet.Number
