import Rustlet.Number.Rounding

/-! Decimals, and the numbers they round to. -/
namespace Rustlet

/-- The number `digits` times ten to the power of `exponent`. -/
structure Decimal where
  digits : Nat
  exponent : Int
deriving DecidableEq

namespace Decimal

/-- The decimal digits of a number, most significant first. -/
def digitChars (n : Nat) : List Char := Nat.toDigits 10 n

/-- The number that a run of digits stands for, after the digits that make up `n`. -/
def readDigits (n : Nat) (digits : List Char) : Nat :=
  digits.foldl (fun n c => 10 * n + (c.toNat - '0'.toNat)) n

/-- The exponent that a text starts with, and zero if it starts with none. -/
def readExponent : List Char → Int
  | m :: '-' :: digits => if m = 'e' || m = 'E' then -(readDigits 0 digits) else 0
  | m :: '+' :: digits => if m = 'e' || m = 'E' then readDigits 0 digits else 0
  | m :: digits => if m = 'e' || m = 'E' then readDigits 0 digits else 0
  | [] => 0

/-- The digits after the point that a text starts with. -/
def fractionDigits : List Char → List Char
  | '.' :: rest => rest.takeWhile Char.isDigit
  | _ => []

/-- What follows the point and its digits. -/
def afterFraction : List Char → List Char
  | '.' :: rest => rest.dropWhile Char.isDigit
  | rest => rest

/-- The decimal that a numeral stands for. -/
def ofNumeral (numeral : List Char) : Decimal :=
  let whole := numeral.takeWhile Char.isDigit
  let rest := numeral.dropWhile Char.isDigit
  let fraction := fractionDigits rest
  ⟨readDigits (readDigits 0 whole) fraction, readExponent (afterFraction rest) - fraction.length⟩

/-- Beyond ten to this power, either way, every decimal is infinite or zero as a number. -/
def range : Nat := 400

/-- The magnitude nearest to a decimal. Far outside the range of numbers the powers of ten are not
worked out. -/
def magnitude (d : Decimal) : Nat :=
  if d.digits = 0 then 0
  else match d.exponent with
    | .ofNat e =>
      if range < e then Number.infinite
      else Number.nearest (d.digits * Nat.pow 10 e * Number.one) 1
    | .negSucc e =>
      if (digitChars d.digits).length + range < e + 1 then 0
      else Number.nearest (d.digits * Number.one) (Nat.pow 10 (e + 1))

end Decimal

/-- The number nearest to what a numeral says. -/
def Number.ofNumeral (numeral : String) : Number :=
  .ofMagnitude false (Decimal.ofNumeral numeral.toList).magnitude

end Rustlet
