import Rustlet.Number.Basic

/-! From exact fractions to the nearest number, and exact remainders. -/
namespace Rustlet.Number

/-- The significant bits of a finite magnitude. -/
def significand (m : Nat) : Nat := if m < exponentStep then m else exponentStep + m % exponentStep

/-- How far the significant bits of a finite magnitude are shifted. -/
def shift (m : Nat) : Nat := m / exponentStep - 1

/-- The size of a finite magnitude in units of 2^-1074. -/
def units (m : Nat) : Nat := significand m * Nat.pow 2 (shift m)

/-- The quotient rounded to a whole number, halves to the even one. -/
def roundDiv (n d : Nat) : Nat :=
  let q := n / d
  let r := n % d
  if 2 * r < d then q else if d < 2 * r then q + 1 else q + q % 2

/-- How many of the lowest bits of a size of `q` units a number has no place for. -/
def excessBits (q : Nat) : Nat := Nat.log2 q - 52

/-- The magnitude nearest to `n / d` units, ties to even. What is too large becomes infinite. -/
def nearest (n d : Nat) : Nat :=
  let s := excessBits (n / d)
  min infinite (s * exponentStep + roundDiv n (d * Nat.pow 2 s))

/-- What is left of `a` after taking away the size of `b` as often as possible, with the sign of
`a`. -/
def rem (a b : Number) : Number :=
  if !a.isFinite || b.isNaN || b.magnitude = 0 then nan
  else if b.isInfinite then a
  else ofMagnitude a.isNegative (nearest (units a.magnitude % units b.magnitude) 1)

end Rustlet.Number
