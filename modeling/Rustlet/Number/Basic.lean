/-! Numbers in the 64-bit binary format of IEEE 754. Apart from the sign, the pattern of a finite
number counts upwards with its size, and its size is a whole number of units of 2^-1074, so exact
work on numbers is work on `Nat`. -/
namespace Rustlet

/-- A 64-bit floating-point number. -/
structure Number where
  bits : UInt64
deriving DecidableEq

namespace Number

/-- How many units of 2^-1074 make one. -/
def one : Nat := Nat.pow 2 1074

/-- The weight of the lowest exponent bit. -/
def exponentStep : Nat := Nat.pow 2 52

/-- The magnitude of an infinity; beyond it are the magnitudes that stand for no number. -/
def infinite : Nat := 2047 * exponentStep

/-- The pattern without its sign. -/
def magnitude (n : Number) : Nat := n.bits.toNat % Nat.pow 2 63

/-- Whether the sign bit is set. -/
def isNegative (n : Number) : Bool := Nat.pow 2 63 ≤ n.bits.toNat

/-- Whether the pattern stands for no number. -/
def isNaN (n : Number) : Bool := infinite < n.magnitude

/-- Whether the number is one of the two infinities. -/
def isInfinite (n : Number) : Bool := n.magnitude = infinite

/-- Whether the number is neither infinite nor missing. -/
def isFinite (n : Number) : Bool := n.magnitude < infinite

/-- The number with a given sign and magnitude. -/
def ofMagnitude (negative : Bool) (m : Nat) : Number :=
  ⟨UInt64.ofNat ((if negative then Nat.pow 2 63 else 0) + m % Nat.pow 2 63)⟩

/-- Positive zero. -/
def zero : Number := ⟨0⟩

/-- The pattern that stands for the result of an operation without one. -/
def nan : Number := ofMagnitude false (infinite + exponentStep / 2)

/-- The pattern as the machine computes with it. -/
def toFloat (n : Number) : Float := Float.ofBits n.bits

/-- The pattern of a result of the machine. -/
def ofFloat (x : Float) : Number := ⟨x.toBits⟩

/-- The sum, rounded to the nearest number, ties to even. -/
def add (a b : Number) : Number := ofFloat (a.toFloat + b.toFloat)

/-- The difference, rounded likewise. -/
def sub (a b : Number) : Number := ofFloat (a.toFloat - b.toFloat)

/-- The product, rounded likewise. -/
def mul (a b : Number) : Number := ofFloat (a.toFloat * b.toFloat)

/-- The quotient, rounded likewise. A quotient by zero is infinite, or no number if the dividend is
zero too. -/
def div (a b : Number) : Number := ofFloat (a.toFloat / b.toFloat)

/-- The number with the other sign. -/
def neg (n : Number) : Number := ⟨n.bits ^^^ 0x8000000000000000⟩

/-- Whether two numbers are equal: the zeros are, and what is no number equals nothing. -/
def eq (a b : Number) : Bool := a.toFloat == b.toFloat

/-- Whether one number is below another. -/
def lt (a b : Number) : Bool := a.toFloat < b.toFloat

/-- Whether one number is below another or equal to it. -/
def le (a b : Number) : Bool := a.toFloat ≤ b.toFloat

end Number

end Rustlet
