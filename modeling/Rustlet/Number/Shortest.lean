import Rustlet.Number.Decimal

/-! A finite number is itself a decimal. Its leading digits give, for each count of digits, the two
decimals around it. -/
namespace Rustlet.Decimal

/-- A finite magnitude as a decimal, exactly. -/
def exact (m : Nat) : Decimal :=
  let s := Number.shift m
  if s ≤ 1074 then ⟨Number.significand m * Nat.pow 5 (1074 - s), -(1074 - s : Nat)⟩
  else ⟨Number.significand m * Nat.pow 2 (s - 1074), 0⟩

/-- The decimal one step above another with `k` digits, as a power of ten if it is one. -/
def above (k : Nat) (d : Decimal) : Decimal :=
  if d.digits + 1 = Nat.pow 10 k then ⟨1, d.exponent + k⟩ else ⟨d.digits + 1, d.exponent⟩

/-- Of the two decimals around `e` that keep `k` of its `len` digits, the one that reads back as the
magnitude `m`; of two, the nearer, and the even one if neither is. -/
def shortened (m : Nat) (e : Decimal) (len k : Nat) : Option Decimal :=
  let scale := Nat.pow 10 (len - k)
  let low : Decimal := ⟨e.digits / scale, e.exponent + (len - k : Nat)⟩
  let high := low.above k
  let excess := 2 * (e.digits % scale)
  let lowIsNearer := excess < scale || (excess = scale && low.digits % 2 = 0)
  if low.magnitude = m && (lowIsNearer || high.magnitude ≠ m) then some low
  else if high.magnitude = m then some high
  else none

/-- The decimal with the fewest digits that reads back as a finite magnitude. Seventeen digits are
always enough. -/
def shortest (m : Nat) : Decimal :=
  let e := exact m
  let len := (digitChars e.digits).length
  ((List.range' 1 17).findSome? (shortened m e len)).getD e

end Rustlet.Decimal
