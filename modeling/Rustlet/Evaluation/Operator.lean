import Rustlet.Fault
import Rustlet.Number.Rounding
import Rustlet.Value

/-! The operators on values. -/
namespace Rustlet

/-- The order of two numbers. -/
def OrderOp.numbers : OrderOp → Number → Number → Bool
  | lt, a, b => a.lt b
  | le, a, b => a.le b
  | gt, a, b => b.lt a
  | ge, a, b => b.le a

/-- The order of two texts, by the code points of their characters. -/
def OrderOp.texts : OrderOp → String → String → Bool
  | lt, a, b => a < b
  | le, a, b => !(b < a)
  | gt, a, b => b < a
  | ge, a, b => !(a < b)

/-- The result of an operator on two numbers. -/
def ArithOp.numbers : ArithOp → Number → Number → Number
  | add, a, b => a.add b
  | sub, a, b => a.sub b
  | mul, a, b => a.mul b
  | div, a, b => a.div b
  | rem, a, b => a.rem b

namespace Value

/-- Whether two values of one type are equal. Instances are equal only if they are the same, and
functions are never compared. -/
def equal? : Value → Value → Option Bool
  | number a, number b => some (a.eq b)
  | text a, text b => some (a = b)
  | bool a, bool b => some (a = b)
  | unit, unit => some true
  | inst a, inst b => some (a = b)
  | _, _ => none

/-- Whether two values are one and the same instance. -/
def isSameInstance : Value → Value → Bool
  | inst a, inst b => a = b
  | _, _ => false

/-- The result of an operator that evaluates both of its operands. -/
def binary (h : Heap) : BinaryOp → Value → Value → Except Fault Value
  | .equal, a, b =>
    match equal? a b with
    | some e => .ok (.bool e)
    | none => .error (.incomparable (h.typeName a) (h.typeName b))
  | .notEqual, a, b =>
    match equal? a b with
    | some e => .ok (.bool !e)
    | none => .error (.incomparable (h.typeName a) (h.typeName b))
  | .order op, number a, number b => .ok (.bool (op.numbers a b))
  | .order op, text a, text b => .ok (.bool (op.texts a b))
  | .order _, a, b => .error (.incomparable (h.typeName a) (h.typeName b))
  | .arith op, number a, number b => .ok (.number (op.numbers a b))
  | .arith .add, text a, text b => .ok (.text (a ++ b))
  | .arith op, a, b => .error (.badArith op (h.typeName a) (h.typeName b))

/-- The result of an operator in front of its operand. -/
def unary (h : Heap) : UnaryOp → Value → Except Fault Value
  | .negate, number a => .ok (.number a.neg)
  | .not, bool a => .ok (.bool !a)
  | op, a => .error (.badUnary op (h.typeName a))

end Value

end Rustlet
