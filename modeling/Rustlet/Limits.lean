/-! The bounds of a run. -/
namespace Rustlet

/-- What bounds a run: the number of frames on the stack, and the rounds of a single loop. -/
structure Limits where
  stack : Nat
  rounds : Nat

namespace Limits

/-- The bounds of an ordinary run. A loop never takes as many rounds. -/
def default : Limits := ⟨1000, Nat.pow 10 18⟩

/-- How deep constructs may be nested: some frames are in use when reading starts. -/
def depth (l : Limits) : Nat := l.stack - 7

/-- How many jobs may be under way at once: some frames are in use when an item starts. -/
def frames (l : Limits) : Nat := l.stack - 12

end Limits

end Rustlet
