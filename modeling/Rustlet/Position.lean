/-! Places in a source text, and how reading a character moves them. -/
namespace Rustlet

/-- A place in a source text. Lines and columns both count from one, and a column is one character
wide. -/
structure Pos where
  line : Nat
  column : Nat
deriving DecidableEq

namespace Pos

/-- The place of the first character. -/
def start : Pos := ⟨1, 1⟩

/-- The same line, `n` columns further. -/
def right (p : Pos) (n : Nat) : Pos := ⟨p.line, p.column + n⟩

/-- The first column of the next line. -/
def nextLine (p : Pos) : Pos := ⟨p.line + 1, 1⟩

/-- The place after a character that stands at `p`. -/
def next (p : Pos) (c : Char) : Pos := if c = '\n' then p.nextLine else p.right 1

/-- The place after a run of characters that starts at `p`. -/
def nextAll (p : Pos) (cs : List Char) : Pos := cs.foldl next p

/-- How a place is named at the end of a message. -/
def text : Pos → String
  | ⟨line, column⟩ => s!"line {line} col {column}"

end Pos

end Rustlet
