/-! The lines of a text. -/
namespace Rustlet.Text

/-- Cuts at every `sep`; the pieces are one more than the separators. -/
def splitOn (sep : Char) : List Char → List (List Char)
  | [] => [[]]
  | c :: cs =>
    if c = sep then [] :: splitOn sep cs
    else match splitOn sep cs with
      | [] => [[c]]
      | piece :: rest => (c :: piece) :: rest

/-- A character that ends a line by itself. -/
def endsLine (c : Char) : Bool :=
  c ∈ ['\n', '\r', '\x0b', '\x0c', '\x1c', '\x1d', '\x1e', '\u0085', '\u2028', '\u2029']

/-- Collects lines; `line` holds the characters of the unfinished one, last first, and `cr` says
that the character just read was a carriage return, which a line feed may follow without ending a
second line. -/
def collectLines (line : List Char) (cr : Bool) : List Char → List (List Char)
  | [] => if line.isEmpty then [] else [line.reverse]
  | c :: cs =>
    if cr && c = '\n' then collectLines line false cs
    else if endsLine c then line.reverse :: collectLines [] (c = '\r') cs
    else collectLines (c :: line) false cs

/-- The lines of a text without their ends. A line end at the very end of the text opens no further
line. -/
def lines (text : String) : List String :=
  (collectLines [] false text.toList).map String.ofList

end Rustlet.Text
