import Rustlet.Text.Blank
import Rustlet.Text.Lines

/-! Directives in the comment lines at the head of a script. -/
namespace Rustlet.Pragma

/-- The bodies of the comment lines that come before the first line of anything else. Empty lines do
not count, and neither does white space around a line or a body. -/
def leadingComments : List (List Char) → List (List Char)
  | [] => []
  | line :: rest =>
    match Text.strip line with
    | [] => leadingComments rest
    | '/' :: '/' :: body => Text.strip body :: leadingComments rest
    | _ => []

/-- The directive that makes reading a moved binding an error. -/
def strictMovesDirective : List Char := "pragma strict-moves".toList

/-- Whether a script asks for strict moves. -/
def strictMoves (source : String) : Bool :=
  strictMovesDirective ∈ leadingComments (Text.splitOn '\n' source.toList)

end Rustlet.Pragma
