import Rustlet.Proofs.Parallel.Rules

/-! Look-ahead goes by spelling alone, so it can take a text for a word or a mark. -/
namespace Rustlet.Grammar

open Parallel

/-- Whether a lexeme is spelled in a given way. -/
def spelled (spelling : String) (l : Option Lexeme) : Bool := l.any (·.spelling == spelling)

end Rustlet.Grammar
