import Rustlet.Grammar.Expression
import Rustlet.Grammar.Statement
import Rustlet.Limits
import Rustlet.Pragma

/-! Reading scripts, with a bound on the constructs that are nested in one another. -/
namespace Rustlet

namespace Grammar

/-- The rule of each construct. -/
def Goal.rule (read : Reader) : {α : Type} → Goal α → Parse α
  | _, .program => programRule read
  | _, .stmt => stmtRule read
  | _, .block => blockRule read
  | _, .decl => declRule read
  | _, .structDecl => structDeclRule read
  | _, .implBlock => implBlockRule read
  | _, .fnDecl => fnDeclRule read
  | _, .receiver => receiverRule
  | _, .param => paramRule read
  | _, .type => typeRule read
  | _, .letStmt => letRule read
  | _, .conditional => conditionalRule read
  | _, .whileStmt => whileRule read
  | _, .returnStmt => returnRule read
  | _, .exprStmt => exprStmtRule read
  | _, .expr literals => read (.disjunction literals)
  | _, .disjunction literals => leftJoined (read (.conjunction literals)) disjunctionOp?
  | _, .conjunction literals => leftJoined (read (.comparison literals)) conjunctionOp?
  | _, .comparison literals => comparisonRule read literals
  | _, .sum literals => leftJoined (read (.product literals)) sumOp?
  | _, .product literals => leftJoined (read (.unary literals)) productOp?
  | _, .unary literals => unaryRule read literals
  | _, .postfixed literals => postfixedRule read literals
  | _, .primary literals => primaryRule read literals
  | _, .args => argsRule read
  | _, .structLit t => structLitRule read t

/-- Reads a construct whose parts are nested at most `depth` deep, itself included. -/
def parse : (depth : Nat) → {α : Type} → Goal α → Parse α
  | 0, _, _ => Parse.unexpected .shallowerNesting
  | depth + 1, _, goal => goal.rule (parse depth)

end Grammar

/-- Why a text is no script. -/
inductive SyntaxError
  | lexical (e : LexError)
  | grammar (e : ParseError)
deriving DecidableEq

/-- The cursor at the start of a text that can be read as tokens to its end. -/
def Cursor.ofSource (source : String) : Except SyntaxError Cursor :=
  let scan := Scan.ofSource source
  match scan.error? with
  | some e => .error (.lexical e)
  | none => .ok ⟨scan.tokens, scan.stop⟩

/-- Reads a construct at the start of a text. Tells also how many tokens it takes. -/
def Grammar.Goal.ofSource {α : Type} (goal : Goal α) (source : String) (limits : Limits) :
    Except SyntaxError (α × Nat) := do
  let start ← Cursor.ofSource source
  match (parse limits.depth goal).run start with
  | .error e => throw (.grammar e)
  | .ok (a, stop) => pure (a, start.rest.length - stop.rest.length)

/-- Reads a script. -/
def Program.ofSource (source : String) (limits : Limits) : Except SyntaxError Program := do
  let (items, _) ← Grammar.Goal.program.ofSource source limits
  pure ⟨items, Pragma.strictMoves source⟩

end Rustlet
