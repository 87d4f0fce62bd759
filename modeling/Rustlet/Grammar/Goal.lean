import Rustlet.Grammar.Cursor
import Rustlet.Program

/-! A rule reads its parts through a function that reads any construct, so the rules themselves do
not recur, and the depth of nesting is bounded in one place. -/
namespace Rustlet.Grammar

/-- A construct, indexed by what reading it gives. Expressions come with a flag that says whether a
name followed by a brace may be a struct literal: in a condition it may not, since the brace opens
the body. -/
inductive Goal : Type → Type
  | program : Goal (List Stmt)
  | stmt : Goal Stmt
  | block : Goal (List Stmt)
  | decl : Goal Stmt
  | structDecl : Goal StructDecl
  | implBlock : Goal ImplBlock
  | fnDecl : Goal FnDecl
  | receiver : Goal (Option Receiver)
  | param : Goal Param
  | type : Goal TypeExpr
  | letStmt : Goal Stmt
  | conditional : Goal Conditional
  | whileStmt : Goal Stmt
  | returnStmt : Goal Stmt
  | exprStmt : Goal Stmt
  | expr (literals : Bool) : Goal Expr
  | disjunction (literals : Bool) : Goal Expr
  | conjunction (literals : Bool) : Goal Expr
  | comparison (literals : Bool) : Goal Expr
  | sum (literals : Bool) : Goal Expr
  | product (literals : Bool) : Goal Expr
  | unary (literals : Bool) : Goal Expr
  | postfixed (literals : Bool) : Goal Expr
  | primary (literals : Bool) : Goal Expr
  | args : Goal (List Expr)
  | structLit (type : TypePath) : Goal Expr

/-- A reader of every construct. -/
abbrev Reader := ∀ {α : Type}, Goal α → Parse α

end Rustlet.Grammar
