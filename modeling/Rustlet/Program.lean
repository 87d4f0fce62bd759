import Rustlet.Number.Basic
import Rustlet.Position

/-! Scripts as trees: types, expressions, statements and declarations. -/
namespace Rustlet

/-- How a type is named. -/
inductive TypePath
  | selfType
  | named (name : String)
deriving DecidableEq

/-- How the name is written. -/
def TypePath.text : TypePath → String
  | selfType => "Self"
  | named name => name

/-- A type as written in a declaration. -/
inductive TypeExpr
  | path (path : TypePath)
  | unit
  | ref (isMut : Bool) (target : TypeExpr)
deriving DecidableEq

/-- The tag of a type: its text with one space after each `mut` and none elsewhere. -/
def TypeExpr.tag : TypeExpr → String
  | path p => p.text
  | unit => "()"
  | ref false target => "&" ++ target.tag
  | ref true target => "&mut " ++ target.tag

/-- How a method takes the instance it is called on. -/
inductive Receiver
  | value
  | shared
  | exclusive
deriving DecidableEq

/-- How the receiver is written. -/
def Receiver.text : Receiver → String
  | value => "self"
  | shared => "&self"
  | exclusive => "&mut self"

/-- The name under which a method sees the instance it is called on. -/
def selfName : String := "self"

/-- An operator in front of its operand. -/
inductive UnaryOp
  | negate
  | not
deriving DecidableEq

/-- How the operator is written. -/
def UnaryOp.text : UnaryOp → String
  | negate => "-"
  | not => "!"

/-- An operator on numbers; the first of them also joins texts. -/
inductive ArithOp
  | add | sub | mul | div | rem
deriving DecidableEq

/-- An order between two numbers or two texts. -/
inductive OrderOp
  | lt | le | gt | ge
deriving DecidableEq

/-- An operator that evaluates both of its operands. -/
inductive BinaryOp
  | arith (op : ArithOp)
  | equal
  | notEqual
  | order (op : OrderOp)
deriving DecidableEq

/-- How the operator is written. -/
def ArithOp.text : ArithOp → String
  | add => "+"
  | sub => "-"
  | mul => "*"
  | div => "/"
  | rem => "%"

/-- How the operator is written. -/
def OrderOp.text : OrderOp → String
  | lt => "<"
  | le => "<="
  | gt => ">"
  | ge => ">="

/-- How the operator is written. -/
def BinaryOp.text : BinaryOp → String
  | arith op => op.text
  | equal => "=="
  | notEqual => "!="
  | order op => op.text

/-- An operator that evaluates its right operand only if the left one does not decide. -/
inductive LogicOp
  | and
  | or
deriving DecidableEq

/-- How the operator is written. -/
def LogicOp.text : LogicOp → String
  | and => "&&"
  | or => "||"

/-- A parameter of a function. -/
structure Param where
  pos : Pos
  name : String
  type : TypeExpr

/-- A field in the declaration of a struct. -/
structure FieldDecl where
  pos : Pos
  name : String
  type : TypeExpr

/-- The declaration of a struct. -/
structure StructDecl where
  pos : Pos
  name : String
  fields : List FieldDecl

mutual

/-- An expression. The name `self` is a name like any other. -/
inductive Expr where
  | number (pos : Pos) (value : Number)
  | text (pos : Pos) (value : String)
  | bool (pos : Pos) (value : Bool)
  | name (pos : Pos) (name : String)
  | unary (pos : Pos) (op : UnaryOp) (operand : Expr)
  | binary (op : BinaryOp) (left right : Expr)
  | logic (op : LogicOp) (left right : Expr)
  | field (pos : Pos) (object : Expr) (name : String)
  | call (pos : Pos) (callee : Expr) (args : List Expr)
  | pathCall (pos : Pos) (type : TypePath) (name : String) (args : List Expr)
  | methodCall (pos : Pos) (receiver : Expr) (method : String) (args : List Expr)
  | macroCall (pos : Pos) (name : String) (args : List Expr)
  | structLit (pos : Pos) (type : TypePath) (fields : List FieldInit)
  | conditional (c : Conditional)

/-- A field and its value in a struct literal. -/
structure FieldInit where
  pos : Pos
  name : String
  value : Expr

/-- A choice between two bodies. A chain of choices is a choice whose second body is a single
choice. -/
structure Conditional where
  pos : Pos
  condition : Expr
  thenBody : List Stmt
  elseBody : Option (List Stmt)

/-- What can stand on the left of an assignment. -/
inductive Place where
  | name (pos : Pos) (name : String)
  | field (pos : Pos) (object : Expr) (name : String)

/-- The declaration of a function or a method. -/
structure FnDecl where
  pos : Pos
  name : String
  receiver : Option Receiver
  params : List Param
  ret : TypeExpr
  body : List Stmt

/-- The methods of a struct. -/
structure ImplBlock where
  pos : Pos
  type : String
  methods : List FnDecl

/-- A statement. An expression that no semicolon ends gives its value to the body it closes. -/
inductive Stmt where
  | letIn (pos : Pos) (name : String) (type : Option TypeExpr) (value : Expr)
  | assign (pos : Pos) (target : Place) (value : Expr)
  | expr (pos : Pos) (value : Expr) (terminated : Bool)
  | conditional (c : Conditional)
  | whileLoop (pos : Pos) (condition : Expr) (body : List Stmt)
  | block (pos : Pos) (body : List Stmt)
  | ret (pos : Pos) (value : Option Expr)
  | structDecl (decl : StructDecl)
  | implBlock (block : ImplBlock)
  | fnDecl (decl : FnDecl)

end

/-- The place that messages about an expression name: of an infix expression the place of its left
operand, of an access or a call the place of the name or parenthesis that makes it one. -/
def Expr.pos : Expr → Pos
  | number p _ | text p _ | bool p _ | name p _ | unary p _ _ | field p _ _ | call p _ _
  | pathCall p _ _ _ | methodCall p _ _ _ | macroCall p _ _ | structLit p _ _ => p
  | binary _ left _ | logic _ left _ => left.pos
  | conditional c => c.pos

/-- The place where a statement starts; of a declaration, its keyword. -/
def Stmt.pos : Stmt → Pos
  | letIn p _ _ _ | assign p _ _ | expr p _ _ | whileLoop p _ _ | block p _ | ret p _ => p
  | conditional c => c.pos
  | structDecl d => d.pos
  | implBlock b => b.pos
  | fnDecl d => d.pos

/-- A script: its items in order, and whether it asks for strict moves. -/
structure Program where
  items : List Stmt
  strictMoves : Bool

end Rustlet
