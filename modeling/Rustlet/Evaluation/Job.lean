import Rustlet.Machine
import Rustlet.Rendering

/-! A rule does the parts of its job through a function that does any job, so the rules themselves
do not recur, and the number of jobs under way is bounded in one place. -/
namespace Rustlet.Evaluation

/-- What stays the same while a script runs: how strict it is about moves, what is declared, how
fields are ordered, and how many rounds a loop may take. -/
structure Setting where
  strictMoves : Bool
  registry : Registry
  fieldOrder : FieldOrder
  rounds : Nat

/-- What is called: a function, or a method with the instance it is called on. -/
inductive Callee
  | closure (f : Closure)
  | method (m : MethodDef) (receiver : Option InstanceId)

/-- A body to enter: the scope it sees, the struct it belongs to, and where its `self` comes from.
If nothing is given for `self`, the body may still be set up with a fresh instance. -/
structure Entry where
  decl : FnDecl
  scope : ScopeId
  owner : Option String
  receiver : Option InstanceId
  makesSelf : Bool

namespace Entry

/-- A function that belongs to no struct. -/
def free (decl : FnDecl) (scope : ScopeId) : Entry := ⟨decl, scope, none, none, false⟩

/-- The entry of what is called. Methods see the outermost scope. One that is called without an
instance and says it returns its own struct starts with a fresh instance. -/
def ofCallee : Callee → Entry
  | .closure f => free f.decl f.scope
  | .method m receiver =>
    ⟨m.decl, ScopeTree.global, some m.owner, receiver, receiver.isNone && m.returnsSelf⟩

/-- How messages name what is entered. -/
def label (e : Entry) : String :=
  match e.owner with
  | some owner => owner ++ "::" ++ e.decl.name
  | none => e.decl.name

end Entry

/-- A job, indexed by what doing it gives. -/
inductive Job : Type → Type
  | stmt (s : Stmt) (scope : ScopeId) : Job Value
  | body (stmts : List Stmt) (scope : ScopeId) : Job Value
  | expr (e : Expr) (scope : ScopeId) : Job Value
  | args (es : List Expr) (scope : ScopeId) : Job (List Value)
  | object (e : Expr) (scope : ScopeId) : Job InstanceId
  | logic (op : LogicOp) (left right : Expr) (scope : ScopeId) : Job Value
  | structLit (pos : Pos) (type : TypePath) (fields : List FieldInit) (scope : ScopeId) : Job Value
  | macroCall (pos : Pos) (name : String) (args : List Expr) (scope : ScopeId) : Job Value
  | apply (callee : Callee) (args : List Value) (pos : Pos) : Job Value
  | enter (entry : Entry) (args : List Value) (pos : Pos) : Job Value

/-- A function that does every job. -/
abbrev Runner := ∀ {α : Type}, Job α → Eval α

end Rustlet.Evaluation
