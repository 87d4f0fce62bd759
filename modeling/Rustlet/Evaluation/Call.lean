import Rustlet.Evaluation.Job

/-! The rules of calls. -/
namespace Rustlet.Evaluation

open Eval

/-- Binds parameters to arguments. -/
def bindParams (scope : ScopeId) : List Param → List Value → Eval Unit
  | p :: params, v :: args => do
    define scope p.name v
    bindParams scope params args
  | _, _ => pure ()

/-- Binds `self` in the scope of a body. Gives the fresh instance if one was made for it. -/
def bindSelf (s : Setting) (e : Entry) (scope : ScopeId) (pos : Pos) :
    Eval (Option InstanceId) := do
  match e.receiver, e.makesSelf, e.owner with
  | some id, _, _ =>
    define scope selfName (.inst id)
    pure none
  | none, true, some owner =>
    let struct ← ofExcept (s.registry.struct owner (some pos))
    let id ← alloc struct.blank
    define scope selfName (.inst id)
    pure (some id)
  | _, _, _ => pure none

/-- Runs the body of a function in a scope of its own. A body with a fresh instance for `self` that
gives no value gives that instance. -/
def enterRule (s : Setting) (run : Runner) (e : Entry) (args : List Value) (pos : Pos) :
    Eval Value := do
  if args.length = e.decl.params.length then
    let scope ← openScope e.scope
    let fresh ← bindSelf s e scope pos
    bindParams scope e.decl.params args
    note (.called e.label)
    let v ← withinCall e.owner (run (.body e.decl.body scope))
    match fresh, v with
    | some id, .unit => pure (.inst id)
    | _, v => pure v
  else fault (.wrongArity e.label e.decl.params.length args.length) pos

/-- The name of the struct that a type names. `Self` is the struct of the innermost call. -/
def resolve (type : TypePath) (pos : Pos) : Eval String := do
  match type with
  | .named name => pure name
  | .selfType =>
    match (← get).calls with
    | some owner :: _ => pure owner
    | _ => fault .selfOutsideImpl pos

/-- Calls a function value. -/
def callRule (run : Runner) (pos : Pos) (callee : Expr) (args : List Expr) (scope : ScopeId) :
    Eval Value := do
  match ← run (.expr callee scope) with
  | .fn f =>
    let vs ← run (.args args scope)
    run (.apply (.closure f) vs pos)
  | v =>
    let type ← typeName v
    fault (.notCallable type) pos

/-- Calls a method on an instance. -/
def methodCallRule (s : Setting) (run : Runner) (pos : Pos) (receiver : Expr) (method : String)
    (args : List Expr) (scope : ScopeId) : Eval Value := do
  let id ← run (.object receiver scope)
  let i ← instanceAt id
  let m ← ofExcept (s.registry.method i.type method (some pos))
  if m.hasReceiver then
    let vs ← run (.args args scope)
    run (.apply (.method m (some id)) vs pos)
  else fault (.noReceiver m.owner m.decl.name) pos

/-- Calls a method or an associated function through the name of its struct. A method takes its
instance as the first argument. -/
def pathCallRule (s : Setting) (run : Runner) (pos : Pos) (type : TypePath) (name : String)
    (args : List Expr) (scope : ScopeId) : Eval Value := do
  let owner ← resolve type pos
  let _ ← ofExcept (s.registry.struct owner (some pos))
  let m ← ofExcept (s.registry.method owner name (some pos))
  let vs ← run (.args args scope)
  if m.hasReceiver then
    match vs with
    | [] => fault (.missingReceiver owner name) pos
    | .inst id :: rest =>
      let i ← instanceAt id
      if i.type = owner then run (.apply (.method m (some id)) rest pos)
      else fault (.wrongReceiver owner name) pos
    | _ :: _ => fault (.wrongReceiver owner name) pos
  else run (.apply (.method m none) vs pos)

end Rustlet.Evaluation
