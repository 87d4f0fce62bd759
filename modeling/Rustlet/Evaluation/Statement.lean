import Rustlet.Evaluation.Job

/-! The rules of bodies and statements. -/
namespace Rustlet.Evaluation

open Eval

/-- Binds the functions of a body in its scope before anything of it runs. -/
def hoist (scope : ScopeId) : List Stmt → Eval Unit
  | [] => pure ()
  | .fnDecl d :: rest => do
    define scope d.name (.fn ⟨d, scope⟩)
    hoist scope rest
  | _ :: rest => hoist scope rest

/-- Runs statements one after the other; the value is that of the last, or `v` if there is none. -/
def sequence (run : Runner) (scope : ScopeId) : Value → List Stmt → Eval Value
  | v, [] => pure v
  | _, s :: rest => do
    let v ← run (.stmt s scope)
    sequence run scope v rest

/-- Runs a body in a scope that has been opened for it. -/
def bodyRule (run : Runner) (stmts : List Stmt) (scope : ScopeId) : Eval Value := do
  hoist scope stmts
  sequence run scope .unit stmts

/-- Runs a body in a new scope inside another. -/
def nested (run : Runner) (stmts : List Stmt) (scope : ScopeId) : Eval Value := do
  let inner ← openScope scope
  run (.body stmts inner)

/-- Binds a name. A name that takes over an instance from another name leaves that one moved. -/
def letRule (run : Runner) (name : String) (value : Expr) (scope : ScopeId) : Eval Value := do
  let v ← run (.expr value scope)
  match value, v with
  | .name _ source, .inst _ =>
    markMoved scope source
    note (.moved source name)
  | _, _ => pure ()
  define scope name v
  pure .unit

/-- Gives a name or a field a new value, which is found before the field's instance is. -/
def assignRule (s : Setting) (run : Runner) (target : Place) (value : Expr) (scope : ScopeId) :
    Eval Value := do
  let v ← run (.expr value scope)
  match target with
  | .name pos name =>
    assign scope name v pos
    pure .unit
  | .field pos object field =>
    let id ← run (.object object scope)
    let i ← instanceAt id
    let struct ← ofExcept (s.registry.struct i.type (some pos))
    if struct.hasField field || i.fields.contains field then
      setField id field v
      pure .unit
    else fault (.unknownField i.type field) pos

/-- Runs the body that a condition chooses. -/
def conditionalRule (run : Runner) (c : Conditional) (scope : ScopeId) : Eval Value := do
  match ← run (.expr c.condition scope) with
  | .bool true => nested run c.thenBody scope
  | .bool false =>
    match c.elseBody with
    | some body => nested run body scope
    | none => pure .unit
  | v =>
    let type ← typeName v
    fault (.ifNotBool type) c.condition.pos

/-- Runs a body as long as a condition holds, each time in a new scope. -/
def whileRule (run : Runner) (condition : Expr) (body : List Stmt) (scope : ScopeId) :
    Nat → Eval Value
  | 0 => throw .unfinished
  | rounds + 1 => do
    match ← run (.expr condition scope) with
    | .bool true =>
      let _ ← nested run body scope
      whileRule run condition body scope rounds
    | .bool false => pure .unit
    | v =>
      let type ← typeName v
      fault (.whileNotBool type) condition.pos

/-- Ends the innermost call. Outside of a call this fails before the value is found. -/
def returnRule (run : Runner) (pos : Pos) (value : Option Expr) (scope : ScopeId) : Eval Value := do
  if (← get).calls.isEmpty then fault .returnOutsideFn pos
  else
    match value with
    | some e =>
      let v ← run (.expr e scope)
      throw (.returned v)
    | none => throw (.returned .unit)

/-- Runs a statement. Declarations have been dealt with before. -/
def stmtRule (s : Setting) (run : Runner) (scope : ScopeId) : Stmt → Eval Value
  | .letIn _ name _ value => letRule run name value scope
  | .assign _ target value => assignRule s run target value scope
  | .expr _ e terminated => do
    let v ← run (.expr e scope)
    pure (if terminated then .unit else v)
  | .conditional c => conditionalRule run c scope
  | .whileLoop _ condition body => whileRule run condition body scope s.rounds
  | .block _ body => nested run body scope
  | .ret pos value => returnRule run pos value scope
  | .structDecl _ | .implBlock _ | .fnDecl _ => pure .unit

end Rustlet.Evaluation
