import Rustlet.Evaluation.Call
import Rustlet.Evaluation.Operator

/-! The rules of expressions. -/
namespace Rustlet.Evaluation

open Eval

/-- Fails at a place if an operator does. -/
def operated (pos : Pos) : Except Fault Value → Eval Value
  | .ok v => pure v
  | .error f => fault f pos

/-- The values of expressions from first to last. -/
def argsRule (run : Runner) (scope : ScopeId) : List Expr → Eval (List Value)
  | [] => pure []
  | e :: rest => do
    let v ← run (.expr e scope)
    let vs ← argsRule run scope rest
    pure (v :: vs)

/-- The instance that an expression must give. -/
def instanceRule (run : Runner) (e : Expr) (scope : ScopeId) : Eval InstanceId := do
  match ← run (.expr e scope) with
  | .inst id => pure id
  | v =>
    let type ← typeName v
    fault (.notInstance type) e.pos

/-- The value of a name. Reading a moved name is noted, or is an error where moves are strict. -/
def nameRule (s : Setting) (pos : Pos) (name : String) (scope : ScopeId) : Eval Value := do
  let b ← find scope name pos
  if b.moved then
    if s.strictMoves then fault (.movedValue name) pos
    else
      note (.movedRead name)
      pure b.value
  else pure b.value

/-- Whether a left operand decides alone. -/
def decides : LogicOp → Bool → Bool
  | .and, b => !b
  | .or, b => b

/-- An operator that leaves its right operand alone if the left one decides. -/
def logicRule (run : Runner) (op : LogicOp) (left right : Expr) (scope : ScopeId) : Eval Value := do
  match ← run (.expr left scope) with
  | .bool a =>
    if decides op a then pure (.bool a)
    else
      match ← run (.expr right scope) with
      | .bool b => pure (.bool b)
      | v =>
        let type ← typeName v
        fault (.logicNotBool op type) left.pos
  | v =>
    let type ← typeName v
    fault (.logicNotBool op type) left.pos

/-- Gives fields of a fresh instance their values one after the other; `seen` are the fields that
have one. -/
def initFields (run : Runner) (struct : StructDef) (id : InstanceId) (scope : ScopeId)
    (seen : List String) : List FieldInit → Eval Unit
  | [] => pure ()
  | f :: rest => do
    if struct.hasField f.name then
      if f.name ∈ seen then fault (.repeatedField f.name) f.pos
      else
        let v ← run (.expr f.value scope)
        setField id f.name v
        initFields run struct id scope (f.name :: seen) rest
    else fault (.unknownField struct.name f.name) f.pos

/-- A fresh instance. Fields that are not given keep the value their type starts with. -/
def structLitRule (s : Setting) (run : Runner) (pos : Pos) (type : TypePath)
    (fields : List FieldInit) (scope : ScopeId) : Eval Value := do
  let name ← resolve type pos
  let struct ← ofExcept (s.registry.struct name (some pos))
  let id ← alloc struct.blank
  initFields run struct id scope [] fields
  pure (.inst id)

/-- The value of a field. -/
def fieldRule (run : Runner) (pos : Pos) (object : Expr) (field : String) (scope : ScopeId) :
    Eval Value := do
  let id ← run (.object object scope)
  let i ← instanceAt id
  match i.fields.get? field with
  | some v => pure v
  | none => fault (.unknownField i.type field) pos

/-- The value of an infix expression. -/
def binaryRule (run : Runner) (op : BinaryOp) (left right : Expr) (scope : ScopeId) :
    Eval Value := do
  let a ← run (.expr left scope)
  let b ← run (.expr right scope)
  operated left.pos (Value.binary (← get).heap op a b)

/-- The value of an operator in front of its operand. -/
def unaryRule (run : Runner) (pos : Pos) (op : UnaryOp) (operand : Expr) (scope : ScopeId) :
    Eval Value := do
  let a ← run (.expr operand scope)
  operated pos (Value.unary (← get).heap op a)

/-- The value of an expression. -/
def exprRule (s : Setting) (run : Runner) (scope : ScopeId) : Expr → Eval Value
  | .number _ n => pure (.number n)
  | .text _ t => pure (.text t)
  | .bool _ b => pure (.bool b)
  | .name pos name => nameRule s pos name scope
  | .unary pos op operand => unaryRule run pos op operand scope
  | .binary op left right => binaryRule run op left right scope
  | .logic op left right => run (.logic op left right scope)
  | .field pos object field => fieldRule run pos object field scope
  | .call pos callee args => callRule run pos callee args scope
  | .pathCall pos type name args => pathCallRule s run pos type name args scope
  | .methodCall pos receiver method args => methodCallRule s run pos receiver method args scope
  | .macroCall pos name args => run (.macroCall pos name args scope)
  | .structLit pos type fields => run (.structLit pos type fields scope)
  | .conditional c => run (.stmt (.conditional c) scope)

end Rustlet.Evaluation
