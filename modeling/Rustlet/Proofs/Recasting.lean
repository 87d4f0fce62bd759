import Rustlet.Declaration
import Rustlet.Evaluation.Job
import Rustlet.Proofs.Relabelling

/-! Scripts that are written in another way, and the states of a run that shows how. -/
namespace Rustlet

/-- The struct that a type names inside the methods of a struct, or outside of any. -/
def TypePath.struct? (owner : Option String) : TypePath → Option String
  | selfType => owner
  | named name => some name

/-- A relabelling of which a running script sees nothing: texts stay, and a type names the same
struct. -/
structure Recasting extends Relabelling where
  content_eq : ∀ s, content s = s
  struct?_path : ∀ owner type, (path owner type).struct? owner = type.struct? owner

namespace Recasting

/-- Changes places only. -/
def placing (f : Pos → Pos) : Recasting :=
  { Relabelling.placing f with
    content_eq := fun _ => rfl
    struct?_path := fun _ _ => rfl }

/-- Forgets places. -/
def unplaced : Recasting := placing fun _ => .start

variable (ρ : Recasting)

theorem expr_text (owner : Option String) (pos : Pos) (content : String) :
    ρ.expr owner (.text pos content) = .text (ρ.place pos) content := by
  rw [Relabelling.expr, ρ.content_eq]

def error (e : RuntimeError) : RuntimeError := ⟨e.fault, e.pos.map ρ.place⟩

def structDef (d : StructDef) : StructDef := { d with pos := d.pos.map ρ.place }

def methodDef (m : MethodDef) : MethodDef :=
  ⟨m.owner, ρ.fnDecl (some m.owner) m.decl, m.pos.map ρ.place⟩

@[simp] theorem hasReceiver_methodDef (m : MethodDef) :
    (ρ.methodDef m).hasReceiver = m.hasReceiver := by
  simp [MethodDef.hasReceiver, methodDef]

/-- Whether a fresh instance is made for an associated function stays. -/
theorem returnsSelf_methodDef {m : MethodDef} (h : m.decl.receiver = none) :
    (ρ.methodDef m).returnsSelf = m.returnsSelf := by
  obtain ⟨struct, ⟨pos, name, receiver, params, ret, body⟩, place⟩ := m
  obtain rfl : receiver = none := h
  rfl

def declaration : Declaration → Declaration
  | .struct d => .struct (ρ.structDef d)
  | .method m => .method (ρ.methodDef m)

def registry (r : Registry) : Registry :=
  ⟨r.structs.map fun _ => ρ.structDef, r.methods.map fun _ t => t.map fun _ => ρ.methodDef,
    r.frozen⟩

/-- Of all values, only a function shows how its script is written. -/
def value : Value → Value
  | .number n => .number n
  | .text s => .text s
  | .bool b => .bool b
  | .unit => .unit
  | .inst id => .inst id
  | .fn f => .fn ⟨ρ.fnDecl none f.decl, f.scope⟩

def inst (i : Instance) : Instance := ⟨i.type, i.fields.map fun _ => ρ.value⟩

def heap (h : Heap) : Heap := ⟨h.instances.map ρ.inst⟩

def binding (b : Binding) : Binding := ⟨ρ.value b.value, b.moved⟩

def scope (s : Scope) : Scope := ⟨s.parent, s.bindings.map fun _ => ρ.binding⟩

def scopes (t : ScopeTree) : ScopeTree := ⟨t.scopes.map ρ.scope⟩

def logEntry : LogEntry → LogEntry
  | .itemAborted e => .itemAborted (ρ.error e)
  | .structEntered name => .structEntered name
  | .methodEntered owner method => .methodEntered owner method
  | .called label => .called label
  | .moved source target => .moved source target
  | .movedRead name => .movedRead name

def machine (m : Machine) : Machine :=
  ⟨ρ.heap m.heap, ρ.scopes m.scopes, m.calls, m.output, m.log.map ρ.logEntry⟩

def stop : Stop → Stop
  | .fault e => .fault (ρ.error e)
  | .returned v => .returned (ρ.value v)
  | .overflow => .overflow
  | .unfinished => .unfinished

section Evaluation

open Evaluation

def setting (s : Setting) : Setting := { s with registry := ρ.registry s.registry }

def callee : Callee → Callee
  | .closure f => .closure ⟨ρ.fnDecl none f.decl, f.scope⟩
  | .method m receiver => .method (ρ.methodDef m) receiver

def entry (e : Entry) : Entry := { e with decl := ρ.fnDecl e.owner e.decl }

/-- A job in a call of a method of `owner`, or of none. -/
def job (owner : Option String) : {α : Type} → Job α → Job α
  | _, .stmt s scope => .stmt (ρ.stmt owner s) scope
  | _, .body stmts scope => .body (stmts.map (ρ.stmt owner)) scope
  | _, .expr e scope => .expr (ρ.expr owner e) scope
  | _, .args es scope => .args (es.map (ρ.expr owner)) scope
  | _, .object e scope => .object (ρ.expr owner e) scope
  | _, .logic op left right scope => .logic op (ρ.expr owner left) (ρ.expr owner right) scope
  | _, .structLit pos type fields scope =>
    .structLit (ρ.place pos) (ρ.path owner type) (fields.map (ρ.init owner)) scope
  | _, .macroCall pos name args scope =>
    .macroCall (ρ.place pos) name (args.map (ρ.expr owner)) scope
  | _, .apply callee vs pos => .apply (ρ.callee callee) (vs.map ρ.value) (ρ.place pos)
  | _, .enter entry vs pos => .enter (ρ.entry entry) (vs.map ρ.value) (ρ.place pos)

/-- What a job gives. -/
def given : {α : Type} → Job α → α → α
  | _, .args .., vs => vs.map ρ.value
  | _, .object .., id => id
  | _, .stmt .., v => ρ.value v
  | _, .body .., v => ρ.value v
  | _, .expr .., v => ρ.value v
  | _, .logic .., v => ρ.value v
  | _, .structLit .., v => ρ.value v
  | _, .macroCall .., v => ρ.value v
  | _, .apply .., v => ρ.value v
  | _, .enter .., v => ρ.value v

end Evaluation

end Recasting

end Rustlet
