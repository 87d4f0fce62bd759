import Rustlet.Fault
import Rustlet.Value

/-! Structs and methods are entered one by one until the registry is frozen. -/
namespace Rustlet

/-- A struct: its fields with the tags of their types, as often as they are declared. -/
structure StructDef where
  name : String
  fields : List (String × String)
  pos : Option Pos

namespace StructDef

/-- The struct that a declaration declares. -/
def ofDecl (d : StructDecl) : StructDef :=
  ⟨d.name, d.fields.map fun f => (f.name, f.type.tag), some d.pos⟩

/-- The names of the fields in order of declaration. -/
def fieldNames (s : StructDef) : List String := s.fields.map (·.1)

/-- Whether a field is declared. -/
def hasField (s : StructDef) (name : String) : Bool := name ∈ s.fieldNames

/-- An instance whose fields have the values that their types start with. -/
def blank (s : StructDef) : Instance := ⟨s.name, .ofList (s.fields.map fun f => (f.1, .zero f.2))⟩

end StructDef

/-- A method or an associated function: the name of its struct, and its declaration. -/
structure MethodDef where
  owner : String
  decl : FnDecl
  pos : Option Pos

namespace MethodDef

/-- The method that a declaration in the methods of `owner` declares. -/
def ofDecl (owner : String) (decl : FnDecl) : MethodDef := ⟨owner, decl, some decl.pos⟩

/-- Whether the method is called on an instance. -/
def hasReceiver (m : MethodDef) : Bool := m.decl.receiver.isSome

/-- Whether the method says that it returns an instance of its own struct. -/
def returnsSelf (m : MethodDef) : Bool :=
  m.decl.ret.tag = TypePath.selfType.text || m.decl.ret.tag = m.owner

end MethodDef

/-- Structs by name, and methods by the name of their struct and their own name. -/
structure Registry where
  structs : Table StructDef
  methods : Table (Table MethodDef)
  frozen : Bool

namespace Registry

/-- The registry without declarations. -/
def empty : Registry := ⟨.empty, .empty, false⟩

/-- Enters a struct, which must be new. -/
def addStruct (r : Registry) (s : StructDef) : Except RuntimeError Registry :=
  if r.frozen then .error ⟨.frozenRegistry, none⟩
  else if r.structs.contains s.name then .error ⟨.duplicateStruct s.name, s.pos⟩
  else .ok { r with structs := r.structs.insert s.name s }

/-- The methods entered for a struct. -/
def methodsOf (r : Registry) (owner : String) : Table MethodDef :=
  (r.methods.get? owner).getD .empty

/-- Enters a method, which must be new for its struct. The struct need not be known yet. -/
def addMethod (r : Registry) (m : MethodDef) : Except RuntimeError Registry :=
  if r.frozen then .error ⟨.frozenRegistry, none⟩
  else if (r.methodsOf m.owner).contains m.decl.name then
    .error ⟨.duplicateMethod m.owner m.decl.name, m.pos⟩
  else
    .ok { r with methods := r.methods.insert m.owner ((r.methodsOf m.owner).insert m.decl.name m) }

/-- Closes the registry. It stays open if methods are left without their struct; the first such
struct is blamed on its first method. -/
def freeze (r : Registry) : Except RuntimeError Registry :=
  match r.methods.entries.find? fun e => !r.structs.contains e.1 with
  | some (owner, methods) => .error ⟨.orphanImpl owner, methods.entries.head?.bind (·.2.pos)⟩
  | none => .ok { r with frozen := true }

/-- The struct with a name. -/
def struct (r : Registry) (name : String) (pos : Option Pos) : Except RuntimeError StructDef :=
  match r.structs.get? name with
  | some s => .ok s
  | none => .error ⟨.unknownStruct name, pos⟩

/-- The method of a struct with a name. -/
def method (r : Registry) (owner name : String) (pos : Option Pos) :
    Except RuntimeError MethodDef :=
  match (r.methodsOf owner).get? name with
  | some m => .ok m
  | none => .error ⟨.unknownMethod owner name, pos⟩

/-- The names of the fields of every struct, in order of declaration. -/
def fieldOrder (r : Registry) : Table (List String) := r.structs.map fun _ s => s.fieldNames

end Registry

end Rustlet
