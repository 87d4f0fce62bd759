import Rustlet.Program
import Rustlet.Table

/-! Instances are shared: a value holds the index of an instance, and the instance itself stands in
the heap, where assignments to its fields change it for everyone who holds it. -/
namespace Rustlet

/-- The index of a scope. -/
abbrev ScopeId := Nat

/-- The index of a struct instance. -/
abbrev InstanceId := Nat

/-- A function together with the scope it was declared in. -/
structure Closure where
  decl : FnDecl
  scope : ScopeId

/-- A value. -/
inductive Value
  | number (n : Number)
  | text (s : String)
  | bool (b : Bool)
  | unit
  | inst (id : InstanceId)
  | fn (f : Closure)

instance : Inhabited Value := ⟨.unit⟩

namespace Value

/-- The tags of types whose values are numbers. -/
def numericTags : List String :=
  ["f32", "f64", "i8", "i16", "i32", "i64", "isize", "u8", "u16", "u32", "u64", "usize"]

/-- The tags of types whose values are texts. -/
def textTags : List String := ["String", "str"]

/-- Drops one mark of a mutable reference and then one of a reference from the front of a tag. -/
def dropRef (tag : List Char) : List Char :=
  let rest := match tag with
    | '&' :: 'm' :: 'u' :: 't' :: ' ' :: rest => rest
    | tag => tag
  match rest with
  | '&' :: rest => rest
  | rest => rest

/-- The value that a field of a type starts with. -/
def zero (tag : String) : Value :=
  let base := String.ofList (dropRef tag.toList)
  if base ∈ numericTags then .number .zero
  else if base ∈ textTags then .text ""
  else if base = "bool" then .bool false
  else .unit

end Value

/-- A struct instance: the name of its struct and its fields in order of first entry. -/
structure Instance where
  type : String
  fields : Table Value

/-- All struct instances, by index. -/
structure Heap where
  instances : Array Instance

namespace Heap

/-- The heap without instances. -/
def empty : Heap := ⟨#[]⟩

/-- How many instances there are. -/
def size (h : Heap) : Nat := h.instances.size

/-- An instance. An index that is not in use stands for an instance of a nameless struct without
fields. -/
def get (h : Heap) (id : InstanceId) : Instance := h.instances[id]?.getD ⟨"", .empty⟩

/-- Adds an instance under the next index, which is the old size. -/
def alloc (h : Heap) (i : Instance) : Heap := ⟨h.instances.push i⟩

/-- Gives a field of an instance a value. -/
def setField (h : Heap) (id : InstanceId) (field : String) (v : Value) : Heap :=
  ⟨h.instances.modify id fun i => { i with fields := i.fields.insert field v }⟩

/-- The name of a value's type as messages show it. -/
def typeName (h : Heap) : Value → String
  | .number _ => "f64"
  | .text _ => "String"
  | .bool _ => "bool"
  | .unit => "()"
  | .inst id => (h.get id).type
  | .fn _ => "fn"

@[simp] theorem size_alloc (h : Heap) (i : Instance) : (h.alloc i).size = h.size + 1 :=
  Array.size_push i

@[simp] theorem size_setField (h : Heap) (id : InstanceId) (field : String) (v : Value) :
    (h.setField id field v).size = h.size :=
  Array.size_modify

/-- A new instance has the next index, and all others stay. -/
theorem get_alloc (h : Heap) (i : Instance) (id : InstanceId) :
    (h.alloc i).get id = if id = h.size then i else h.get id := by
  unfold get alloc size
  rw [Array.getElem?_push]
  split <;> rfl

/-- A field of an instance that exists has the new value, and all else stays. -/
theorem get_setField (h : Heap) (id : InstanceId) (field : String) (v : Value) (id' : InstanceId) :
    (h.setField id field v).get id' =
      if id' = id ∧ id < h.size then { h.get id with fields := (h.get id).fields.insert field v }
      else h.get id' := by
  unfold get setField size
  rw [Array.getElem?_modify]
  by_cases hid : id = id'
  · subst hid
    by_cases hlt : id < h.instances.size
    · simp [hlt]
    · simp [hlt]
  · simp [hid, Ne.symm hid]

/-- An index that is not in use stands for a nameless instance without fields. -/
theorem get_of_size_le {h : Heap} {id : InstanceId} (hid : h.size ≤ id) :
    h.get id = ⟨"", .empty⟩ := by
  unfold get
  rw [Array.getElem?_eq_none hid]
  rfl

end Heap

end Rustlet
