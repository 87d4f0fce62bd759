import Rustlet.Value

/-! Scopes form a tree: each but the first has a parent that was opened before it. A name means its
binding in the nearest scope that has one, from a scope towards the root. -/
namespace Rustlet

/-- The value of a name, and whether it has been moved away. -/
structure Binding where
  value : Value
  moved : Bool

/-- A scope: the scope around it and its own bindings. -/
structure Scope where
  parent : Option ScopeId
  bindings : Table Binding

/-- All scopes, by index. -/
structure ScopeTree where
  scopes : Array Scope

namespace ScopeTree

/-- The index of the outermost scope. -/
def global : ScopeId := 0

/-- The tree of one empty scope. -/
def root : ScopeTree := ⟨#[⟨none, .empty⟩]⟩

/-- Opens a scope inside another. Its index is the number of scopes before it. -/
def openIn (t : ScopeTree) (parent : ScopeId) : ScopeTree := ⟨t.scopes.push ⟨some parent, .empty⟩⟩

/-- The index of the scope that is opened next. -/
def next (t : ScopeTree) : ScopeId := t.scopes.size

/-- The binding of a name in one scope. -/
def local? (t : ScopeTree) (s : ScopeId) (name : String) : Option Binding :=
  t.scopes[s]?.bind (·.bindings.get? name)

/-- The scope around a scope. Only a scope that was opened before counts. -/
def parent? (t : ScopeTree) (s : ScopeId) : Option { p : ScopeId // p < s } :=
  match t.scopes[s]?.bind (·.parent) with
  | some p => if h : p < s then some ⟨p, h⟩ else none
  | none => none

/-- The nearest scope, from `s` outwards, that binds a name. -/
def owner? (t : ScopeTree) (s : ScopeId) (name : String) : Option ScopeId :=
  if (t.local? s name).isSome then some s
  else match t.parent? s with
    | some p => t.owner? p.1 name
    | none => none
termination_by s
decreasing_by exact p.2

/-- The binding that a name means in a scope. -/
def find? (t : ScopeTree) (s : ScopeId) (name : String) : Option Binding :=
  (t.owner? s name).bind (t.local? · name)

/-- Binds a name in a scope, over any binding it has there or further out. -/
def define (t : ScopeTree) (s : ScopeId) (name : String) (v : Value) : ScopeTree :=
  ⟨t.scopes.modify s fun scope => { scope with bindings := scope.bindings.insert name ⟨v, false⟩ }⟩

/-- Changes the binding that a name means in a scope. A name without a binding is left alone. -/
def update (t : ScopeTree) (s : ScopeId) (name : String) (f : Binding → Binding) : ScopeTree :=
  match t.owner? s name with
  | some owner =>
    ⟨t.scopes.modify owner fun scope =>
      { scope with bindings := scope.bindings.modify name f }⟩
  | none => t

/-- Whether a name means something in a scope. -/
def binds (t : ScopeTree) (s : ScopeId) (name : String) : Bool := (t.owner? s name).isSome

/-- Gives the binding that a name means a new value, which has not been moved. -/
def assign (t : ScopeTree) (s : ScopeId) (name : String) (v : Value) : ScopeTree :=
  t.update s name fun _ => ⟨v, false⟩

/-- Gives the binding that a name means a new value, if the name means something. -/
def assign? (t : ScopeTree) (s : ScopeId) (name : String) (v : Value) : Option ScopeTree :=
  if t.binds s name then some (t.assign s name v) else none

/-- Marks the binding that a name means as moved. -/
def markMoved (t : ScopeTree) (s : ScopeId) (name : String) : ScopeTree :=
  t.update s name fun b => { b with moved := true }

/-- Whether the binding that a name means has been moved. -/
def isMoved (t : ScopeTree) (s : ScopeId) (name : String) : Bool := (t.find? s name).any (·.moved)

@[simp] theorem next_openIn (t : ScopeTree) (parent : ScopeId) :
    (t.openIn parent).next = t.next + 1 :=
  Array.size_push _

@[simp] theorem next_define (t : ScopeTree) (s : ScopeId) (name : String) (v : Value) :
    (t.define s name v).next = t.next :=
  Array.size_modify

@[simp] theorem next_update (t : ScopeTree) (s : ScopeId) (name : String) (f : Binding → Binding) :
    (t.update s name f).next = t.next := by
  unfold update
  split
  · exact Array.size_modify
  · rfl

theorem local?_openIn (t : ScopeTree) (parent s : ScopeId) (name : String) :
    (t.openIn parent).local? s name = t.local? s name := by
  unfold local? openIn
  rw [Array.getElem?_push]
  split
  · rename_i h
    rw [Array.getElem?_eq_none (Nat.le_of_eq h.symm)]
    rfl
  · rfl

theorem local?_define (t : ScopeTree) (s s' : ScopeId) (name x : String) (v : Value) :
    (t.define s name v).local? s' x =
      if s' = s ∧ name = x ∧ s < t.next then some ⟨v, false⟩ else t.local? s' x := by
  unfold local? define next
  rw [Array.getElem?_modify]
  by_cases hs : s = s'
  · subst hs
    by_cases hlt : s < t.scopes.size
    · by_cases hx : name = x <;> simp [hlt, Table.get?_insert, hx]
    · simp [hlt]
  · simp [hs, Ne.symm hs]

/-- Only the binding that a name means in a scope changes. -/
theorem local?_update (t : ScopeTree) (s s' : ScopeId) (name x : String) (f : Binding → Binding) :
    (t.update s name f).local? s' x =
      if t.owner? s name = some s' ∧ name = x then (t.local? s' x).map f else t.local? s' x := by
  unfold update
  cases ho : t.owner? s name with
  | none => simp
  | some owner =>
    unfold local?
    rw [Array.getElem?_modify]
    by_cases hs : owner = s'
    · subst hs
      by_cases hlt : owner < t.scopes.size
      · by_cases hx : name = x <;> simp [hlt, Table.get?_modify, hx]
      · simp [hlt]
    · simp [hs]

end ScopeTree

end Rustlet
