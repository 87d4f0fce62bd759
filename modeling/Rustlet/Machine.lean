import Rustlet.Registry
import Rustlet.Scope

/-! A step that fails keeps what it has changed before, so the state after a failure is the state at
the failure. -/
namespace Rustlet

/-- What is noted while a script runs. -/
inductive LogEntry
  | structEntered (name : String)
  | methodEntered (owner method : String)
  | called (label : String)
  | moved (source target : String)
  | movedRead (name : String)
  | itemAborted (e : RuntimeError)

namespace LogEntry

/-- The wording of an entry. -/
def message : LogEntry → String
  | structEntered name => s!"registered struct {name}"
  | methodEntered owner method => s!"registered method {owner}::{method}"
  | called label => s!"call {label}"
  | moved source target => s!"'{source}' moved into '{target}'"
  | movedRead name => s!"use of moved binding '{name}'"
  | itemAborted e => "top-level item aborted: " ++ e.text

end LogEntry

/-- The state of a running script: the instances, the scopes, the calls under way with the struct
that each belongs to, innermost first, what has been printed, and what has been noted. -/
structure Machine where
  heap : Heap
  scopes : ScopeTree
  calls : List (Option String)
  output : String
  log : Array LogEntry

/-- The state before anything has run. -/
def Machine.start : Machine := ⟨.empty, .root, [], "", #[]⟩

/-- Why a step ends without a value: an error, a return to the innermost call, calls nested too
deeply, or a loop that has not ended within the number of rounds it was given. -/
inductive Stop
  | fault (e : RuntimeError)
  | returned (v : Value)
  | overflow
  | unfinished

/-- A step of a running script. -/
abbrev Eval := EStateM Stop Machine

namespace Eval

variable {α : Type}

/-- Fails at a place. -/
def fault (f : Fault) (pos : Pos) : Eval α := throw (.fault ⟨f, some pos⟩)

/-- Fails as a look-up does. -/
def ofExcept : Except RuntimeError α → Eval α
  | .ok a => pure a
  | .error e => throw (.fault e)

/-- Gives a result unless calls are nested too deeply for it. -/
def ofDepth : Option α → Eval α
  | some a => pure a
  | none => throw .overflow

/-- Notes something. -/
def note (entry : LogEntry) : Eval Unit := modify fun m => { m with log := m.log.push entry }

/-- Prints a text. -/
def print (text : String) : Eval Unit := modify fun m => { m with output := m.output ++ text }

/-- Opens a scope inside another. -/
def openScope (parent : ScopeId) : Eval ScopeId := do
  let s := (← get).scopes.next
  modify fun m => { m with scopes := m.scopes.openIn parent }
  pure s

/-- The binding that a name means in a scope. -/
def find (s : ScopeId) (name : String) (pos : Pos) : Eval Binding := do
  match (← get).scopes.find? s name with
  | some b => pure b
  | none => fault (.unknownName name) pos

/-- Binds a name in a scope. -/
def define (s : ScopeId) (name : String) (v : Value) : Eval Unit :=
  modify fun m => { m with scopes := m.scopes.define s name v }

/-- Gives the binding that a name means in a scope a new value. -/
def assign (s : ScopeId) (name : String) (v : Value) (pos : Pos) : Eval Unit := do
  if (← get).scopes.binds s name then modify fun m => { m with scopes := m.scopes.assign s name v }
  else fault (.unknownName name) pos

/-- Marks the binding that a name means in a scope as moved. -/
def markMoved (s : ScopeId) (name : String) : Eval Unit :=
  modify fun m => { m with scopes := m.scopes.markMoved s name }

/-- Adds an instance. -/
def alloc (i : Instance) : Eval InstanceId := do
  let id := (← get).heap.size
  modify fun m => { m with heap := m.heap.alloc i }
  pure id

/-- An instance as it is now. -/
def instanceAt (id : InstanceId) : Eval Instance := do return (← get).heap.get id

/-- Gives a field of an instance a value. -/
def setField (id : InstanceId) (field : String) (v : Value) : Eval Unit :=
  modify fun m => { m with heap := m.heap.setField id field v }

/-- The name of a value's type. -/
def typeName (v : Value) : Eval String := do return (← get).heap.typeName v

/-- Runs a step inside a call that belongs to a struct or to none. A return from the step is its
value, and the call is over afterwards however the step ends. -/
def withinCall (owner : Option String) (step : Eval Value) : Eval Value := fun m =>
  match step { m with calls := owner :: m.calls } with
  | .ok v m => .ok v { m with calls := m.calls.tail }
  | .error (.returned v) m => .ok v { m with calls := m.calls.tail }
  | .error stop m => .error stop { m with calls := m.calls.tail }

end Eval

end Rustlet
