import Rustlet.Proofs.Recasting
import Rustlet.Proofs.Showing

/-! Two scripts of which one is a recasting of the other, step by step. -/
namespace Rustlet

/-- A function on the members of an array goes past a change of one of them. -/
theorem map_modify_array {α β : Type} {f : α → α} {g : β → β} {h : α → β}
    (hfg : ∀ a, h (f a) = g (h a)) (as : Array α) (i : Nat) :
    (as.modify i f).map h = (as.map h).modify i g := by
  apply Array.ext_getElem?
  intro j
  simp only [Array.getElem?_map, Array.getElem?_modify]
  split
  · simp [Option.map_map, Function.comp_def, hfg]
  · rfl

namespace Recasting

variable (ρ : Recasting)

section Instances

variable (h : Heap) (id : InstanceId) (v : Value)

@[simp] theorem size_heap : (ρ.heap h).size = h.size := Array.size_map

@[simp] theorem get_heap : (ρ.heap h).get id = ρ.inst (h.get id) := by
  unfold Heap.get heap
  rw [Array.getElem?_map]
  cases h.instances[id]? with
  | none => rfl
  | some i => rfl

theorem heap_alloc (i : Instance) : ρ.heap (h.alloc i) = (ρ.heap h).alloc (ρ.inst i) := by
  simp [heap, Heap.alloc]

theorem heap_setField (field : String) :
    ρ.heap (h.setField id field v) = (ρ.heap h).setField id field (ρ.value v) := by
  unfold heap Heap.setField
  rw [map_modify_array fun i => ?_]
  simp only [inst, Table.map_insert]

@[simp] theorem typeName_value : (ρ.heap h).typeName (ρ.value v) = h.typeName v := by
  cases v with
  | inst id => simp [value, Heap.typeName, inst]
  | _ => rfl

theorem value_zero (tag : String) : ρ.value (.zero tag) = .zero tag := by
  unfold Value.zero
  dsimp only
  split
  · rfl
  · split
    · rfl
    · split <;> rfl

/-- A fresh instance holds no functions. -/
theorem inst_blank (d : StructDef) : ρ.inst d.blank = (ρ.structDef d).blank := by
  simp [inst, StructDef.blank, structDef, Table.map_ofList, value_zero, Function.comp_def]

end Instances

section Scopes

variable (t : ScopeTree) (s : ScopeId) (name : String)

@[simp] theorem next_scopes : (ρ.scopes t).next = t.next := Array.size_map

@[simp] theorem local?_scopes : (ρ.scopes t).local? s name = (t.local? s name).map ρ.binding := by
  unfold ScopeTree.local? scopes
  rw [Array.getElem?_map]
  cases t.scopes[s]? with
  | none => rfl
  | some scope => simp [Recasting.scope]

@[simp] theorem parent?_scopes : (ρ.scopes t).parent? s = t.parent? s := by
  have hparent : ((ρ.scopes t).scopes[s]?.bind (·.parent)) = t.scopes[s]?.bind (·.parent) := by
    unfold scopes
    rw [Array.getElem?_map]
    cases t.scopes[s]? with
    | none => rfl
    | some scope => rfl
  unfold ScopeTree.parent?
  rw [hparent]

@[simp] theorem owner?_scopes : (ρ.scopes t).owner? s name = t.owner? s name := by
  induction s using Nat.strongRecOn with
  | ind s ih =>
    rw [ScopeTree.owner?, ScopeTree.owner?]
    simp only [local?_scopes, Option.isSome_map, parent?_scopes]
    split
    · rfl
    · cases t.parent? s with
      | none => rfl
      | some p => exact ih p.1 p.2

@[simp] theorem find?_scopes : (ρ.scopes t).find? s name = (t.find? s name).map ρ.binding := by
  unfold ScopeTree.find?
  rw [owner?_scopes]
  cases t.owner? s name with
  | none => rfl
  | some owner => simp

@[simp] theorem binds_scopes : (ρ.scopes t).binds s name = t.binds s name := by
  simp [ScopeTree.binds]

theorem scopes_openIn : ρ.scopes (t.openIn s) = (ρ.scopes t).openIn s := by
  simp [scopes, ScopeTree.openIn, Recasting.scope, Table.map, Table.empty]

theorem scopes_define (v : Value) :
    ρ.scopes (t.define s name v) = (ρ.scopes t).define s name (ρ.value v) := by
  unfold scopes ScopeTree.define
  rw [map_modify_array fun scope => ?_]
  simp only [Recasting.scope, Table.map_insert, binding]

theorem scopes_update {f g : Binding → Binding} (h : ∀ b, ρ.binding (f b) = g (ρ.binding b)) :
    ρ.scopes (t.update s name f) = (ρ.scopes t).update s name g := by
  unfold ScopeTree.update
  rw [owner?_scopes]
  cases t.owner? s name with
  | none => rfl
  | some owner =>
    simp only [scopes, ScopeTree.mk.injEq]
    refine map_modify_array (fun scope => ?_) _ _
    have hmodify := Table.map_modify (fun _ => ρ.binding) scope.bindings name h
    simp only [Recasting.scope, hmodify]

theorem scopes_assign (v : Value) :
    ρ.scopes (t.assign s name v) = (ρ.scopes t).assign s name (ρ.value v) :=
  ρ.scopes_update t s name fun _ => rfl

theorem scopes_markMoved : ρ.scopes (t.markMoved s name) = (ρ.scopes t).markMoved s name :=
  ρ.scopes_update t s name fun _ => rfl

end Scopes

section Texts

variable (h : Heap) (order : FieldOrder)

@[simp] theorem shown_inst (i : Instance) : (ρ.inst i).shown order = i.shown order := by
  have hcontains : (ρ.inst i).fields.contains = i.fields.contains := by
    funext name
    exact Table.contains_map ..
  unfold Instance.shown
  rw [hcontains]
  simp [inst]

theorem scalarText_value (v : Value) : (ρ.value v).scalarText = v.scalarText := by
  cases v with
  | fn f => simp [value, Value.scalarText]
  | _ => rfl

theorem field_heap (id : InstanceId) (name : String) :
    (ρ.heap h).field id name = ρ.value (h.field id name) := by
  unfold Heap.field
  simp only [get_heap, inst, Table.get?_map]
  cases (h.get id).fields.get? name with
  | none => rfl
  | some v => rfl

/-- The text of a value does not show how its script is written. -/
theorem debugWithin?_heap (depth : Nat) (path : List InstanceId) (v : Value) :
    (ρ.heap h).debugWithin? order depth path (ρ.value v) = h.debugWithin? order depth path v := by
  induction depth generalizing path v with
  | zero =>
    cases v with
    | inst id => rfl
    | _ => exact congrArg some (ρ.scalarText_value _)
  | succ depth ih =>
    cases v with
    | inst id =>
      change (ρ.heap h).debugWithin? order (depth + 1) path (.inst id) = _
      simp only [Heap.debugWithin?_inst, get_heap, shown_inst, field_heap, ih]
      rfl
    | _ => exact congrArg some (ρ.scalarText_value _)

theorem debug?_heap (depth : Nat) (v : Value) :
    (ρ.heap h).debug? order depth (ρ.value v) = h.debug? order depth v := by
  rw [Heap.debug?_eq, Heap.debug?_eq, debugWithin?_heap]

theorem styled?_heap (depth : Nat) (style : Template.Style) (v : Value) :
    (ρ.heap h).styled? order depth style (ρ.value v) = h.styled? order depth style v := by
  cases style with
  | debug => exact ρ.debug?_heap h order depth v
  | display =>
    cases v with
    | text s => rfl
    | _ => exact ρ.debug?_heap h order depth _

end Texts

section Declarations

variable (r : Registry)

/-- What a look-up gives. -/
def lookup {α β : Type} (f : α → β) : Except RuntimeError α → Except RuntimeError β
  | .ok a => .ok (f a)
  | .error e => .error (ρ.error e)

theorem struct_registry (name : String) (pos : Pos) :
    (ρ.registry r).struct name (some (ρ.place pos)) =
      ρ.lookup ρ.structDef (r.struct name (some pos)) := by
  unfold Registry.struct registry
  rw [Table.get?_map]
  cases r.structs.get? name with
  | none => rfl
  | some d => rfl

theorem methodsOf_registry (owner : String) :
    (ρ.registry r).methodsOf owner = (r.methodsOf owner).map fun _ => ρ.methodDef := by
  unfold Registry.methodsOf registry
  rw [Table.get?_map]
  cases r.methods.get? owner with
  | none => rfl
  | some t => rfl

theorem method_registry (owner name : String) (pos : Pos) :
    (ρ.registry r).method owner name (some (ρ.place pos)) =
      ρ.lookup ρ.methodDef (r.method owner name (some pos)) := by
  unfold Registry.method
  rw [methodsOf_registry, Table.get?_map]
  cases (r.methodsOf owner).get? name with
  | none => rfl
  | some m => rfl

end Declarations

end Recasting

/-- The struct that the innermost call belongs to. -/
def Machine.owner (m : Machine) : Option String := m.calls.head?.join

namespace Eval

variable {α β γ δ : Type} {ρ : Recasting} {owner : Option String}

/-- Two ends of which the second is the recasting of the first, with the calls from before. -/
inductive Mirrored (ρ : Recasting) (f : α → β) (calls : List (Option String)) :
    EStateM.Result Stop Machine α → EStateM.Result Stop Machine β → Prop
  | ok {a : α} {m : Machine} (h : m.calls = calls) :
    Mirrored ρ f calls (.ok a m) (.ok (f a) (ρ.machine m))
  | error {e : Stop} {m : Machine} (h : m.calls = calls) :
    Mirrored ρ f calls (.error e m) (.error (ρ.stop e) (ρ.machine m))

/-- In calls of methods of `owner`, or of none, the second step ends as the recasting of the first
does. -/
structure Mirrors (ρ : Recasting) (owner : Option String) (f : α → β) (x : Eval α) (y : Eval β) :
    Prop where
  run : ∀ m : Machine, m.owner = owner → Mirrored ρ f m.calls (x m) (y (ρ.machine m))

namespace Mirrors

variable {f : α → β} {g : γ → δ} {x : Eval α} {y : Eval β}

protected theorem pure (a : α) : Mirrors ρ owner f (pure a) (pure (f a)) := ⟨fun _ _ => .ok rfl⟩

protected theorem throw (e : Stop) : Mirrors ρ owner f (throw e) (throw (ρ.stop e)) :=
  ⟨fun _ _ => .error rfl⟩

protected theorem bind {k : α → Eval γ} {l : β → Eval δ} (hx : Mirrors ρ owner f x y)
    (hk : ∀ a, Mirrors ρ owner g (k a) (l (f a))) : Mirrors ρ owner g (x >>= k) (y >>= l) := by
  refine ⟨fun m hm => ?_⟩
  have hends := hx.run m hm
  change Mirrored ρ g m.calls (EStateM.bind x k m) (EStateM.bind y l (ρ.machine m))
  unfold EStateM.bind
  generalize x m = r at hends
  generalize y (ρ.machine m) = t at hends
  cases hends with
  | @ok a m' h =>
    rw [← h]
    refine (hk a).run m' ?_
    rw [← hm]
    unfold Machine.owner
    rw [h]
  | error h => exact .error h

/-- What reads the state may read what the recasting keeps. -/
theorem get_bind {k : Machine → Eval α} {l : Machine → Eval β}
    (h : ∀ m : Machine, m.owner = owner → Mirrors ρ owner f (k m) (l (ρ.machine m))) :
    Mirrors ρ owner f (get >>= k) (get >>= l) :=
  ⟨fun m hm => (h m hm).run m hm⟩

protected theorem modify {k l : Machine → Machine} (h : ∀ m, l (ρ.machine m) = ρ.machine (k m))
    (hcalls : ∀ m, (k m).calls = m.calls) : Mirrors ρ owner id (modify k) (modify l) := by
  refine ⟨fun m _ => ?_⟩
  change Mirrored ρ id m.calls (.ok () (k m)) (.ok () (l (ρ.machine m)))
  rw [h m]
  exact .ok (hcalls m)

end Mirrors

section Primitives

variable (s : ScopeId) (name : String) (pos : Pos) (v : Value)

theorem mirrors_fault {f : α → β} (e : Fault) :
    Mirrors ρ owner f (fault e pos) (fault e (ρ.place pos)) :=
  .throw _

theorem mirrors_ofExcept {f : α → β} (r : Except RuntimeError α) :
    Mirrors ρ owner f (ofExcept r) (ofExcept (ρ.lookup f r)) := by
  cases r with
  | ok a => exact .pure a
  | error e => exact .throw _

theorem mirrors_ofDepth (r : Option α) : Mirrors ρ owner id (ofDepth r) (ofDepth r) := by
  cases r with
  | some a => exact .pure a
  | none => exact .throw _

theorem mirrors_note {entry : LogEntry} (h : ρ.logEntry entry = entry) :
    Mirrors ρ owner id (note entry) (note entry) := by
  refine .modify (fun m => ?_) fun _ => rfl
  simp [Recasting.machine, h]

theorem mirrors_print (text : String) : Mirrors ρ owner id (print text) (print text) :=
  .modify (fun _ => rfl) fun _ => rfl

theorem mirrors_openScope : Mirrors ρ owner id (openScope s) (openScope s) := by
  refine .get_bind fun m _ => ?_
  simp only [Recasting.machine, Recasting.next_scopes]
  refine .bind (.modify (fun m => ?_) fun _ => rfl) fun _ => .pure _
  simp only [Recasting.machine, Recasting.scopes_openIn]

theorem mirrors_find :
    Mirrors ρ owner ρ.binding (find s name pos) (find s name (ρ.place pos)) := by
  refine .get_bind fun m _ => ?_
  simp only [Recasting.machine, Recasting.find?_scopes]
  cases m.scopes.find? s name with
  | some b => exact .pure b
  | none => exact mirrors_fault pos _

theorem mirrors_define : Mirrors ρ owner id (define s name v) (define s name (ρ.value v)) := by
  refine .modify (fun m => ?_) fun _ => rfl
  simp only [Recasting.machine, Recasting.scopes_define]

theorem mirrors_assign :
    Mirrors ρ owner id (assign s name v pos) (assign s name (ρ.value v) (ρ.place pos)) := by
  refine .get_bind fun m _ => ?_
  simp only [Recasting.machine, Recasting.binds_scopes]
  split
  · refine .modify (fun m => ?_) fun _ => rfl
    simp only [Recasting.machine, Recasting.scopes_assign]
  · exact mirrors_fault pos _

theorem mirrors_markMoved : Mirrors ρ owner id (markMoved s name) (markMoved s name) := by
  refine .modify (fun m => ?_) fun _ => rfl
  simp only [Recasting.machine, Recasting.scopes_markMoved]

theorem mirrors_alloc (i : Instance) : Mirrors ρ owner id (alloc i) (alloc (ρ.inst i)) := by
  refine .get_bind fun m _ => ?_
  simp only [Recasting.machine, Recasting.size_heap]
  refine .bind (.modify (fun m => ?_) fun _ => rfl) fun _ => .pure _
  simp only [Recasting.machine, Recasting.heap_alloc]

theorem mirrors_instanceAt (id : InstanceId) :
    Mirrors ρ owner ρ.inst (instanceAt id) (instanceAt id) := by
  refine .get_bind fun m _ => ?_
  simp only [Recasting.machine, Recasting.get_heap]
  exact .pure _

theorem mirrors_setField (id : InstanceId) (field : String) :
    Mirrors ρ owner (fun u => u) (setField id field v) (setField id field (ρ.value v)) := by
  refine .modify (fun m => ?_) fun _ => rfl
  simp only [Recasting.machine, Recasting.heap_setField]

theorem mirrors_typeName : Mirrors ρ owner id (typeName v) (typeName (ρ.value v)) := by
  refine .get_bind fun m _ => ?_
  simp only [Recasting.machine, Recasting.typeName_value]
  exact .pure _

/-- A call of a method of another struct, or of none, and back. -/
theorem mirrors_withinCall (inner : Option String) {step step' : Eval Value}
    (h : Mirrors ρ inner ρ.value step step') :
    Mirrors ρ owner ρ.value (withinCall inner step) (withinCall inner step') := by
  refine ⟨fun m _ => ?_⟩
  have hends := h.run { m with calls := inner :: m.calls } rfl
  change Mirrored ρ ρ.value (inner :: m.calls) (step { m with calls := inner :: m.calls })
    (step' { ρ.machine m with calls := inner :: (ρ.machine m).calls }) at hends
  unfold withinCall
  generalize step { m with calls := inner :: m.calls } = r at hends
  generalize step' { ρ.machine m with calls := inner :: (ρ.machine m).calls } = t at hends
  cases hends with
  | @ok v m' h => exact .ok (m := { m' with calls := m'.calls.tail }) (by rw [h]; rfl)
  | @error e m' h =>
    have htail : ({ m' with calls := m'.calls.tail } : Machine).calls = m.calls := by rw [h]; rfl
    cases e with
    | returned v => exact .ok htail
    | fault e => exact .error (e := .fault e) htail
    | overflow => exact .error (e := .overflow) htail
    | unfinished => exact .error (e := .unfinished) htail

end Primitives

end Eval

end Rustlet
