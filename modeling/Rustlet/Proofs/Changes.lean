import Mathlib.Logic.Relation
import Rustlet.Machine

/-! What a running script does to its state, as a path of elementary changes. -/
namespace Rustlet

/-- A value refers only to instances and scopes that are there. -/
def Value.Known (m : Machine) : Value → Prop
  | .inst id => id < m.heap.size
  | .fn f => f.scope < m.scopes.next
  | .number _ | .text _ | .bool _ | .unit => True

/-- The error is blamed on a place. -/
def RuntimeError.Placed (e : RuntimeError) : Prop := e.pos.isSome = true

/-- If the error is that a name has been moved, there is a scope in which it has. -/
def RuntimeError.Truthful (m : Machine) (e : RuntimeError) : Prop :=
  ∀ name, e.fault = .movedValue name → ∃ s, m.scopes.isMoved s name = true

/-- What a step may stop with while some calls are under way: an error is blamed on a place and says
what is true, and a return is from a call. -/
def Stop.Sound (calls : List (Option String)) (m : Machine) : Stop → Prop
  | .fault e => e.Placed ∧ e.Truthful m
  | .returned v => v.Known m ∧ calls ≠ []
  | .overflow | .unfinished => True

namespace Machine

variable {r : Registry} {may : ScopeId → String → Prop} {m m' m'' : Machine} {v : Value}

/-- An elementary change of a state, given the declarations and the names that may be bound. -/
inductive Change (r : Registry) (may : ScopeId → String → Prop) (m : Machine) : Machine → Prop
  | noted (entry : LogEntry) : Change r may m { m with log := m.log.push entry }
  | printed (text : String) : Change r may m { m with output := m.output ++ text }
  | opened {parent : ScopeId} (h : parent < m.scopes.next) :
    Change r may m { m with scopes := m.scopes.openIn parent }
  | bound {s : ScopeId} {name : String} {v : Value} (h : may s name) (hv : v.Known m) :
    Change r may m { m with scopes := m.scopes.define s name v }
  | assigned {s : ScopeId} {name : String} {v : Value} (hv : v.Known m) :
    Change r may m { m with scopes := m.scopes.assign s name v }
  | moved {s : ScopeId} {name : String} {b : Binding} {id : InstanceId}
    (hb : m.scopes.find? s name = some b) (hid : b.value = .inst id) :
    Change r may m { m with scopes := m.scopes.markMoved s name }
  | made {name : String} {d : StructDef} (hd : r.structs.get? name = some d) :
    Change r may m { m with heap := m.heap.alloc d.blank }
  | set {id : InstanceId} {field : String} {v : Value} {d : StructDef} (hid : id < m.heap.size)
    (hd : r.structs.get? (m.heap.get id).type = some d)
    (hfield : d.hasField field = true ∨ (m.heap.get id).fields.contains field = true)
    (hv : v.Known m) : Change r may m { m with heap := m.heap.setField id field v }
  | called (owner : Option String) : Change r may m { m with calls := owner :: m.calls }
  | ended : Change r may m { m with calls := m.calls.tail }

/-- A state with all that is in another. Instances keep their struct. -/
structure Grows (m m' : Machine) : Prop where
  heap : m.heap.size ≤ m'.heap.size
  scopes : m.scopes.next ≤ m'.scopes.next
  types : ∀ id < m.heap.size, (m'.heap.get id).type = (m.heap.get id).type

protected theorem Grows.refl (m : Machine) : m.Grows m :=
  ⟨Nat.le_refl _, Nat.le_refl _, fun _ _ => rfl⟩

protected theorem Grows.trans (h : m.Grows m') (h' : m'.Grows m'') : m.Grows m'' := by
  refine ⟨Nat.le_trans h.heap h'.heap, Nat.le_trans h.scopes h'.scopes, fun id hid => ?_⟩
  rw [h'.types id (Nat.lt_of_lt_of_le hid h.heap), h.types id hid]

/-- What is known stays known. -/
theorem Grows.known (h : m.Grows m') (hv : v.Known m) : v.Known m' := by
  cases v with
  | inst id => exact Nat.lt_of_lt_of_le hv h.heap
  | fn f => exact Nat.lt_of_lt_of_le hv h.scopes
  | _ => trivial

theorem Change.grows (h : Change r may m m') : m.Grows m' := by
  cases h with
  | opened h => exact ⟨Nat.le_refl _, by simp, fun _ _ => rfl⟩
  | bound h hv => exact ⟨Nat.le_refl _, by simp, fun _ _ => rfl⟩
  | assigned hv => exact ⟨Nat.le_refl _, by simp [ScopeTree.assign], fun _ _ => rfl⟩
  | moved hb hid => exact ⟨Nat.le_refl _, by simp [ScopeTree.markMoved], fun _ _ => rfl⟩
  | made hd =>
    refine ⟨by simp, Nat.le_refl _, fun id hid => ?_⟩
    rw [Heap.get_alloc, if_neg (Nat.ne_of_lt hid)]
  | @set id field v d hid hd hfield hv =>
    refine ⟨by simp, Nat.le_refl _, fun id' hid' => ?_⟩
    rw [Heap.get_setField]
    split
    · rename_i h
      rw [h.1]
    · rfl
  | _ => exact ⟨Nat.le_refl _, Nat.le_refl _, fun _ _ => rfl⟩

/-- A path of changes. -/
abbrev Path (r : Registry) (may : ScopeId → String → Prop) : Machine → Machine → Prop :=
  Relation.ReflTransGen (Change r may)

theorem path_grows (h : Path r may m m') : m.Grows m' := by
  induction h with
  | refl => exact .refl m
  | tail _ hc ih => exact ih.trans hc.grows

/-- A state that refers only to instances and scopes that are there, and whose next scopes may bind
anything. -/
structure Fair (may : ScopeId → String → Prop) (m : Machine) : Prop where
  root : ScopeTree.global < m.scopes.next
  bindings : ∀ {s name b}, m.scopes.local? s name = some b → b.value.Known m
  fields : ∀ {id name v}, (m.heap.get id).fields.get? name = some v → v.Known m
  room : ∀ {s}, m.scopes.next ≤ s → ∀ name, may s name

theorem Fair.found {s : ScopeId} {name : String} {b : Binding} (h : Fair may m)
    (hb : m.scopes.find? s name = some b) : b.value.Known m := by
  obtain ⟨owner, -, hlocal⟩ := Option.bind_eq_some_iff.1 hb
  exact h.bindings hlocal

/-- Only the instances and the scopes matter. -/
theorem Fair.of_same (h : Fair may m) (hheap : m'.heap = m.heap) (hscopes : m'.scopes = m.scopes) :
    Fair may m' := by
  obtain ⟨heap, scopes, calls, output, log⟩ := m'
  cases hheap
  cases hscopes
  exact ⟨h.root, h.bindings, h.fields, h.room⟩

end Machine

theorem Value.known_zero (m : Machine) (tag : String) : (Value.zero tag).Known m := by
  unfold Value.zero
  dsimp only
  split
  · trivial
  · split
    · trivial
    · split <;> trivial

theorem StructDef.known_blank {d : StructDef} {m : Machine} {name : String} {v : Value}
    (h : d.blank.fields.get? name = some v) : v.Known m := by
  obtain ⟨f, -, hf⟩ := List.mem_map.1 (Table.mem_of_get?_ofList h)
  cases hf
  exact Value.known_zero m f.2

namespace Machine

variable {r : Registry} {may : ScopeId → String → Prop} {m m' : Machine}

theorem Change.fair (h : Change r may m m') (hm : Fair may m) : Fair may m' := by
  have hg := h.grows
  have hroom : ∀ {s}, m'.scopes.next ≤ s → ∀ name, may s name :=
    fun hs => hm.room (Nat.le_trans hg.scopes hs)
  have hroot : ScopeTree.global < m'.scopes.next := Nat.lt_of_lt_of_le hm.root hg.scopes
  -- The scopes or the heap stay unless they are what changes.
  have hfields : m'.heap = m.heap →
      ∀ {id name v}, (m'.heap.get id).fields.get? name = some v → v.Known m' :=
    fun heq {id name v} hv => hg.known (hm.fields (heq ▸ hv))
  have hbindings : m'.scopes = m.scopes →
      ∀ {s name b}, m'.scopes.local? s name = some b → b.value.Known m' :=
    fun heq {s name b} hb => hg.known (hm.bindings (heq ▸ hb))
  cases h with
  | @opened parent h =>
    refine ⟨hroot, fun {s name b} hb => ?_, hfields rfl, hroom⟩
    rw [ScopeTree.local?_openIn] at hb
    exact hg.known (hm.bindings hb)
  | @bound s name v h hv =>
    refine ⟨hroot, fun {s' x b} hb => ?_, hfields rfl, hroom⟩
    rw [ScopeTree.local?_define] at hb
    split at hb
    · cases hb
      exact hg.known hv
    · exact hg.known (hm.bindings hb)
  | @assigned s name v hv =>
    refine ⟨hroot, fun {s' x b} hb => ?_, hfields rfl, hroom⟩
    rw [ScopeTree.assign, ScopeTree.local?_update] at hb
    split at hb
    · obtain ⟨_, -, rfl⟩ := Option.map_eq_some_iff.1 hb
      exact hg.known hv
    · exact hg.known (hm.bindings hb)
  | @moved s name b id hb hid =>
    refine ⟨hroot, fun {s' x b'} hb' => ?_, hfields rfl, hroom⟩
    rw [ScopeTree.markMoved, ScopeTree.local?_update] at hb'
    split at hb'
    · obtain ⟨old, hold, rfl⟩ := Option.map_eq_some_iff.1 hb'
      have hknown : old.value.Known m := hm.bindings hold
      exact hg.known hknown
    · exact hg.known (hm.bindings hb')
  | @made name d hd =>
    refine ⟨hroot, hbindings rfl, fun {id x v} hv => ?_, hroom⟩
    rw [Heap.get_alloc] at hv
    split at hv
    · exact StructDef.known_blank hv
    · exact hg.known (hm.fields hv)
  | @set id field v d hid hd hfield hv =>
    refine ⟨hroot, hbindings rfl, fun {id' x w} hw => ?_, hroom⟩
    rw [Heap.get_setField] at hw
    split at hw
    · rw [Table.get?_insert] at hw
      split at hw
      · cases hw
        exact hg.known hv
      · exact hg.known (hm.fields hw)
    · exact hg.known (hm.fields hw)
  | _ => exact ⟨hroot, hbindings rfl, hfields rfl, hroom⟩

theorem Fair.path (hm : Fair may m) (h : Path r may m m') : Fair may m' := by
  induction h with
  | refl => exact hm
  | tail _ hc ih => exact hc.fair ih

/-- A path after which the same calls are under way as before. -/
structure Leads (r : Registry) (may : ScopeId → String → Prop) (m m' : Machine) : Prop where
  path : Path r may m m'
  calls : m'.calls = m.calls

protected theorem Leads.refl (m : Machine) : Leads r may m m := ⟨.refl, rfl⟩

protected theorem Leads.trans {m'' : Machine} (h : Leads r may m m') (h' : Leads r may m' m'') :
    Leads r may m m'' :=
  ⟨h.path.trans h'.path, h'.calls.trans h.calls⟩

theorem Leads.of_change (h : Change r may m m') (hcalls : m'.calls = m.calls) : Leads r may m m' :=
  ⟨.single h, hcalls⟩

end Machine

namespace Eval

open Machine

variable {α β : Type} {r : Registry} {may : ScopeId → String → Prop} {m : Machine} {x : Eval α}
  {f : α → Eval β} {P Q : α → Machine → Prop} {R : β → Machine → Prop}

/-- The end of a step: a path leads to it, its value has a property, and a stop is sound. -/
inductive Ends (r : Registry) (may : ScopeId → String → Prop) (m : Machine)
    (P : α → Machine → Prop) : EStateM.Result Stop Machine α → Prop
  | ok {a : α} {m' : Machine} (h : Leads r may m m') (hp : P a m') : Ends r may m P (.ok a m')
  | error {e : Stop} {m' : Machine} (h : Leads r may m m') (he : e.Sound m.calls m') :
    Ends r may m P (.error e m')

/-- A step that follows a path from a state, if all that the state refers to is there. -/
structure Follows (r : Registry) (may : ScopeId → String → Prop) (m : Machine) (x : Eval α)
    (P : α → Machine → Prop) : Prop where
  ends : Fair may m → Ends r may m P (x m)

theorem bind_of_ok {a : α} {m' : Machine} (h : x m = .ok a m') : (x >>= f) m = f a m' := by
  change EStateM.bind x f m = _
  unfold EStateM.bind
  rw [h]

theorem bind_of_error {e : Stop} {m' : Machine} (h : x m = .error e m') :
    (x >>= f) m = .error e m' := by
  change EStateM.bind x f m = _
  unfold EStateM.bind
  rw [h]

/-- The state in which a step ends. -/
def endState : EStateM.Result Stop Machine α → Machine
  | .ok _ m => m
  | .error _ m => m

namespace Follows

/-- A path leads to the end of a step. -/
theorem path (h : Follows r may m x P) (hm : Fair may m) : Path r may m (endState (x m)) := by
  have hends := h.ends hm
  generalize x m = res at hends
  cases hends with
  | ok hl _ => exact hl.path
  | error hl _ => exact hl.path

/-- A step that stops does so soundly. -/
theorem sound (h : Follows r may m x P) (hm : Fair may m) {e : Stop} {m' : Machine}
    (he : x m = .error e m') : e.Sound m.calls m' := by
  have hends := h.ends hm
  rw [he] at hends
  cases hends with
  | error _ he => exact he

theorem of_fair (h : Fair may m → Follows r may m x P) : Follows r may m x P :=
  ⟨fun hm => (h hm).ends hm⟩

protected theorem pure {a : α} (h : P a m) : Follows r may m (pure a) P :=
  ⟨fun _ => .ok (.refl m) h⟩

protected theorem throw {e : Stop} (h : e.Sound m.calls m) :
    Follows r may m (throw e) P :=
  ⟨fun _ => .error (.refl m) h⟩

protected theorem bind (hx : Follows r may m x P)
    (hf : ∀ a m', m.Grows m' → P a m' → Follows r may m' (f a) R) :
    Follows r may m (x >>= f) R := by
  refine ⟨fun hm => ?_⟩
  have hends := hx.ends hm
  change Ends r may m R (EStateM.bind x f m)
  unfold EStateM.bind
  generalize x m = res at hends
  cases hends with
  | @ok a m' h hp =>
    have hends := (hf a m' (path_grows h.path) hp).ends (hm.path h.path)
    dsimp only
    generalize f a m' = res at hends
    cases hends with
    | ok h' hr => exact .ok (h.trans h') hr
    | error h' he => exact .error (h.trans h') (h.calls ▸ he)
  | error h he => exact .error h he

/-- A step whose value is returned, in a call. -/
theorem returning {x : Eval Value} (hx : Follows r may m x fun v m' => v.Known m')
    (hcalls : m.calls ≠ []) :
    Follows r may m (do let v ← x; throw (.returned v)) P := by
  refine ⟨fun hm => ?_⟩
  have hends := hx.ends hm
  change Ends r may m P (EStateM.bind x _ m)
  unfold EStateM.bind
  generalize x m = res at hends
  cases hends with
  | ok h hp => exact .error h ⟨hp, hcalls⟩
  | error h he => exact .error h he

theorem mono (hx : Follows r may m x P) (h : ∀ a m', m.Grows m' → P a m' → Q a m') :
    Follows r may m x Q := by
  refine ⟨fun hm => ?_⟩
  have hends := hx.ends hm
  generalize x m = res at hends
  cases hends with
  | ok hl hp => exact .ok hl (h _ _ (path_grows hl.path) hp)
  | error hl he => exact .error hl he

/-- What a step gives does not matter. -/
theorem any (hx : Follows r may m x P) : Follows r may m x fun _ _ => True :=
  hx.mono fun _ _ _ _ => trivial

theorem get_bind {f : Machine → Eval α} (h : Follows r may m (f m) P) :
    Follows r may m (get >>= f) P :=
  ⟨fun hm => h.ends hm⟩

/-- A single change. -/
theorem modify {g : Machine → Machine} (h : Fair may m → Change r may m (g m))
    (hcalls : (g m).calls = m.calls) : Follows r may m (modify g) fun _ m' => m' = g m :=
  ⟨fun hm => .ok (.of_change (h hm) hcalls) rfl⟩

theorem fault {f : Fault} {pos : Pos} (h : ∀ name, f ≠ .movedValue name) :
    Follows r may m (fault f pos) P :=
  .throw ⟨rfl, fun name hname => absurd hname (h name)⟩

theorem struct (s : Registry) (name : String) (pos : Pos) :
    Follows r may m (ofExcept (s.struct name (some pos)))
      fun d m' => m' = m ∧ s.struct name (some pos) = .ok d := by
  unfold Registry.struct
  cases s.structs.get? name with
  | some d => exact .pure ⟨rfl, rfl⟩
  | none => exact .throw ⟨rfl, nofun⟩

theorem method (s : Registry) (owner name : String) (pos : Pos) :
    Follows r may m (ofExcept (s.method owner name (some pos))) fun _ m' => m' = m := by
  unfold Registry.method
  cases (s.methodsOf owner).get? name with
  | some d => exact .pure rfl
  | none => exact .throw ⟨rfl, nofun⟩

theorem ofDepth (res : Option α) : Follows r may m (ofDepth res) fun _ _ => True := by
  cases res with
  | some a => exact .pure trivial
  | none => exact .throw trivial

theorem note (entry : LogEntry) : Follows r may m (note entry) fun _ _ => True :=
  (Follows.modify (fun _ => .noted entry) rfl).any

theorem print (text : String) : Follows r may m (print text) fun _ _ => True :=
  (Follows.modify (fun _ => .printed text) rfl).any

/-- The new scope may bind anything. -/
theorem openScope {parent : ScopeId} (h : parent < m.scopes.next) :
    Follows r may m (openScope parent) fun s m' => s < m'.scopes.next ∧ ∀ name, may s name := by
  refine .of_fair fun hm => .get_bind ?_
  refine (Follows.modify (fun _ => .opened h) rfl).bind fun _ m' _ hm' =>
    .pure ⟨?_, hm.room (Nat.le_refl _)⟩
  rw [hm', ScopeTree.next_openIn]
  exact Nat.lt_succ_self _

theorem find (s : ScopeId) (name : String) (pos : Pos) :
    Follows r may m (find s name pos) fun b m' => m' = m ∧ m.scopes.find? s name = some b := by
  refine .get_bind ?_
  cases hb : m.scopes.find? s name with
  | some b => exact .pure ⟨rfl, rfl⟩
  | none => exact .fault nofun

theorem define {s : ScopeId} {name : String} {v : Value} (h : may s name) (hv : v.Known m) :
    Follows r may m (define s name v) fun _ _ => True :=
  (Follows.modify (fun _ => .bound h hv) rfl).any

theorem assign {s : ScopeId} {name : String} {v : Value} {pos : Pos} (hv : v.Known m) :
    Follows r may m (assign s name v pos) fun _ _ => True := by
  refine .get_bind ?_
  split
  · exact (Follows.modify (fun _ => .assigned hv) rfl).any
  · exact .fault nofun

theorem markMoved {s : ScopeId} {name : String} {b : Binding} {id : InstanceId}
    (hb : m.scopes.find? s name = some b) (hid : b.value = .inst id) :
    Follows r may m (markMoved s name) fun _ _ => True :=
  (Follows.modify (fun _ => .moved hb hid) rfl).any

/-- The new instance is an instance of its struct. -/
theorem alloc {name : String} {d : StructDef} (hd : r.structs.get? name = some d) :
    Follows r may m (alloc d.blank) fun id m' =>
      id < m'.heap.size ∧ (m'.heap.get id).type = d.name := by
  refine .get_bind ?_
  refine (Follows.modify (fun _ => .made hd) rfl).bind fun _ m' _ hm' => .pure ?_
  subst hm'
  refine ⟨?_, ?_⟩
  · rw [Heap.size_alloc]
    exact Nat.lt_succ_self _
  · rw [Heap.get_alloc, if_pos rfl]
    rfl

theorem instanceAt_bind {id : InstanceId} {f : Instance → Eval β}
    (h : Follows r may m (f (m.heap.get id)) R) : Follows r may m (instanceAt id >>= f) R :=
  ⟨fun hm => h.ends hm⟩

theorem typeName_bind {v : Value} {f : String → Eval β}
    (h : Follows r may m (f (m.heap.typeName v)) R) : Follows r may m (typeName v >>= f) R :=
  ⟨fun hm => h.ends hm⟩

theorem setField {id : InstanceId} {field : String} {v : Value} {d : StructDef}
    (hid : id < m.heap.size) (hd : r.structs.get? (m.heap.get id).type = some d)
    (hfield : d.hasField field = true ∨ (m.heap.get id).fields.contains field = true)
    (hv : v.Known m) : Follows r may m (setField id field v) fun _ _ => True :=
  (Follows.modify (fun _ => .set hid hd hfield hv) rfl).any

/-- A call is over when its step has ended, and a return is the value of the call. -/
theorem withinCall {owner : Option String} {step : Eval Value}
    (h : Follows r may { m with calls := owner :: m.calls } step fun v m' => v.Known m') :
    Follows r may m (withinCall owner step) fun v m' => v.Known m' := by
  refine ⟨fun hm => ?_⟩
  have hcall : Change r may m { m with calls := owner :: m.calls } := .called owner
  have hends := h.ends (hcall.fair hm)
  have hleads : ∀ {m'}, Leads r may { m with calls := owner :: m.calls } m' →
      Leads r may m { m' with calls := m'.calls.tail } := by
    intro m' hl
    refine ⟨(Relation.ReflTransGen.head hcall hl.path).tail .ended, ?_⟩
    rw [hl.calls]
    rfl
  unfold Eval.withinCall
  generalize step { m with calls := owner :: m.calls } = res at hends
  cases hends with
  | ok hl hv => exact .ok (hleads hl) hv
  | @error e m' hl he =>
    cases e with
    | returned v => exact .ok (hleads hl) he.1
    | fault e => exact .error (hleads hl) he
    | overflow => exact .error (hleads hl) trivial
    | unfinished => exact .error (hleads hl) trivial

end Follows

end Eval

end Rustlet
