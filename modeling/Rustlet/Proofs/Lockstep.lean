import Rustlet.Machine

/-! Two steps side by side, from states that differ in their notes at most. -/
namespace Rustlet

/-- Two registries in which everything is found alike. -/
structure Registry.Alike (r r' : Registry) : Prop where
  struct : ∀ name pos, r'.struct name pos = r.struct name pos
  method : ∀ owner name pos, r'.method owner name pos = r.method owner name pos

theorem Registry.Alike.refl (r : Registry) : r.Alike r := ⟨fun _ _ => rfl, fun _ _ _ => rfl⟩

/-- Two states that differ in what has been noted at most. -/
structure Machine.Agrees (m n : Machine) : Prop where
  heap : n.heap = m.heap
  scopes : n.scopes = m.scopes
  calls : n.calls = m.calls
  output : n.output = m.output

theorem Machine.Agrees.refl (m : Machine) : m.Agrees m := ⟨rfl, rfl, rfl, rfl⟩

namespace Eval

variable {α β : Type} {escapes : Stop → Prop} {x y : Eval α} {f g : α → Eval β}

/-- The ends of two steps match, unless the first is a stop that escapes the comparison. -/
inductive Matches (escapes : Stop → Prop) :
    EStateM.Result Stop Machine α → EStateM.Result Stop Machine α → Prop
  | ok {m n : Machine} (a : α) (h : m.Agrees n) : Matches escapes (.ok a m) (.ok a n)
  | error {m n : Machine} (e : Stop) (h : m.Agrees n) : Matches escapes (.error e m) (.error e n)
  | escaped {m : Machine} {e : Stop} {r : EStateM.Result Stop Machine α} (h : escapes e) :
    Matches escapes (.error e m) r

/-- Two steps that end alike from states that agree. -/
structure Lockstep (escapes : Stop → Prop) (x y : Eval α) : Prop where
  run : ∀ m n : Machine, m.Agrees n → Matches escapes (x m) (y n)

namespace Lockstep

protected theorem pure (a : α) : Lockstep escapes (pure a) (pure a) := ⟨fun _ _ h => .ok a h⟩

protected theorem throw (e : Stop) : Lockstep escapes (throw e : Eval α) (throw e) :=
  ⟨fun _ _ h => .error e h⟩

theorem escape {e : Stop} (he : escapes e) (y : Eval α) : Lockstep escapes (throw e) y :=
  ⟨fun _ _ _ => .escaped he⟩

protected theorem bind (hx : Lockstep escapes x y) (hf : ∀ a, Lockstep escapes (f a) (g a)) :
    Lockstep escapes (x >>= f) (y >>= g) := by
  refine ⟨fun m n h => ?_⟩
  have hm := hx.run m n h
  change Matches escapes (EStateM.bind x f m) (EStateM.bind y g n)
  unfold EStateM.bind
  generalize x m = r at hm
  generalize y n = t at hm
  cases hm with
  | ok a h => exact (hf a).run _ _ h
  | error e h => exact .error e h
  | escaped he => exact .escaped he

/-- What reads the state may read the part on which the two states agree. -/
theorem get_bind {f g : Machine → Eval α}
    (h : ∀ m n : Machine, m.Agrees n → Lockstep escapes (f m) (g n)) :
    Lockstep escapes (get >>= f) (get >>= g) :=
  ⟨fun m n hmn => (h m n hmn).run m n hmn⟩

protected theorem modify {f g : Machine → Machine}
    (h : ∀ m n : Machine, m.Agrees n → (f m).Agrees (g n)) :
    Lockstep escapes (modify f) (modify g) :=
  ⟨fun m n hmn => .ok () (h m n hmn)⟩

end Lockstep

section Primitives

variable (s : ScopeId) (name : String) (pos : Pos) (v : Value)

theorem lockstep_fault (f : Fault) : Lockstep escapes (fault f pos : Eval α) (fault f pos) :=
  .throw _

theorem lockstep_ofExcept (r : Except RuntimeError α) :
    Lockstep escapes (ofExcept r) (ofExcept r) := by
  cases r with
  | ok a => exact .pure a
  | error e => exact .throw _

theorem lockstep_note (entry : LogEntry) : Lockstep escapes (note entry) (note entry) :=
  .modify fun _ _ h => ⟨h.heap, h.scopes, h.calls, h.output⟩

theorem lockstep_print (text : String) : Lockstep escapes (print text) (print text) :=
  .modify fun _ _ h => ⟨h.heap, h.scopes, h.calls, congrArg (· ++ text) h.output⟩

theorem lockstep_openScope : Lockstep escapes (openScope s) (openScope s) := by
  refine .get_bind fun m n h => ?_
  rw [h.scopes]
  refine .bind (.modify fun _ _ h => ?_) fun _ => .pure _
  exact ⟨h.heap, congrArg (ScopeTree.openIn · s) h.scopes, h.calls, h.output⟩

theorem lockstep_find : Lockstep escapes (find s name pos) (find s name pos) := by
  refine .get_bind fun m n h => ?_
  rw [h.scopes]
  cases m.scopes.find? s name with
  | some b => exact .pure b
  | none => exact lockstep_fault pos _

theorem lockstep_define : Lockstep escapes (define s name v) (define s name v) :=
  .modify fun _ _ h =>
    ⟨h.heap, congrArg (ScopeTree.define · s name v) h.scopes, h.calls, h.output⟩

theorem lockstep_assign : Lockstep escapes (assign s name v pos) (assign s name v pos) := by
  refine .get_bind fun m n h => ?_
  rw [h.scopes]
  cases m.scopes.binds s name with
  | true =>
    refine .modify fun _ _ h => ?_
    exact ⟨h.heap, congrArg (ScopeTree.assign · s name v) h.scopes, h.calls, h.output⟩
  | false => exact lockstep_fault pos _

theorem lockstep_markMoved : Lockstep escapes (markMoved s name) (markMoved s name) :=
  .modify fun _ _ h =>
    ⟨h.heap, congrArg (ScopeTree.markMoved · s name) h.scopes, h.calls, h.output⟩

theorem lockstep_alloc (i : Instance) : Lockstep escapes (alloc i) (alloc i) := by
  refine .get_bind fun m n h => ?_
  rw [h.heap]
  refine .bind (.modify fun _ _ h => ?_) fun _ => .pure _
  exact ⟨congrArg (Heap.alloc · i) h.heap, h.scopes, h.calls, h.output⟩

theorem lockstep_instanceAt (id : InstanceId) :
    Lockstep escapes (instanceAt id) (instanceAt id) := by
  refine .get_bind fun m n h => ?_
  rw [h.heap]
  exact .pure _

theorem lockstep_setField (id : InstanceId) (field : String) :
    Lockstep escapes (setField id field v) (setField id field v) :=
  .modify fun _ _ h =>
    ⟨congrArg (Heap.setField · id field v) h.heap, h.scopes, h.calls, h.output⟩

theorem lockstep_typeName : Lockstep escapes (typeName v) (typeName v) := by
  refine .get_bind fun m n h => ?_
  rw [h.heap]
  exact .pure _

/-- A call turns a return into a value, so a return may not escape the comparison. -/
theorem lockstep_withinCall {x y : Eval Value} (hr : ∀ v, ¬ escapes (.returned v))
    (owner : Option String) (hx : Lockstep escapes x y) :
    Lockstep escapes (withinCall owner x) (withinCall owner y) := by
  refine ⟨fun m n h => ?_⟩
  have hin : Machine.Agrees { m with calls := owner :: m.calls }
      { n with calls := owner :: n.calls } :=
    ⟨h.heap, h.scopes, congrArg (owner :: ·) h.calls, h.output⟩
  have hout : ∀ {m n : Machine}, m.Agrees n →
      Machine.Agrees { m with calls := m.calls.tail } { n with calls := n.calls.tail } :=
    fun h => ⟨h.heap, h.scopes, congrArg List.tail h.calls, h.output⟩
  have hm := hx.run _ _ hin
  unfold withinCall
  generalize x { m with calls := owner :: m.calls } = r at hm
  generalize y { n with calls := owner :: n.calls } = t at hm
  cases hm with
  | ok a h => exact .ok a (hout h)
  | error e h =>
    cases e with
    | returned v => exact .ok v (hout h)
    | fault e => exact .error _ (hout h)
    | overflow => exact .error _ (hout h)
    | unfinished => exact .error _ (hout h)
  | @escaped _ e _ he =>
    cases e with
    | returned v => exact absurd he (hr v)
    | fault e => exact .escaped he
    | overflow => exact .escaped he
    | unfinished => exact .escaped he

end Primitives

end Eval

end Rustlet
