import Rustlet.Proofs.Changes

/-! What a step does to the scopes that were there before it. -/
namespace Rustlet

namespace ScopeTree

variable {t t' t'' : ScopeTree} {base : ScopeId}

/-- The scope in which a scope was opened. -/
def link? (t : ScopeTree) (s : ScopeId) : Option ScopeId := t.scopes[s]?.bind (·.parent)

/-- The names bound in a scope, in the order in which they were. -/
def names (t : ScopeTree) (s : ScopeId) : List String :=
  (t.scopes[s]?.map (·.bindings.names)).getD []

theorem link?_openIn (t : ScopeTree) (parent s : ScopeId) :
    (t.openIn parent).link? s = if s = t.next then some parent else t.link? s := by
  unfold link? openIn next
  rw [Array.getElem?_push]
  split <;> rfl

theorem names_openIn (t : ScopeTree) (parent s : ScopeId) :
    (t.openIn parent).names s = t.names s := by
  unfold names openIn
  rw [Array.getElem?_push]
  split
  · rename_i h
    rw [Array.getElem?_eq_none (Nat.le_of_eq h.symm)]
    rfl
  · rfl

/-- A change of the bindings of one scope leaves all parents alone. -/
theorem link?_modify (t : ScopeTree) (i s : ScopeId) (f : Table Binding → Table Binding) :
    link? ⟨t.scopes.modify i fun scope => { scope with bindings := f scope.bindings }⟩ s =
      t.link? s := by
  unfold link?
  rw [Array.getElem?_modify]
  split
  · cases t.scopes[s]? <;> rfl
  · rfl

@[simp] theorem link?_define (t : ScopeTree) (s s' : ScopeId) (name : String) (v : Value) :
    (t.define s name v).link? s' = t.link? s' :=
  t.link?_modify s s' (·.insert name ⟨v, false⟩)

@[simp] theorem link?_update (t : ScopeTree) (s s' : ScopeId) (name : String)
    (f : Binding → Binding) : (t.update s name f).link? s' = t.link? s' := by
  unfold update
  split
  · exact t.link?_modify _ s' (·.modify name f)
  · rfl

/-- Binding a name adds it to its scope unless it is bound there already. -/
theorem names_define (t : ScopeTree) (s s' : ScopeId) (name : String) (v : Value) :
    (t.define s name v).names s' =
      if s' = s ∧ s < t.next ∧ name ∉ t.names s then t.names s' ++ [name] else t.names s' := by
  unfold names define next
  rw [Array.getElem?_modify]
  by_cases hs : s = s'
  · subst hs
    by_cases hlt : s < t.scopes.size
    · by_cases hx : name ∈ t.scopes[s].bindings.names <;> simp [hlt, Table.names_insert, hx]
    · simp [hlt]
  · simp [hs, Ne.symm hs]

/-- A name that has just been bound in a scope is one of its names. -/
theorem mem_names_define {s : ScopeId} (h : s < t.next) (name : String) (v : Value) :
    name ∈ (t.define s name v).names s := by
  rw [names_define]
  split
  · exact List.mem_concat_self
  · rename_i hold
    exact Decidable.byContradiction fun hnew => hold ⟨rfl, h, hnew⟩

@[simp] theorem names_update (t : ScopeTree) (s s' : ScopeId) (name : String)
    (f : Binding → Binding) : (t.update s name f).names s' = t.names s' := by
  unfold update
  split
  · unfold names
    rw [Array.getElem?_modify]
    split
    · rw [Option.map_map]
      simp only [Function.comp_def, Table.names_modify]
    · rfl
  · rfl

/-- In a tree and a later one, the scopes that were opened before the scope `base` have the same
parents and the same names. -/
structure SameBelow (base : ScopeId) (t t' : ScopeTree) : Prop where
  next : t.next ≤ t'.next
  link : ∀ s < base, t'.link? s = t.link? s
  names : ∀ s < base, t'.names s = t.names s

protected theorem SameBelow.refl (t : ScopeTree) : SameBelow base t t :=
  ⟨Nat.le_refl _, fun _ _ => rfl, fun _ _ => rfl⟩

protected theorem SameBelow.trans (h : SameBelow base t t') (h' : SameBelow base t' t'') :
    SameBelow base t t'' :=
  ⟨Nat.le_trans h.next h'.next, fun s hs => (h'.link s hs).trans (h.link s hs),
    fun s hs => (h'.names s hs).trans (h.names s hs)⟩

theorem sameBelow_openIn (h : base ≤ t.next) (parent : ScopeId) :
    SameBelow base t (t.openIn parent) := by
  refine ⟨by simp, fun s hs => ?_, fun s _ => names_openIn t parent s⟩
  rw [link?_openIn, if_neg (Nat.ne_of_lt (Nat.lt_of_lt_of_le hs h))]

theorem sameBelow_define {s : ScopeId} (h : base ≤ s) (name : String) (v : Value) :
    SameBelow base t (t.define s name v) := by
  refine ⟨by simp, by simp, fun s' hs' => ?_⟩
  have hne : s' ≠ s := Nat.ne_of_lt (Nat.lt_of_lt_of_le hs' h)
  rw [names_define, if_neg fun hsame => hne hsame.1]

theorem sameBelow_update (t : ScopeTree) (s : ScopeId) (name : String) (f : Binding → Binding) :
    SameBelow base t (t.update s name f) :=
  ⟨by simp, by simp, by simp⟩

end ScopeTree

namespace Eval

open ScopeTree

variable {α β : Type} {base : ScopeId} {x : Eval α} {f : α → Eval β}

/-- A step that leaves the parents and the names of all scopes before `base` alone, however it
ends. -/
structure Confined (base : ScopeId) (x : Eval α) : Prop where
  run : ∀ m : Machine, base ≤ m.scopes.next → SameBelow base m.scopes (endState (x m)).scopes

namespace Confined

protected theorem pure (a : α) : Confined base (pure a) := ⟨fun _ _ => .refl _⟩

protected theorem throw (e : Stop) : Confined base (throw e : Eval α) := ⟨fun _ _ => .refl _⟩

protected theorem bind (hx : Confined base x) (hf : ∀ a, Confined base (f a)) :
    Confined base (x >>= f) := by
  refine ⟨fun m hm => ?_⟩
  have hfirst := hx.run m hm
  cases h : x m with
  | ok a m' =>
    rw [h] at hfirst
    rw [bind_of_ok h]
    exact hfirst.trans ((hf a).run m' (Nat.le_trans hm hfirst.next))
  | error e m' =>
    rw [h] at hfirst
    rw [bind_of_error h]
    exact hfirst

theorem get_bind {f : Machine → Eval α} (h : ∀ m, Confined base (f m)) :
    Confined base (get >>= f) :=
  ⟨fun m hm => (h m).run m hm⟩

protected theorem modify {g : Machine → Machine}
    (h : ∀ m : Machine, base ≤ m.scopes.next → SameBelow base m.scopes (g m).scopes) :
    Confined base (modify g) :=
  ⟨h⟩

/-- A change of anything but the scopes. -/
theorem modify_of_scopes {g : Machine → Machine} (h : ∀ m, (g m).scopes = m.scopes) :
    Confined base (modify g) :=
  .modify fun m _ => (h m).symm ▸ .refl _

end Confined

section Primitives

variable (s : ScopeId) (name : String) (pos : Pos) (v : Value)

theorem confined_fault (f : Fault) : Confined base (fault f pos : Eval α) := .throw _

theorem confined_ofExcept (r : Except RuntimeError α) : Confined base (ofExcept r) := by
  cases r with
  | ok a => exact .pure a
  | error e => exact .throw _

theorem confined_ofDepth (r : Option α) : Confined base (ofDepth r) := by
  cases r with
  | some a => exact .pure a
  | none => exact .throw _

theorem confined_note (entry : LogEntry) : Confined base (note entry) :=
  .modify_of_scopes fun _ => rfl

theorem confined_print (text : String) : Confined base (print text) :=
  .modify_of_scopes fun _ => rfl

/-- What follows the opening of a scope may count on its being none of the earlier ones. -/
theorem confined_openScope_bind {f : ScopeId → Eval α} (h : ∀ s, base ≤ s → Confined base (f s))
    (parent : ScopeId) : Confined base (openScope parent >>= f) := by
  refine ⟨fun m hm => ?_⟩
  have hopen := sameBelow_openIn hm parent
  have hrest := (h m.scopes.next hm).run { m with scopes := m.scopes.openIn parent }
    (Nat.le_trans hm hopen.next)
  exact hopen.trans hrest

theorem confined_find : Confined base (find s name pos) := by
  refine .get_bind fun m => ?_
  split
  · exact .pure _
  · exact confined_fault ..

theorem confined_define {s : ScopeId} (h : base ≤ s) : Confined base (define s name v) :=
  .modify fun _ _ => sameBelow_define h name v

theorem confined_assign : Confined base (assign s name v pos) := by
  refine .get_bind fun m => ?_
  split
  · exact .modify fun _ _ => sameBelow_update ..
  · exact confined_fault ..

theorem confined_markMoved : Confined base (markMoved s name) :=
  .modify fun _ _ => sameBelow_update ..

theorem confined_alloc (i : Instance) : Confined base (alloc i) :=
  .get_bind fun _ => .bind (.modify_of_scopes fun _ => rfl) fun _ => .pure _

theorem confined_instanceAt (id : InstanceId) : Confined base (instanceAt id) :=
  .get_bind fun _ => .pure _

theorem confined_setField (id : InstanceId) (field : String) :
    Confined base (setField id field v) :=
  .modify_of_scopes fun _ => rfl

theorem confined_typeName : Confined base (typeName v) := .get_bind fun _ => .pure _

/-- A call changes the scopes as its body does, however that ends. -/
theorem confined_withinCall (owner : Option String) {x : Eval Value} (h : Confined base x) :
    Confined base (withinCall owner x) := by
  refine ⟨fun m hm => ?_⟩
  have hx := h.run { m with calls := owner :: m.calls } hm
  unfold withinCall
  generalize x { m with calls := owner :: m.calls } = r at hx
  cases r with
  | ok v m' => exact hx
  | error e m' => cases e <;> exact hx

end Primitives

end Eval

end Rustlet
