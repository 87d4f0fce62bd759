import Rustlet.Rendering

/-! The record of what is being shown holds the instances on the way down to a place. -/
namespace Rustlet.Heap

/-- The text of a value inside the instances of `path`, innermost first. Gives nothing if instances
are nested more than `depth` deep. -/
def debugWithin? (h : Heap) (order : FieldOrder) :
    (depth : Nat) → List InstanceId → Value → Option String
  | 0, _, .inst _ => none
  | depth + 1, path, .inst id =>
    let i := h.get id
    if id ∈ path then some (Instance.elided i.type)
    else do
      let fields ← (i.shown order).mapM fun name => do
        let text ← debugWithin? h order depth (id :: path) (h.field id name)
        pure (name ++ ": " ++ text)
      pure (Instance.text i.type fields)
  | _, _, v => some v.scalarText

theorem debugWithin?_inst (h : Heap) (order : FieldOrder) (depth : Nat) (path : List InstanceId)
    (id : InstanceId) :
    h.debugWithin? order (depth + 1) path (.inst id) =
      if id ∈ path then some (Instance.elided (h.get id).type)
      else (((h.get id).shown order).mapM fun name => do
        let text ← h.debugWithin? order depth (id :: path) (h.field id name)
        pure (name ++ ": " ++ text)) >>= fun fields =>
          some (Instance.text (h.get id).type fields) :=
  rfl

section Restoring

/-- A step that gives something in a state and leaves the state as it is. -/
def Restores {σ α : Type} (state : σ) (step : StateT σ Option α) (given : Option α) : Prop :=
  step.run state = given.map fun a => (a, state)

variable {σ α β : Type} {state : σ}

theorem Restores.bind {step : StateT σ Option α} {given : Option α} {next : α → StateT σ Option β}
    {after : α → Option β} (hstep : Restores state step given)
    (hnext : ∀ a, Restores state (next a) (after a)) :
    Restores state (step >>= next) (given >>= after) := by
  unfold Restores at hstep ⊢
  rw [StateT.run_bind, hstep]
  cases given with
  | none => rfl
  | some a => exact hnext a

theorem Restores.pure (a : α) : Restores state (Pure.pure a) (some a) := rfl

theorem Restores.mapM {f : α → StateT σ Option β} {g : α → Option β}
    (hf : ∀ a, Restores state (f a) (g a)) (as : List α) :
    Restores state (as.mapM f) (as.mapM g) := by
  induction as with
  | nil => rfl
  | cons a rest ih =>
    rw [List.mapM_cons, List.mapM_cons]
    exact (hf a).bind fun b => ih.bind fun bs => .pure (b :: bs)

variable (h : Heap) (order : FieldOrder)

/-- An instance is in the record while its fields are shown. -/
theorem run_showing?_inst (depth : Nat) (path : List InstanceId) (id : InstanceId) :
    (h.showing? order (depth + 1) (.inst id)).run path =
      if id ∈ path then some (Instance.elided (h.get id).type, path)
      else
        (((h.get id).shown order).mapM fun name => do
          let text ← h.showing? order depth (h.field id name)
          pure (name ++ ": " ++ text)).run (id :: path) >>= fun shown =>
        some (Instance.text (h.get id).type shown.1, shown.2.erase id) := by
  by_cases hid : id ∈ path
  · rw [if_pos hid]
    change (if id ∈ path then _ else _ : StateT (List InstanceId) Option String) path = _
    rw [if_pos hid]
    rfl
  · rw [if_neg hid]
    change (if id ∈ path then _ else _ : StateT (List InstanceId) Option String) path = _
    rw [if_neg hid]
    rfl

/-- Showing a value leaves the record as it was, so what is shown inside an instance sees the way
down to it and nothing of what was shown before it. -/
theorem restores_showing? (depth : Nat) (path : List InstanceId) (v : Value) :
    Restores path (h.showing? order depth v) (h.debugWithin? order depth path v) := by
  induction depth generalizing path v with
  | zero => cases v <;> rfl
  | succ depth ih =>
    cases v with
    | inst id =>
      have hfields : Restores (id :: path)
          (((h.get id).shown order).mapM fun name => do
            let text ← h.showing? order depth (h.field id name)
            pure (name ++ ": " ++ text))
          (((h.get id).shown order).mapM fun name => do
            let text ← h.debugWithin? order depth (id :: path) (h.field id name)
            pure (name ++ ": " ++ text)) :=
        .mapM (fun name => (ih (id :: path) (h.field id name)).bind fun text =>
          .pure (name ++ ": " ++ text)) _
      unfold Restores at hfields ⊢
      rw [run_showing?_inst, hfields, debugWithin?_inst]
      split
      · rfl
      · generalize (List.mapM _ _ : Option (List String)) = fields
        cases fields with
        | none => rfl
        | some fields => simp
    | _ => rfl

/-- The text of a value is its text outside of all instances. -/
theorem debug?_eq (depth : Nat) (v : Value) :
    h.debug? order depth v = h.debugWithin? order depth [] v := by
  unfold debug? StateT.run'
  have hrun := h.restores_showing? order depth [] v
  unfold Restores StateT.run at hrun
  rw [hrun]
  cases h.debugWithin? order depth [] v <;> rfl

end Restoring

theorem mapM_eq_some_map {α β : Type} {f : α → Option β} {g : α → β} {as : List α}
    (hf : ∀ a ∈ as, f a = some (g a)) : as.mapM f = some (as.map g) := by
  induction as with
  | nil => rfl
  | cons a rest ih =>
    have hrest := ih fun b hb => hf b (List.mem_cons_of_mem a hb)
    simp [List.mapM_cons, hf a (List.mem_cons_self ..), hrest]

theorem mapM_eq_some_of_forall {α β : Type} {f g : α → Option β}
    (h : ∀ a b, f a = some b → g a = some b) {as : List α} {bs : List β}
    (hf : as.mapM f = some bs) : as.mapM g = some bs := by
  induction as generalizing bs with
  | nil => exact hf
  | cons a as ih =>
    rw [List.mapM_cons] at hf ⊢
    obtain ⟨b, hb, hrest⟩ := Option.bind_eq_some_iff.1 hf
    obtain ⟨bs', hbs', hcons⟩ := Option.bind_eq_some_iff.1 hrest
    exact Option.bind_eq_some_iff.2 ⟨b, h a b hb, Option.bind_eq_some_iff.2 ⟨bs', ih hbs', hcons⟩⟩

section Depth

variable {h : Heap} {order : FieldOrder} {depth depth' : Nat}

/-- A text that is not too deep at some depth is the same at every greater depth. -/
theorem debugWithin?_of_le (hle : depth ≤ depth') {path : List InstanceId} {v : Value}
    {text : String} (htext : h.debugWithin? order depth path v = some text) :
    h.debugWithin? order depth' path v = some text := by
  induction depth generalizing depth' path v text with
  | zero =>
    cases v with
    | inst id => cases htext
    | _ => cases depth' <;> exact htext
  | succ depth ih =>
    obtain ⟨n, rfl⟩ := Nat.exists_eq_add_of_le hle
    rw [show depth + 1 + n = (depth + n) + 1 by omega]
    cases v with
    | inst id =>
      rw [debugWithin?_inst] at htext ⊢
      split at htext
      · rename_i hpath
        rw [if_pos hpath]
        exact htext
      · rename_i hpath
        rw [if_neg hpath]
        obtain ⟨fields, hfields, hpure⟩ := Option.bind_eq_some_iff.1 htext
        refine Option.bind_eq_some_iff.2 ⟨fields, ?_, hpure⟩
        refine mapM_eq_some_of_forall (fun name line hline => ?_) hfields
        obtain ⟨value, hvalue, hname⟩ := Option.bind_eq_some_iff.1 hline
        exact Option.bind_eq_some_iff.2 ⟨value, ih (Nat.le_add_right depth n) hvalue, hname⟩
    | _ => exact htext

/-- Under every depth there is one text. -/
theorem debug?_of_le (hle : depth ≤ depth') {v : Value} {text : String}
    (htext : h.debug? order depth v = some text) : h.debug? order depth' v = some text := by
  rw [debug?_eq] at htext ⊢
  exact debugWithin?_of_le hle htext

end Depth

end Rustlet.Heap
