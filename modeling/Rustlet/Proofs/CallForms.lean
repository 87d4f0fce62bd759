import Rustlet.Proofs.Headroom
import Rustlet.Proofs.Moves

/-! A method called on an instance, or through the name of its struct with the instance first. -/
namespace Rustlet

open Eval Machine

namespace Evaluation

variable {s : Setting}

/-- However many frames a job may use, if it gives something it gives the same, and leaves the same
instances. -/
theorem eval_ok_unique {α : Type} {job : Job α} {m m₁ m₂ : Machine} {frames frames' : Nat} {a b : α}
    (ha : eval s frames job m = .ok a m₁) (hb : eval s frames' job m = .ok b m₂) :
    b = a ∧ m₂.heap = m₁.heap := by
  have hmatches : ∀ {k n : Nat}, k ≤ n →
      Matches Stop.IsShortage (eval s k job m) (eval s n job m) :=
    fun hle => (lockstep_eval_of_le (fun _ => id) trivial
      (s.similar_roomier (Nat.le_refl _)) hle job).run m m (.refl m)
  rcases Nat.le_total frames frames' with hle | hle
  · have h := hmatches hle
    rw [ha, hb] at h
    cases h with
    | ok _ hagree => exact ⟨rfl, hagree.heap⟩
  · have h := hmatches hle
    rw [ha, hb] at h
    cases h with
    | ok _ hagree => exact ⟨rfl, hagree.heap.symm⟩

section Rules

variable {run : Runner} {scope : ScopeId} {m m₁ m₂ : Machine} {type method : String}
  {f : MethodDef} {id : InstanceId} {pos : Pos}

theorem ofExcept_method (hf : (s.registry.methodsOf type).get? method = some f) (m : Machine) :
    ofExcept (s.registry.method type method (some pos)) m = .ok f m := by
  rw [Registry.method, hf]
  rfl

/-- A call on an instance has found its method when the other arguments are evaluated. -/
theorem methodCallRule_of_found {receiver : Expr} {args : List Expr}
    (hid : run (.object receiver scope) m = .ok id m₁) (htype : (m₁.heap.get id).type = type)
    (hf : (s.registry.methodsOf type).get? method = some f) (hreceiver : f.hasReceiver = true) :
    methodCallRule s run pos receiver method args scope m =
      (do
        let vs ← run (.args args scope)
        run (.apply (.method f (some id)) vs pos) : Eval Value) m₁ := by
  have hfound : instanceAt id m₁ = .ok (m₁.heap.get id) m₁ := rfl
  refine (bind_of_ok hid).trans ((bind_of_ok hfound).trans ?_)
  rw [htype]
  refine (bind_of_ok (ofExcept_method hf m₁)).trans ?_
  rw [if_pos hreceiver]

section Path

variable {d : StructDef} (hd : s.registry.structs.get? type = some d)
  (hf : (s.registry.methodsOf type).get? method = some f)

include hd hf

/-- What is looked up before a call through the name of a struct changes nothing. -/
theorem lookups_bind (call : String → MethodDef → Eval Value) :
    (do
      let owner ← resolve (.named type) pos
      let _ ← ofExcept (s.registry.struct owner (some pos))
      let f ← ofExcept (s.registry.method owner method (some pos))
      call owner f : Eval Value) m = call type f m := by
  have hresolve : resolve (.named type) pos m = .ok type m := rfl
  have hstruct : ofExcept (s.registry.struct type (some pos)) m = .ok d m := by
    rw [Registry.struct, hd]
    rfl
  refine (bind_of_ok hresolve).trans ((bind_of_ok hstruct).trans ?_)
  exact bind_of_ok (ofExcept_method hf m)

theorem pathCallRule_of_stop {args : List Expr} {e : Stop}
    (hargs : run (.args args scope) m = .error e m₁) :
    pathCallRule s run pos (.named type) method args scope m = .error e m₁ :=
  (lookups_bind hd hf _).trans (bind_of_error hargs)

theorem pathCallRule_of_found {args : List Expr} {vs : List Value}
    (hargs : run (.args args scope) m = .ok (.inst id :: vs) m₁)
    (htype : (m₁.heap.get id).type = type) (hreceiver : f.hasReceiver = true) :
    pathCallRule s run pos (.named type) method args scope m =
      run (.apply (.method f (some id)) vs pos) m₁ := by
  have hfound : instanceAt id m₁ = .ok (m₁.heap.get id) m₁ := rfl
  refine (lookups_bind hd hf _).trans ((bind_of_ok hargs).trans ?_)
  rw [if_pos hreceiver]
  refine (bind_of_ok hfound).trans ?_
  rw [if_pos htype]

end Path

variable {receiver : Expr} {args : List Expr} {d : StructDef}

/-- The two forms give out the same jobs, whatever these do, if the instance is of the struct that
is named, and still is after the other arguments have been evaluated. -/
theorem methodCallRule_eq_pathCallRule (inner : Runner)
    (hobject : run (.object receiver scope) = instanceRule inner receiver scope)
    (hargs : ∀ es, run (.args es scope) = argsRule inner scope es)
    (hd : s.registry.structs.get? type = some d)
    (hf : (s.registry.methodsOf type).get? method = some f) (hreceiver : f.hasReceiver = true)
    (hinst : ∀ v m₁, inner (.expr receiver scope) m = .ok v m₁ →
      ∃ id, v = .inst id ∧ (m₁.heap.get id).type = type ∧
        ∀ vs m₂, argsRule inner scope args m₁ = .ok vs m₂ → (m₂.heap.get id).type = type) :
    methodCallRule s run pos receiver method args scope m =
      pathCallRule s run pos (.named type) method (receiver :: args) scope m := by
  have hall : run (.args (receiver :: args) scope) m =
      argsRule inner scope (receiver :: args) m := by
    rw [hargs]
  have hone : run (.object receiver scope) m = instanceRule inner receiver scope m := by
    rw [hobject]
  cases hv : inner (.expr receiver scope) m with
  | error e m₁ =>
    have hleft : run (.object receiver scope) m = .error e m₁ := hone.trans (bind_of_error hv)
    rw [pathCallRule_of_stop hd hf (hall.trans (bind_of_error hv))]
    exact bind_of_error hleft
  | ok v m₁ =>
    obtain ⟨id, rfl, htype, hstays⟩ := hinst v m₁ hv
    rw [methodCallRule_of_found (hone.trans (bind_of_ok hv)) htype hf hreceiver, hargs]
    cases hvs : argsRule inner scope args m₁ with
    | error e m₂ =>
      have hright := hall.trans ((bind_of_ok hv).trans (bind_of_error hvs))
      rw [pathCallRule_of_stop hd hf hright]
      exact bind_of_error hvs
    | ok vs m₂ =>
      have hright := hall.trans ((bind_of_ok hv).trans (bind_of_ok hvs))
      rw [pathCallRule_of_found hd hf hright (hstays vs m₂ hvs) hreceiver]
      exact bind_of_ok hvs

end Rules

end Evaluation

namespace Session

open Evaluation

/-- In every state that a session reaches, also in the middle of a job and whatever calls are under
way, a method that is called on an instance does the same as when it is called through the name of
the instance's struct, with the instance as the first argument: both end with the same value, the
same error in the same place, the same return or for want of the same frame, in the same state. -/
theorem methodCall_eq_pathCall {s : Session} (h : s.Reached) {m : Machine}
    (hheap : m.heap = s.machine.heap) (hscopes : m.scopes = s.machine.scopes) {scope : ScopeId}
    (hscope : scope < m.scopes.next) {type method : String} {f : MethodDef}
    (hf : (s.registry.methodsOf type).get? method = some f) (hreceiver : f.hasReceiver = true)
    {receiver : Expr} {frames : Nat} {id : InstanceId} {m' : Machine}
    (hid : eval s.setting frames (.expr receiver scope) m = .ok (.inst id) m')
    (htype : (m'.heap.get id).type = type) (args : List Expr) (pos : Pos) (frames' : Nat) :
    eval s.setting frames' (.expr (.methodCall pos receiver method args) scope) m =
      eval s.setting frames' (.expr (.pathCall pos (.named type) method (receiver :: args)) scope)
        m := by
  obtain ⟨hnamed, hfits, hfair⟩ := h.orderly
  rw [← hheap] at hfits
  have hfair : Fair (fun _ _ => True) m := hfair.of_same hheap hscopes
  -- An instance of the struct is there, so the struct is declared.
  obtain ⟨hpath, hknown⟩ := path_of_eval (s := s.setting) hnamed hfair hid hscope
  obtain ⟨d, hd, -⟩ := path_fits (r := s.setting.registry) hnamed hpath hfits id hknown.1
  rw [htype] at hd
  cases frames' with
  | zero => rfl
  | succ frames' =>
    cases frames' with
    | zero =>
      have hright : eval s.setting 0 (.args (receiver :: args) scope) m = .error .overflow m := rfl
      exact (pathCallRule_of_stop (s := s.setting) hd hf hright).symm
    | succ frames' =>
      refine methodCallRule_eq_pathCallRule (eval s.setting frames') rfl (fun _ => rfl) hd hf
        hreceiver ?_
      intro v m₁ hv
      obtain ⟨rfl, hsame⟩ := eval_ok_unique hid hv
      have htype₁ : (m₁.heap.get id).type = type := by rw [hsame, htype]
      refine ⟨id, rfl, htype₁, fun vs m₂ hvs => ?_⟩
      -- The instance keeps its struct while the other arguments are evaluated.
      obtain ⟨hpath₁, hknown₁⟩ := path_of_eval (s := s.setting) hnamed hfair hv hscope
      have hscope₁ := Nat.lt_of_lt_of_le hscope (path_grows hpath₁).scopes
      have hargs : eval s.setting (frames' + 1) (.args args scope) m₁ = .ok vs m₂ := hvs
      obtain ⟨hpath₂, -⟩ := path_of_eval (s := s.setting) hnamed (hfair.path hpath₁) hargs hscope₁
      rw [(path_grows hpath₂).types id hknown₁.1, htype₁]

/-- After `struct A { on: bool } impl A { fn set(&mut self, on: bool) { self.on = on; } }` and
`let a = A {};`, the calls `a.set(b)` and `A::set(a, b)` do the same, whatever `b` is. For `true`,
both turn the instance on. -/
theorem methodCall_eq_pathCall_set :
    let body : List Stmt := [.assign .start (.field .start (.name .start selfName) "on")
      (.name .start "on")]
    let items : List Stmt :=
      [.structDecl ⟨.start, "A", [⟨.start, "on", .path (.named "bool")⟩]⟩,
        .implBlock ⟨.start, "A", [⟨.start, "set", some .exclusive,
          [⟨.start, "on", .path (.named "bool")⟩], .unit, body⟩]⟩,
        .letIn .start "a" none (.structLit .start (.named "A") [])]
    let s := ((start false true ⟨40, 1⟩).run items).1
    let onInstance (b : Expr) (pos : Pos) : Expr := .methodCall pos (.name .start "a") "set" [b]
    let onStruct (b : Expr) (pos : Pos) : Expr :=
      .pathCall pos (.named "A") "set" [.name .start "a", b]
    let after (call : Expr) : Option String :=
      match eval s.setting 20 (.expr call ScopeTree.global) s.machine with
      | .ok _ m => some (m.heap.debug .empty (.inst 0))
      | .error _ _ => none
    s.Reached ∧
      ((s.registry.methodsOf "A").get? "set").any (·.hasReceiver) = true ∧
      (∀ (b : Expr) (pos : Pos) (frames : Nat),
        eval s.setting frames (.expr (onInstance b pos) ScopeTree.global) s.machine =
          eval s.setting frames (.expr (onStruct b pos) ScopeTree.global) s.machine) ∧
      s.machine.heap.debug .empty (.inst 0) = "A \x7b on: false \x7d" ∧
      after (onInstance (.bool .start true) .start) = some "A \x7b on: true \x7d" ∧
      after (onStruct (.bool .start true) .start) = some "A \x7b on: true \x7d" := by
  intro body items s onInstance onStruct after
  have hs : s.Reached := (Reached.start false true ⟨40, 1⟩).run items
  have hset : ((s.registry.methodsOf "A").get? "set").any (·.hasReceiver) = true := by
    decide +kernel
  have ha : (s.machine.scopes.find? ScopeTree.global "a").any (fun b =>
      !b.moved && Value.isSameInstance b.value (.inst 0)) = true := by
    decide +kernel
  have htype : (s.machine.heap.get 0).type = "A" := by decide +kernel
  obtain ⟨f, hf, hreceiver⟩ := (Option.any_eq_true _ _).1 hset
  obtain ⟨⟨v, moved⟩, hfind, hb⟩ := (Option.any_eq_true _ _).1 ha
  obtain ⟨rfl, rfl⟩ : moved = false ∧ v = .inst 0 := by
    cases v <;> simp_all [Value.isSameInstance]
  refine ⟨hs, hset, fun b pos frames => ?_, ?_⟩
  · have hid := eval_name_of_not_moved s.setting 0 .start hfind rfl
    exact methodCall_eq_pathCall hs rfl rfl hs.orderly.fair.root hf hreceiver hid htype [b] pos
      frames
  · decide +kernel

end Session

end Rustlet
