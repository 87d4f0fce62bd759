import Rustlet.Proofs.Lockstep.Run
import Rustlet.Proofs.Registration
import Rustlet.Proofs.Showing

/-! Declarations may stand anywhere: a run reads the registry through look-ups only. -/
namespace Rustlet

open Evaluation

/-- The statement declares something, and running it does nothing. -/
def Stmt.isDeclaration : Stmt → Bool
  | .structDecl _ | .implBlock _ | .fnDecl _ => true
  | _ => false

/-- The statement declares a function. -/
def Stmt.isFunction : Stmt → Bool
  | .fnDecl _ => true
  | _ => false

/-- Items in another order. Those that are no declarations keep their order among themselves, and so
do the functions. -/
structure Reordered (items items' : List Stmt) : Prop where
  perm : items.Perm items'
  active : items'.filter (!·.isDeclaration) = items.filter (!·.isDeclaration)
  functions : items'.filter Stmt.isFunction = items.filter Stmt.isFunction

theorem bodyDeclarations_eq_flatMap (items : List Stmt) :
    bodyDeclarations items = items.flatMap Stmt.declarations := by
  induction items with
  | nil => rfl
  | cons item rest ih => rw [bodyDeclarations, List.flatMap_cons, ih]

theorem Reordered.declarations {items items' : List Stmt} (h : Reordered items items') :
    (bodyDeclarations items).Perm (bodyDeclarations items') := by
  rw [bodyDeclarations_eq_flatMap, bodyDeclarations_eq_flatMap]
  exact h.perm.flatMap_right _

section Texts

variable {order order' : FieldOrder} (h : ∀ name, order'.get? name = order.get? name)
include h

theorem Instance.shown_congr (i : Instance) : i.shown order' = i.shown order := by
  unfold Instance.shown
  rw [h]

theorem Heap.debugWithin?_congr (heap : Heap) (depth : Nat) (path : List InstanceId) (v : Value) :
    heap.debugWithin? order' depth path v = heap.debugWithin? order depth path v := by
  induction depth generalizing path v with
  | zero => cases v <;> rfl
  | succ depth ih =>
    cases v with
    | inst id => simp only [Heap.debugWithin?_inst, Instance.shown_congr h, ih]
    | _ => rfl

theorem Heap.styled?_congr (heap : Heap) (depth : Nat) (style : Template.Style) (v : Value) :
    heap.styled? order' depth style v = heap.styled? order depth style v := by
  unfold Heap.styled?
  split
  · rfl
  · rw [Heap.debug?_eq, Heap.debug?_eq, Heap.debugWithin?_congr h]

end Texts

namespace Evaluation

variable {s t : Setting}

/-- Two settings in which everything is found and shown alike. -/
structure Setting.Alike (s t : Setting) : Prop where
  strictMoves : t.strictMoves = s.strictMoves
  registry : s.registry.Alike t.registry
  fieldOrder : ∀ name, t.fieldOrder.get? name = s.fieldOrder.get? name
  rounds : t.rounds = s.rounds

theorem Setting.Alike.similar (h : s.Alike t) (frames : Nat) :
    s.Similar (fun _ => False) t frames frames where
  registry := h.registry
  rounds := .inl h.rounds
  name := lockstep_nameRule_of_eq h.strictMoves
  styled _ _ := lockstep_styled fun heap => .inr (heap.styled?_congr h.fieldOrder ..)

theorem hoist_functions (scope : ScopeId) (items : List Stmt) :
    hoist scope (items.filter Stmt.isFunction) = hoist scope items := by
  induction items with
  | nil => rfl
  | cons item rest ih =>
    cases item with
    | fnDecl d => rw [List.filter_cons_of_pos rfl, hoist, hoist, ih]
    | _ => exact ih

end Evaluation

namespace Session

variable {s t : Session} {items items' : List Stmt}

/-- Two sessions in which everything is found and shown alike, and which differ in their notes at
most otherwise. -/
structure Alike (s t : Session) : Prop where
  setting : s.setting.Alike t.setting
  continueOnError : t.continueOnError = s.continueOnError
  limits : t.limits = s.limits
  machine : s.machine.Agrees t.machine

namespace Alike

theorem hoist (h : Alike s t) (hf : items'.filter Stmt.isFunction = items.filter Stmt.isFunction) :
    Alike (s.hoist items) (t.hoist items') := by
  have hl : Eval.Lockstep (fun _ => False) (Evaluation.hoist ScopeTree.global items)
      (Evaluation.hoist ScopeTree.global items') := by
    rw [← hoist_functions _ items, ← hoist_functions _ items', hf]
    exact lockstep_hoist ..
  rw [hoist_eq s, hoist_eq t]
  exact { h with machine := agrees_hoist h.machine hl }

theorem inStep (h : Alike s t) : InStep (fun _ => False) s t := by
  refine ⟨fun job => ?_, h.continueOnError, h.machine⟩
  rw [h.limits]
  exact lockstep_eval (fun _ => id) h.setting.similar s.limits.frames job

/-- Jobs one after the other. -/
theorem performAll (h : Alike s t) (errors : List RuntimeError) (js : List (Pos × Job Value)) :
    InStep (fun _ => False) (s.performAll errors js).1 (t.performAll errors js).1 ∧
      (t.performAll errors js).2 = (s.performAll errors js).2 :=
  h.inStep.performAll errors js nofun

end Alike

/-- The job of an item, with the place it is blamed on. -/
def itemJob (item : Stmt) : Pos × Job Value := (item.pos, .stmt item ScopeTree.global)

theorem main?_functions (items : List Stmt) :
    main? (items.filter Stmt.isFunction) = main? items := by
  induction items with
  | nil => rfl
  | cons item rest ih =>
    cases item with
    | fnDecl d => rw [List.filter_cons_of_pos rfl, main?, main?, ih]
    | _ => exact ih

/-- Running a declaration does nothing, as long as there is a frame for it. -/
theorem perform_declaration (hframes : 0 < s.limits.frames) {item : Stmt}
    (h : item.isDeclaration = true) :
    s.perform (.stmt item ScopeTree.global) = (s, .ok .unit) := by
  obtain ⟨strict, continues, limits, registry, order, machine⟩ := s
  obtain ⟨n, hn⟩ := Nat.exists_eq_succ_of_ne_zero (Nat.ne_of_gt hframes)
  have hrule : ∀ setting : Setting,
      eval setting limits.frames (.stmt item ScopeTree.global) machine = .ok .unit machine := by
    intro setting
    rw [show limits.frames = n + 1 from hn]
    cases item with
    | structDecl d => rfl
    | implBlock b => rfl
    | fnDecl d => rfl
    | _ => cases h
  simp only [perform, hrule]

/-- Only the items that are no declarations count. -/
theorem performAll_active (hframes : 0 < s.limits.frames) (errors : List RuntimeError)
    (items : List Stmt) (js : List (Pos × Job Value)) :
    s.performAll errors ((items.filter (!·.isDeclaration)).map itemJob ++ js) =
      s.performAll errors (items.map itemJob ++ js) := by
  induction items generalizing s errors with
  | nil => rfl
  | cons item rest ih =>
    by_cases hd : item.isDeclaration = true
    · rw [List.filter_cons_of_neg (by simp [hd]), ih hframes]
      simp only [List.map_cons, List.cons_append, itemJob, performAll_cons,
        perform_declaration hframes hd]
    · rw [List.filter_cons_of_pos (by simpa using hd)]
      have hlimits := perform_limits s (.stmt item ScopeTree.global)
      simp only [List.map_cons, List.cons_append, itemJob, performAll_cons]
      generalize s.perform (.stmt item ScopeTree.global) = r at hlimits
      obtain ⟨s₁, stop | v⟩ := r
      · dsimp only at hlimits ⊢
        rw [← hlimits] at hframes
        cases itemError? item.pos stop with
        | none => rfl
        | some e =>
          dsimp only
          split
          · exact ih (s := s₁.note (.itemAborted e)) hframes _
          · rfl
      · dsimp only at hlimits ⊢
        rw [← hlimits] at hframes
        exact ih hframes errors

theorem performAll_jobs_reordered (hframes : 0 < s.limits.frames) (h : Reordered items items')
    (errors : List RuntimeError) :
    s.performAll errors (jobs items') = s.performAll errors (jobs items) := by
  have hmain : main? items' = main? items := by
    rw [← main?_functions items', h.functions, main?_functions]
  calc s.performAll errors (jobs items')
      = s.performAll errors ((items'.filter (!·.isDeclaration)).map itemJob ++ _) :=
        (performAll_active hframes errors items' _).symm
    _ = s.performAll errors ((items.filter (!·.isDeclaration)).map itemJob ++ _) := by
        rw [h.active, hmain]
    _ = s.performAll errors (jobs items) := performAll_active hframes errors items _

/-- The declarations of a script are accepted in any order, or in none. -/
theorem prepare_reordered_iff (hs : s.registry.Lists []) (h : Reordered items items') :
    (s.prepare items').2 = none ↔ (s.prepare items).2 = none := by
  rw [prepare_accepted_iff hs, prepare_accepted_iff hs]
  have hp := h.declarations
  exact ⟨fun ⟨ha, ho⟩ => ⟨ha.perm hp.symm, ho.perm hp.symm⟩,
    fun ⟨ha, ho⟩ => ⟨ha.perm hp, ho.perm hp⟩⟩

/-- Everything is found and shown alike once the declarations are accepted. -/
theorem Alike.of_prepare {s₁ s₂ : Session} (hs : s.registry.Lists []) (h : Reordered items items')
    (h₁ : s.prepare items = (s₁, none)) (h₂ : s.prepare items' = (s₂, none)) :
    Alike { s₁ with fieldOrder := s₁.registry.fieldOrder }
      { s₂ with fieldOrder := s₂.registry.fieldOrder } := by
  obtain ⟨r₁, log₁, hr₁, rfl⟩ := prepare_lists hs h₁
  obtain ⟨r₂, log₂, hr₂, rfl⟩ := prepare_lists hs h₂
  have hstruct := hr₁.struct_eq hr₂ h.declarations
  have hmethod := hr₁.method_eq hr₂ h.declarations
  have horder := hr₁.get?_fieldOrder_eq hr₂ h.declarations
  exact ⟨⟨rfl, ⟨hstruct, hmethod⟩, horder, rfl⟩, rfl, rfl, ⟨rfl, rfl, rfl, rfl⟩⟩

/-- A script and the same items in an order that keeps the order of the functions and that of the
items which are no declarations. The declarations of both are accepted, or those of neither. If they
are, both runs give the same output and the same errors, or stop for the same reason. A run without
a single frame is left out: it fails at every item, declarations included. -/
theorem run_reordered (strictMoves continueOnError : Bool) (limits : Limits)
    (hframes : 0 < limits.frames) {items items' : List Stmt} (h : Reordered items items') :
    let s := start strictMoves continueOnError limits
    ((s.prepare items').2 = none ↔ (s.prepare items).2 = none) ∧
      ((s.prepare items).2 = none → (s.run items').2 = (s.run items).2) := by
  intro s
  have hs : s.registry.Lists [] := .empty
  have hiff := prepare_reordered_iff hs h
  refine ⟨hiff, fun hnone => ?_⟩
  have hnone' := hiff.2 hnone
  unfold run
  generalize hp : s.prepare items = r at hnone
  generalize hp' : s.prepare items' = r' at hnone'
  obtain ⟨s₁, _⟩ := r
  obtain ⟨s₂, _⟩ := r'
  obtain rfl := hnone
  obtain rfl := hnone'
  have halike := (Alike.of_prepare hs h hp hp').hoist h.functions
  have hlimits : s₂.limits = limits := by
    obtain ⟨_, _, -, rfl⟩ := prepare_lists hs hp'
    rfl
  dsimp only
  rw [performAll_jobs_reordered (by rwa [hoist_limits, hlimits]) h]
  obtain ⟨hend, hresult⟩ := halike.performAll [] (jobs items)
  generalize performAll _ [] (jobs items) = q at hend hresult
  generalize performAll _ [] (jobs items) = q' at hend hresult
  obtain ⟨s₃, end₁⟩ := q
  obtain ⟨s₄, end₂⟩ := q'
  obtain rfl : end₂ = end₁ := hresult
  cases end₂ with
  | error halt => rfl
  | ok errors =>
    have houtput : s₄.machine.output = s₃.machine.output := hend.machine.output
    dsimp only
    rw [houtput]

/-- `println!("", A::yes()); impl A { fn yes() { true } } struct A` prints what it prints with its
items in the opposite order. -/
theorem run_reordered_opposite :
    let call : Stmt := .expr .start (.macroCall .start "println"
      [.text .start "", .pathCall .start (.named "A") "yes" []]) true
    let methods : Stmt := .implBlock ⟨.start, "A",
      [⟨.start, "yes", none, [], .unit, [.expr .start (.bool .start true) false]⟩]⟩
    let struct : Stmt := .structDecl ⟨.start, "A", []⟩
    let s := start false true ⟨40, 1⟩
    (s.prepare [struct, methods, call]).2 = none ∧
      ((s.run [call, methods, struct]).2.toOption.map (·.output)) = some "true\n" ∧
      (s.run [call, methods, struct]).2 = (s.run [struct, methods, call]).2 := by
  intro call methods struct s
  have h : Reordered [struct, methods, call] [call, methods, struct] :=
    ⟨(List.reverse_perm _).symm, rfl, rfl⟩
  have hnone : (s.prepare [struct, methods, call]).2 = none := rfl
  exact ⟨hnone, by decide +kernel, (run_reordered false true ⟨40, 1⟩ (by decide) h).2 hnone⟩

end Session

end Rustlet
