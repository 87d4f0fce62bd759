import Rustlet.Proofs.Lockstep.Run

/-! Strict moves take runs away and change none. -/
namespace Rustlet

open Evaluation

/-- The error is told as the use of a moved value. -/
def RuntimeError.IsMovedUse (e : RuntimeError) : Prop :=
  ∃ name : String, e.fault.message = s!"use of moved value '{name}'"

/-- A stop that is told as the use of a moved value. -/
def Stop.IsMovedUse : Stop → Prop
  | .fault e => e.IsMovedUse
  | _ => False

theorem lockstep_nameRule (strict : Bool) (registry : Registry) (order : FieldOrder) (rounds : Nat)
    (pos : Pos) (name : String) (scope : ScopeId) :
    Eval.Lockstep Stop.IsMovedUse (nameRule ⟨strict, registry, order, rounds⟩ pos name scope)
      (nameRule ⟨false, registry, order, rounds⟩ pos name scope) := by
  refine .bind (Eval.lockstep_find ..) fun b => ?_
  by_cases hb : b.moved
  · cases strict with
    | true =>
      simp only [hb, ↓reduceIte]
      exact .escape ⟨name, rfl⟩ _
    | false =>
      simp only [hb, ↓reduceIte]
      exact .bind (Eval.lockstep_note _) fun _ => .pure _
  · simp only [hb]
    exact .pure _

theorem Evaluation.Setting.similar_lax (strict : Bool) (registry : Registry) (order : FieldOrder)
    (rounds frames : Nat) :
    Setting.Similar Stop.IsMovedUse ⟨strict, registry, order, rounds⟩
      ⟨false, registry, order, rounds⟩ frames frames where
  registry := .refl _
  rounds := .inl rfl
  name := lockstep_nameRule strict registry order rounds
  styled _ _ := lockstep_styled fun _ => .inr rfl

namespace Session

variable {s t s' : Session} {errors errors' : List RuntimeError} {items : List Stmt}

/-- A session and one that is not strict about moves and otherwise differs in its notes at most. -/
structure LaxTwin (s t : Session) : Prop where
  lax : t.strictMoves = false
  continueOnError : t.continueOnError = s.continueOnError
  limits : t.limits = s.limits
  registry : t.registry = s.registry
  fieldOrder : t.fieldOrder = s.fieldOrder
  machine : s.machine.Agrees t.machine

theorem LaxTwin.start (continueOnError : Bool) (limits : Limits) :
    LaxTwin (start true continueOnError limits) (start false continueOnError limits) :=
  ⟨rfl, rfl, rfl, rfl, rfl, .refl _⟩

theorem LaxTwin.prepare (h : LaxTwin s t) (items : List Stmt) :
    LaxTwin (s.prepare items).1 (t.prepare items).1 ∧
      (t.prepare items).2 = (s.prepare items).2 := by
  obtain ⟨r, entries, e, hprepare⟩ := exists_prepare s.registry items
  rw [hprepare s rfl, hprepare t h.registry]
  have hmachine := h.machine
  exact ⟨{ h with
    registry := rfl
    machine := ⟨hmachine.heap, hmachine.scopes, hmachine.calls, hmachine.output⟩ }, rfl⟩

theorem LaxTwin.readied (h : LaxTwin s t) (items : List Stmt) :
    LaxTwin (s.readied items) (t.readied items) := by
  obtain ⟨hp, -⟩ := h.prepare items
  unfold Session.readied
  rw [hoist_eq (s.prepare items).1.ordered, hoist_eq (t.prepare items).1.ordered]
  exact { hp with
    fieldOrder := congrArg Registry.fieldOrder hp.registry
    machine := agrees_hoist hp.machine (lockstep_hoist ..) }

theorem LaxTwin.inStep (h : LaxTwin s t) : InStep Stop.IsMovedUse s t := by
  refine ⟨fun job => ?_, h.continueOnError, h.machine⟩
  have hsetting : t.setting = ⟨false, s.registry, s.fieldOrder, s.limits.rounds⟩ := by
    rw [← h.lax, ← h.registry, ← h.fieldOrder, ← h.limits]
    rfl
  rw [hsetting, h.limits]
  exact lockstep_eval (fun _ => id) (fun _ => Setting.similar_lax ..) s.limits.frames job

/-- Jobs one after the other: what the strict session does without a report of a moved value, its
twin does as well. -/
theorem LaxTwin.performAll {js : List (Pos × Job Value)} (h : LaxTwin s t)
    (hr : s.performAll errors js = (s', .ok errors')) (hm : ∀ e ∈ errors', ¬ e.IsMovedUse) :
    ∃ t', t.performAll errors js = (t', .ok errors') ∧ InStep Stop.IsMovedUse s' t' := by
  have hclear : Clear Stop.IsMovedUse (s.performAll errors js).2 := by
    rw [hr]
    refine fun stop hmoved => ⟨nofun, fun pos e he hmem => hm e hmem ?_⟩
    cases stop with
    | fault e' =>
      obtain rfl : e' = e := Option.some.inj he
      exact hmoved
    | _ => exact hmoved.elim
  obtain ⟨hstep, hend⟩ := h.inStep.performAll errors js hclear
  rw [hr] at hstep hend
  exact ⟨_, Prod.ext rfl hend, hstep⟩

theorem LaxTwin.progress (h : LaxTwin s t) {k : Nat}
    (hr : s.progress items k = (s', .ok errors)) (hm : ∀ e ∈ errors, ¬ e.IsMovedUse) :
    ∃ t', t.progress items k = (t', .ok errors) ∧ InStep Stop.IsMovedUse s' t' := by
  obtain ⟨-, he⟩ := h.prepare items
  cases hs : (s.prepare items).2 with
  | some e =>
    rw [progress_of_refused hs] at hr
    cases hr
  | none =>
    rw [progress_of_accepted hs] at hr
    rw [progress_of_accepted (he.trans hs)]
    exact (h.readied items).performAll hr hm

/-- A script is run strictly and not strictly. Both runs refuse its declarations alike. If the
strict run reports no use of a moved value, both give the same result. In any case, as long as the
strict run has not reported one, both are in the same state after each item: the same output, the
same errors, the same scopes with their moved marks, and the same instances. -/
theorem strict_progress_agrees (items : List Stmt) (limits : Limits) :
    let strict := start true true limits
    let lax := start false true limits
    (∀ e, (lax.run items).2 = .error (.error e) ↔ (strict.run items).2 = .error (.error e)) ∧
    (∀ result, (strict.run items).2 = .ok result → (∀ e ∈ result.errors, ¬ e.IsMovedUse) →
      (lax.run items).2 = .ok result) ∧
    (∀ k s errors, strict.progress items k = (s, .ok errors) → (∀ e ∈ errors, ¬ e.IsMovedUse) →
      ∃ t, lax.progress items k = (t, .ok errors) ∧ t.machine.output = s.machine.output ∧
        t.machine.scopes = s.machine.scopes ∧ t.machine.heap = s.machine.heap) := by
  intro strict lax
  have h : LaxTwin strict lax := .start true limits
  refine ⟨fun e => ?_, fun result hr hm => ?_, fun k s errors hr hm => ?_⟩
  · rw [run_refused_iff rfl, run_refused_iff rfl, (h.prepare items).2]
  · rw [run_eq_progress] at hr ⊢
    generalize hp : strict.progress items (jobs items).length = r at hr
    obtain ⟨s, halt | errors⟩ := r
    · simp at hr
    · simp only [Except.ok.injEq] at hr
      subst hr
      obtain ⟨t, ht, htwin⟩ := h.progress hp hm
      rw [ht, ← htwin.machine.output]
  · obtain ⟨t, ht, htwin⟩ := h.progress hr hm
    exact ⟨t, ht, htwin.machine.output, htwin.machine.scopes, htwin.machine.heap⟩

/-- `struct A; let x = A {}; let y = x; x;` fails at its fourth item in a strict run, and both runs
are in the same state after the third, with `x` moved. -/
theorem strict_progress_agrees_until_read :
    let items : List Stmt :=
      [.structDecl ⟨.start, "A", []⟩,
        .letIn .start "x" none (.structLit .start (.named "A") []),
        .letIn .start "y" none (.name .start "x"),
        .expr .start (.name .start "x") true]
    let strict := start true true ⟨40, 1⟩
    let lax := start false true ⟨40, 1⟩
    (strict.progress items 4).2.toOption = some [⟨.movedValue "x", some .start⟩] ∧
      (lax.progress items 4).2.toOption = some [] ∧
      ∃ s t, strict.progress items 3 = (s, .ok []) ∧ lax.progress items 3 = (t, .ok []) ∧
        s.machine.scopes.isMoved ScopeTree.global "x" = true ∧
        t.machine.scopes = s.machine.scopes := by
  intro items strict lax
  refine ⟨by decide +kernel, by decide +kernel, ?_⟩
  have hok : (strict.progress items 3).2.toOption = some [] := by decide +kernel
  have hx : (strict.progress items 3).1.machine.scopes.isMoved ScopeTree.global "x" = true := by
    decide +kernel
  generalize hr : strict.progress items 3 = r at hok hx
  obtain ⟨s, halt | errors⟩ := r
  · simp [Except.toOption] at hok
  · obtain rfl : errors = [] := by simpa [Except.toOption] using hok
    obtain ⟨t, ht, _, hscopes, _⟩ :=
      (strict_progress_agrees items ⟨40, 1⟩).2.2 3 s [] hr (by simp)
    exact ⟨s, t, rfl, ht, hx, hscopes⟩

end Session

end Rustlet
