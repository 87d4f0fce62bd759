import Rustlet.Proofs.Balance
import Rustlet.Proofs.Traces

/-! Names are marked as moved only while they hold instances. -/
namespace Rustlet

open Machine

namespace ScopeTree

/-- Every binding that is marked as moved holds an instance. -/
def MovesInstances (t : ScopeTree) : Prop :=
  ∀ s name b, t.local? s name = some b → b.moved = true → ∃ id, b.value = .inst id

variable {t : ScopeTree}

theorem MovesInstances.found (h : t.MovesInstances) {s : ScopeId} {name : String} {b : Binding}
    (hb : t.find? s name = some b) (hmoved : b.moved = true) : ∃ id, b.value = .inst id := by
  obtain ⟨owner, -, hlocal⟩ := Option.bind_eq_some_iff.1 hb
  exact h owner name b hlocal hmoved

theorem movesInstances_root : root.MovesInstances := by
  intro s name b hb
  cases s with
  | zero => cases hb
  | succ s => cases hb

theorem MovesInstances.openIn (h : t.MovesInstances) (parent : ScopeId) :
    (t.openIn parent).MovesInstances := by
  intro s name b hb
  rw [local?_openIn] at hb
  exact h s name b hb

/-- A new binding is not marked. -/
theorem MovesInstances.define (h : t.MovesInstances) (s : ScopeId) (name : String) (v : Value) :
    (t.define s name v).MovesInstances := by
  intro s' x b hb hmoved
  rw [local?_define] at hb
  split at hb
  · cases hb
    cases hmoved
  · exact h s' x b hb hmoved

/-- A new value takes the mark away. -/
theorem MovesInstances.assign (h : t.MovesInstances) (s : ScopeId) (name : String) (v : Value) :
    (t.assign s name v).MovesInstances := by
  intro s' x b hb hmoved
  rw [ScopeTree.assign, local?_update] at hb
  split at hb
  · obtain ⟨old, -, rfl⟩ := Option.map_eq_some_iff.1 hb
    cases hmoved
  · exact h s' x b hb hmoved

/-- The binding that is marked is the one whose value was found. -/
theorem MovesInstances.markMoved (h : t.MovesInstances) {s : ScopeId} {name : String} {b : Binding}
    {id : InstanceId} (hb : t.find? s name = some b) (hid : b.value = .inst id) :
    (t.markMoved s name).MovesInstances := by
  intro s' x b' hb' hmoved
  rw [ScopeTree.markMoved, local?_update] at hb'
  split at hb'
  · rename_i hsame
    obtain ⟨howner, rfl⟩ := hsame
    obtain ⟨old, hold, rfl⟩ := Option.map_eq_some_iff.1 hb'
    -- The scope that is changed is the one in which the name was found.
    rw [find?, howner, Option.bind_some, hold] at hb
    obtain rfl := Option.some.inj hb
    exact ⟨id, hid⟩
  · exact h s' x b' hb' hmoved

end ScopeTree

theorem Machine.Change.movesInstances {r : Registry} {may : ScopeId → String → Prop}
    {m m' : Machine} (h : Change r may m m') (hm : m.scopes.MovesInstances) :
    m'.scopes.MovesInstances := by
  cases h with
  | opened h => exact hm.openIn _
  | bound h hv => exact hm.define _ _ _
  | assigned hv => exact hm.assign _ _ _
  | moved hb hid => exact hm.markMoved hb hid
  | _ => exact hm

theorem Machine.trace_movesInstances {m m' : Machine} (h : Trace m m')
    (hm : m.scopes.MovesInstances) : m'.scopes.MovesInstances := by
  induction h with
  | refl => exact hm
  | tail _ hc ih =>
    obtain ⟨r, hc⟩ := hc
    exact hc.movesInstances ih

namespace Session

open Evaluation

variable {s : Session}

theorem Reached.movesInstances (h : s.Reached) : s.machine.scopes.MovesInstances :=
  trace_movesInstances h.trace ScopeTree.movesInstances_root

/-- Reading a name that is not marked gives its value and changes nothing. -/
theorem eval_name_of_not_moved (t : Setting) (frames : Nat) (pos : Pos) {scope : ScopeId}
    {name : String} {m : Machine} {b : Binding} (hb : m.scopes.find? scope name = some b)
    (hmoved : b.moved = false) :
    eval t (frames + 1) (.expr (.name pos name) scope) m = .ok b.value m := by
  have hfind : Eval.find scope name pos m = .ok b m := by
    refine (Eval.bind_of_ok (x := get) rfl).trans ?_
    rw [hb]
    rfl
  refine (Eval.bind_of_ok hfind).trans ?_
  rw [hmoved]
  rfl

/-- A job that stops at a moved name leaves it marked in some scope. -/
theorem Orderly.isMoved_of_perform (h : s.Orderly) {job : Job Value} (hjob : job.Known s.machine)
    {name : String} {pos : Option Pos}
    (hstop : (s.perform job).2 = .error (.fault ⟨.movedValue name, pos⟩)) :
    ∃ scope, (s.perform job).1.machine.scopes.isMoved scope name = true := by
  have hmay : job.Allowed fun _ _ => True := job.allowed_of_all fun _ _ => trivial
  have hfollows := follows_eval (s := s.setting) h.named s.limits.frames job hjob hmay
  obtain ⟨m, hm⟩ := eval_of_perform_error hstop
  have hend : (s.perform job).1.machine = m := by
    rw [perform_eq, hm]
    rfl
  rw [hend]
  exact (hfollows.sound h.fair hm).2 name rfl

/-- In every state that a session reaches, also in the middle of a job, each binding of any scope
that is marked as moved holds an instance. So reading a name that holds anything else gives its
value, however strict the session is, and whenever a job stops because a name has been moved, there
is a scope in which that name is marked and holds an instance. -/
theorem reached_moves (h : s.Reached) :
    (∀ scope name b, s.machine.scopes.local? scope name = some b → b.moved = true →
      ∃ id, b.value = .inst id) ∧
    (∀ m : Machine, m.scopes = s.machine.scopes → ∀ scope name b,
      m.scopes.find? scope name = some b → (∀ id, b.value ≠ .inst id) → ∀ frames pos,
        eval s.setting (frames + 1) (.expr (.name pos name) scope) m = .ok b.value m) ∧
    ∀ items, ∀ j ∈ jobs items, ∀ name pos,
      (s.perform j.2).2 = .error (.fault ⟨.movedValue name, pos⟩) →
        ∃ scope b id, (s.perform j.2).1.machine.scopes.find? scope name = some b ∧
          b.moved = true ∧ b.value = .inst id := by
  refine ⟨h.movesInstances, ?_, ?_⟩
  · intro m hscopes scope name b hb hother frames pos
    have hmoves := h.movesInstances
    rw [← hscopes] at hmoves
    cases hmoved : b.moved with
    | false => exact eval_name_of_not_moved _ _ _ hb hmoved
    | true =>
      obtain ⟨id, hid⟩ := hmoves.found hb hmoved
      exact absurd hid (hother id)
  · rintro items ⟨pos', job⟩ hj name pos hstop
    have hknown := known_of_mem_jobs hj h.orderly.fair.root
    obtain ⟨scope, hmoved⟩ := h.orderly.isMoved_of_perform hknown hstop
    have hmoves := trace_movesInstances (h.orderly.trace_perform hknown) h.movesInstances
    obtain ⟨b, hb, hmarked⟩ := (Option.any_eq_true _ _).1 hmoved
    obtain ⟨id, hid⟩ := hmoves.found hb hmarked
    exact ⟨scope, b, id, hb, hmarked, hid⟩

/-- After `struct A; let x = A {}; let y = x; let n = true; let k = n;` a strict session refuses to
read `x`, which holds an instance, and reads `n`, which has been copied. -/
theorem reached_moves_copied :
    let items : List Stmt :=
      [.structDecl ⟨.start, "A", []⟩,
        .letIn .start "x" none (.structLit .start (.named "A") []),
        .letIn .start "y" none (.name .start "x"),
        .letIn .start "n" none (.bool .start true),
        .letIn .start "k" none (.name .start "n")]
    let s := ((start true true ⟨40, 1⟩).run items).1
    s.Reached ∧
      (s.run [.expr .start (.name .start "x") true]).2.toOption.map (·.errors) =
        some [⟨.movedValue "x", some .start⟩] ∧
      (∃ b id, s.machine.scopes.local? ScopeTree.global "x" = some b ∧ b.moved = true ∧
        b.value = .inst id) ∧
      ∃ b, s.machine.scopes.find? ScopeTree.global "n" = some b ∧
        eval s.setting 1 (.expr (.name .start "n") ScopeTree.global) s.machine =
          .ok b.value s.machine := by
  intro items s
  have hs : s.Reached := (Reached.start true true ⟨40, 1⟩).run items
  obtain ⟨hinst, hread, -⟩ := reached_moves hs
  have hx : (s.machine.scopes.local? ScopeTree.global "x").any (·.moved) = true := by
    decide +kernel
  have hn : (s.machine.scopes.find? ScopeTree.global "n").any
      (fun b => !Value.isSameInstance b.value b.value) = true := by
    decide +kernel
  obtain ⟨b, hb, hmoved⟩ := (Option.any_eq_true _ _).1 hx
  obtain ⟨id, hid⟩ := hinst _ _ b hb hmoved
  obtain ⟨c, hc, hother⟩ := (Option.any_eq_true _ _).1 hn
  refine ⟨hs, by decide +kernel, ⟨b, id, hb, hmoved, hid⟩, c, hc, ?_⟩
  apply hread s.machine rfl _ _ c hc
  intro id hid
  simp [hid, Value.isSameInstance] at hother

end Session

end Rustlet
