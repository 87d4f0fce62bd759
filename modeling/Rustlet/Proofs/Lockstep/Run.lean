import Rustlet.Proofs.Lockstep.Rules
import Rustlet.Proofs.Run

/-! Two sessions side by side, job by job. -/
namespace Rustlet.Session

open Eval Evaluation

variable {escapes : Stop → Prop} {s t : Session}

/-- Functions are bound alike. -/
theorem agrees_hoist {items items' : List Stmt} (h : s.machine.Agrees t.machine)
    (hl : Lockstep (fun _ => False) (Evaluation.hoist ScopeTree.global items)
      (Evaluation.hoist ScopeTree.global items')) :
    (s.hoist items).machine.Agrees (t.hoist items').machine := by
  have hm := hl.run _ _ h
  unfold hoist
  generalize Evaluation.hoist ScopeTree.global items s.machine = r at hm
  generalize Evaluation.hoist ScopeTree.global items' t.machine = q at hm
  cases hm with
  | ok _ hm => exact hm
  | error _ hm => exact hm
  | escaped he => exact he.elim

/-- Two sessions that do every job in lockstep, and go on at errors or stop at them alike. -/
structure InStep (escapes : Stop → Prop) (s t : Session) : Prop where
  eval : ∀ {α : Type} (job : Job α),
    Lockstep escapes (eval s.setting s.limits.frames job) (eval t.setting t.limits.frames job)
  continueOnError : t.continueOnError = s.continueOnError
  machine : s.machine.Agrees t.machine

namespace InStep

theorem note (h : InStep escapes s t) (entry : LogEntry) :
    InStep escapes (s.note entry) (t.note entry) :=
  { h with machine := ⟨h.machine.heap, h.machine.scopes, h.machine.calls, h.machine.output⟩ }

/-- One job: either both sessions end it alike, or the first stops in a way that escapes. -/
theorem perform {α : Type} (h : InStep escapes s t) (job : Job α) :
    (InStep escapes (s.perform job).1 (t.perform job).1 ∧
        (t.perform job).2 = (s.perform job).2) ∨
      ∃ stop, (s.perform job).2 = .error stop ∧ escapes stop := by
  have hj := (h.eval job).run _ _ h.machine
  obtain ⟨strict, continues, limits, registry, order, machine⟩ := s
  obtain ⟨strict', continues', limits', registry', order', machine'⟩ := t
  unfold setting at hj
  unfold Session.perform
  dsimp only at hj ⊢
  generalize Evaluation.eval ⟨strict, registry, order, limits.rounds⟩ limits.frames job machine = r
    at hj
  generalize Evaluation.eval ⟨strict', registry', order', limits'.rounds⟩ limits'.frames job
    machine' = q at hj
  cases hj with
  | ok a hm => exact .inl ⟨⟨h.eval, h.continueOnError, hm⟩, rfl⟩
  | error e hm => exact .inl ⟨⟨h.eval, h.continueOnError, hm⟩, rfl⟩
  | escaped he => exact .inr ⟨_, rfl, he⟩

end InStep

/-- The end of jobs shows that none of them has stopped in a way that escapes. -/
def Clear (escapes : Stop → Prop) (res : Except Halt (List RuntimeError)) : Prop :=
  ∀ stop, escapes stop →
    res ≠ .error .unfinished ∧ ∀ pos e, itemError? pos stop = some e → e ∉ reported res

/-- A job that stops shows at the end. -/
theorem not_clear_of_perform {errors : List RuntimeError} {pos : Pos} {job : Job Value}
    {stop : Stop} (hstop : (s.perform job).2 = .error stop) (hescapes : escapes stop)
    (rest : List (Pos × Job Value)) :
    ¬ Clear escapes (s.performAll errors ((pos, job) :: rest)).2 := by
  intro hclear
  obtain ⟨hend, hnot⟩ := hclear stop hescapes
  rw [performAll_cons] at hend hnot
  generalize s.perform job = res at hstop hend hnot
  obtain ⟨s', _⟩ := res
  obtain rfl := hstop
  dsimp only at hend hnot
  cases herror : itemError? pos stop with
  | none =>
    simp only [herror] at hend
    exact hend rfl
  | some e =>
    simp only [herror] at hend hnot
    split at hend
    -- All errors so far are among those at the end.
    · rename_i hc
      have hmem : e ∈ reported ((s'.note (.itemAborted e)).performAll (errors ++ [e]) rest).2 :=
        mem_reported_of_performAll (s := s'.note (.itemAborted e)) hc rest hend (by simp)
      exact hnot pos e herror (by rwa [if_pos hc])
    · rename_i hc
      exact hnot pos e herror (by simp [hc, reported])

/-- Jobs one after the other. -/
theorem InStep.performAll (h : InStep escapes s t) (errors : List RuntimeError)
    (js : List (Pos × Job Value)) (hclear : Clear escapes (s.performAll errors js).2) :
    InStep escapes (s.performAll errors js).1 (t.performAll errors js).1 ∧
      (t.performAll errors js).2 = (s.performAll errors js).2 := by
  induction js generalizing s t errors with
  | nil => exact ⟨h, rfl⟩
  | cons j rest ih =>
    obtain ⟨pos, job⟩ := j
    rcases h.perform job with ⟨hstep, hend⟩ | ⟨stop, hstop, hescapes⟩
    · rw [performAll_cons] at hclear
      rw [performAll_cons, performAll_cons]
      generalize s.perform job = r at hstep hend hclear
      generalize t.perform job = q at hstep hend
      obtain ⟨s₁, end₁⟩ := r
      obtain ⟨t₁, end₂⟩ := q
      obtain rfl : end₂ = end₁ := hend
      cases end₂ with
      | ok v => exact ih hstep errors hclear
      | error stop =>
        dsimp only at hclear ⊢
        cases herror : itemError? pos stop with
        | none => exact ⟨hstep, rfl⟩
        | some e =>
          simp only [herror] at hclear ⊢
          rw [hstep.continueOnError]
          split
          · rename_i hc
            rw [if_pos hc] at hclear
            exact ih (hstep.note _) _ hclear
          · exact ⟨hstep, rfl⟩
    · exact absurd hclear (not_clear_of_perform hstop hescapes rest)

end Rustlet.Session
