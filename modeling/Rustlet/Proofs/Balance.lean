import Rustlet.Proofs.Instances

/-! Every step leaves the calls that are under way as they were, and a return ends a call. -/
namespace Rustlet

namespace Eval.Follows

open Machine

variable {α : Type} {r : Registry} {may : ScopeId → String → Prop} {m : Machine} {x : Eval α}
  {P : α → Machine → Prop}

/-- The same calls are under way before and after a step, however it ends. -/
theorem calls (h : Follows r may m x P) (hm : Fair may m) : (endState (x m)).calls = m.calls := by
  have hends := h.ends hm
  generalize x m = res at hends
  cases hends with
  | ok hl _ => exact hl.calls
  | error hl _ => exact hl.calls

end Eval.Follows

namespace Session

open Eval Evaluation

variable {s : Session}

/-- The end of an item: no call is under way, and the item has not ended in a return. -/
structure Balanced (res : Session × Except Stop Value) : Prop where
  calls : res.1.machine.calls = []
  noReturn : ∀ v, res.2 ≠ .error (.returned v)

theorem eval_of_perform_error {α : Type} {job : Job α} {stop : Stop}
    (h : (s.perform job).2 = .error stop) :
    ∃ m, eval s.setting s.limits.frames job s.machine = .error stop m := by
  obtain ⟨strict, continues, limits, registry, order, machine⟩ := s
  unfold perform at h
  dsimp only at h
  split at h
  · cases h
  · rename_i heval
    cases h
    exact ⟨_, heval⟩

/-- One job, from a state without calls. -/
theorem Orderly.balanced (h : s.Orderly) (hcalls : s.machine.calls = []) {job : Job Value}
    (hjob : job.Known s.machine) : Balanced (s.perform job) := by
  have hmay : job.Allowed fun _ _ => True := job.allowed_of_all fun _ _ => trivial
  have hfollows := follows_eval (s := s.setting) h.named s.limits.frames job hjob hmay
  constructor
  · rw [perform_eq]
    exact (hfollows.calls h.fair).trans hcalls
  · intro v hv
    obtain ⟨m, hm⟩ := eval_of_perform_error hv
    exact (hfollows.sound h.fair hm).2 hcalls

theorem Orderly.balanced_exec (h : s.Orderly) (hcalls : s.machine.calls = []) (item : Stmt) :
    Balanced (s.exec item) := by
  have hknown : (Job.stmt item ScopeTree.global).Known s.machine := h.fair.root
  exact h.balanced hcalls hknown

/-- The jobs of a script one after the other, also where some of them fail. -/
theorem Orderly.performAll_calls (h : s.Orderly) (hcalls : s.machine.calls = [])
    {items : List Stmt} {js : List (Pos × Job Value)} (hjs : js ⊆ jobs items)
    (errors : List RuntimeError) : (s.performAll errors js).1.machine.calls = [] := by
  induction js generalizing s errors with
  | nil => exact hcalls
  | cons j rest ih =>
    obtain ⟨pos, job⟩ := j
    obtain ⟨hjob, hrest⟩ := List.cons_subset.1 hjs
    have hknown := known_of_mem_jobs hjob h.fair.root
    have horderly := h.perform hknown
    have hbalanced := (h.balanced hcalls hknown).calls
    rw [performAll_cons]
    generalize s.perform job = res at horderly hbalanced
    obtain ⟨s', stop | v⟩ := res
    · dsimp only
      split
      · exact hbalanced
      · rename_i e _
        split
        · have hnote : (s'.note (.itemAborted e)).Orderly := horderly.of_path (.single (.noted _))
          exact ih hnote hbalanced hrest _
        · exact hbalanced
    · exact ih horderly hbalanced hrest errors

theorem Orderly.hoist_calls (h : s.Orderly) (items : List Stmt) :
    (s.hoist items).machine.calls = s.machine.calls := by
  have hcalls := (follows_hoist (r := s.registry) h.fair.root (fun _ => trivial) items).calls h.fair
  unfold Session.hoist
  generalize Evaluation.hoist ScopeTree.global items s.machine = res at hcalls
  cases res with
  | ok _ m => exact hcalls
  | error _ m => exact hcalls

theorem Orderly.readied_calls (h : s.Orderly) (items : List Stmt) :
    (s.readied items).machine.calls = s.machine.calls := by
  have hp := h.prepare items
  have hordered : (s.prepare items).1.ordered.Orderly := ⟨hp.named, hp.fits, hp.fair⟩
  exact (hordered.hoist_calls items).trans (prepare_calls s items)

theorem Orderly.progress_calls (h : s.Orderly) (hcalls : s.machine.calls = []) (items : List Stmt)
    (k : Nat) : (s.progress items k).1.machine.calls = [] := by
  cases hs : (s.prepare items).2 with
  | none =>
    rw [progress_of_accepted hs]
    have hreadied := (h.readied_calls items).trans hcalls
    exact (h.readied items).performAll_calls hreadied (List.take_subset ..) []
  | some e =>
    rw [progress_of_refused hs]
    exact (prepare_calls s items).trans hcalls

theorem Reached.calls (h : s.Reached) : s.machine.calls = [] := by
  induction h with
  | start strictMoves continueOnError limits => rfl
  | declare _ items ih => exact (declare_calls _ _).trans ih
  | freeze _ ih => exact (freeze_calls _).trans ih
  | exec h item ih => exact (h.orderly.balanced_exec ih item).calls
  | run h items ih =>
    rw [run_fst]
    exact h.orderly.progress_calls ih items _
  | progress h items k ih => exact h.orderly.progress_calls ih items k
  | @brokenOff s h halts items pos job hjob ih =>
    have hknown := known_of_mem_jobs hjob h.orderly.fair.root
    have hmay : job.Allowed fun _ _ => True := job.allowed_of_all fun _ _ => trivial
    have hfollows := follows_evalUntil (s := s.setting) halts h.orderly.named s.limits.frames job
      hknown hmay
    exact (hfollows.calls h.orderly.fair).trans ih

/-- In every state that a session reaches, no call is under way. From there, every item and every
job of a script, the call of `main` included, ends without a call under way and not in a return,
be it with a value, with an error or by running out of frames at any depth. -/
theorem reached_balanced (h : s.Reached) :
    s.machine.calls = [] ∧ (∀ item, Balanced (s.exec item)) ∧
      ∀ items, ∀ j ∈ jobs items, Balanced (s.perform j.2) := by
  refine ⟨h.calls, h.orderly.balanced_exec h.calls, ?_⟩
  rintro items ⟨pos, job⟩ hj
  exact h.orderly.balanced h.calls (known_of_mem_jobs hj h.orderly.fair.root)

/-- A function that calls itself runs out of frames inside many calls. After that no call is under
way, so that a `return` outside of functions is an error. -/
theorem reached_balanced_overflow :
    let call : Expr := .call ⟨1, 11⟩ (.name ⟨1, 10⟩ "f") []
    let items : List Stmt := [.fnDecl ⟨⟨1, 1⟩, "f", none, [], .unit, [.expr ⟨1, 10⟩ call false]⟩,
      .expr ⟨2, 1⟩ call true]
    let item : Stmt := .ret ⟨3, 1⟩ none
    let s := ((start false true ⟨40, 1⟩).run items).1
    s.Reached ∧
      ((start false true ⟨40, 1⟩).run items).2.toOption.map (·.errors) =
        some [⟨.tooDeep, some ⟨2, 1⟩⟩] ∧
      s.machine.calls = [] ∧ Balanced (s.exec item) ∧
      (s.run [item]).2.toOption.map (·.errors) = some [⟨.returnOutsideFn, some ⟨3, 1⟩⟩] := by
  intro call items item s
  have hs : s.Reached := (Reached.start false true ⟨40, 1⟩).run items
  obtain ⟨hcalls, hexec, -⟩ := reached_balanced hs
  exact ⟨hs, by decide +kernel, hcalls, hexec item, by decide +kernel⟩

end Session

end Rustlet
