import Rustlet.Proofs.Instances

/-! The changes that a session makes, from the state before anything has run. -/
namespace Rustlet

namespace Machine

variable {r : Registry} {m m' : Machine}

/-- Changes one after the other, whatever is declared at each of them. -/
abbrev Trace : Machine → Machine → Prop :=
  Relation.ReflTransGen fun m m' => ∃ r, Change r (fun _ _ => True) m m'

theorem trace_of_path (h : Path r (fun _ _ => True) m m') : Trace m m' := by
  induction h with
  | refl => exact .refl
  | tail _ hc ih => exact ih.tail ⟨r, hc⟩

/-- Making a note is a change under any declarations. -/
theorem trace_noted (m : Machine) (entry : LogEntry) :
    Trace m { m with log := m.log.push entry } :=
  .single ⟨.empty, .noted entry⟩

end Machine

namespace Session

open Machine Evaluation

variable {s : Session}

/-- Entering declarations only makes notes. -/
theorem trace_entering (s : Session) (r : Registry) (entries : List LogEntry) :
    Trace s.machine (s.entering r entries).machine := by
  induction entries generalizing s with
  | nil => exact .refl
  | cons entry rest ih => exact (trace_noted s.machine entry).trans (ih (s.note entry))

theorem trace_declare (s : Session) (ds : List Declaration) :
    Trace s.machine (s.declare ds).1.machine := by
  obtain ⟨r, entries, e, h⟩ := exists_declare s.registry ds
  rw [h s rfl]
  exact trace_entering s r entries

theorem trace_freeze (s : Session) : Trace s.machine s.freeze.1.machine := by
  obtain ⟨r, e, h⟩ := exists_freeze s.registry
  rw [h s rfl]
  exact trace_entering s r []

theorem trace_prepare (s : Session) (items : List Stmt) :
    Trace s.machine (s.prepare items).1.machine := by
  obtain ⟨r, entries, e, h⟩ := exists_prepare s.registry items
  rw [h s rfl]
  exact trace_entering s r entries

theorem Orderly.trace_perform (h : s.Orderly) {α : Type} {job : Job α}
    (hjob : job.Known s.machine) : Trace s.machine (s.perform job).1.machine := by
  have hmay : job.Allowed fun _ _ => True := job.allowed_of_all fun _ _ => trivial
  have hfollows := follows_eval (s := s.setting) h.named s.limits.frames job hjob hmay
  rw [perform_eq]
  exact trace_of_path (hfollows.path h.fair)

theorem Orderly.trace_hoist (h : s.Orderly) (items : List Stmt) :
    Trace s.machine (s.hoist items).machine := by
  have hpath := (follows_hoist (r := s.registry) h.fair.root (fun _ => trivial) items).path h.fair
  unfold Session.hoist
  generalize Evaluation.hoist ScopeTree.global items s.machine = res at hpath
  cases res with
  | ok _ m => exact trace_of_path hpath
  | error _ m => exact trace_of_path hpath

/-- Jobs one after the other: a job that fails has made its changes, too. -/
theorem Orderly.trace_performAll (h : s.Orderly) {items : List Stmt} {js : List (Pos × Job Value)}
    (hjs : js ⊆ jobs items) (errors : List RuntimeError) :
    Trace s.machine (s.performAll errors js).1.machine := by
  induction js generalizing s errors with
  | nil => exact .refl
  | cons j rest ih =>
    obtain ⟨pos, job⟩ := j
    obtain ⟨hjob, hrest⟩ := List.cons_subset.1 hjs
    have hknown := known_of_mem_jobs hjob h.fair.root
    have horderly := h.perform hknown
    have htrace := h.trace_perform hknown
    rw [performAll_cons]
    generalize s.perform job = res at horderly htrace
    obtain ⟨s', stop | v⟩ := res
    · dsimp only
      split
      · exact htrace
      · rename_i e _
        split
        · have hnote : (s'.note (.itemAborted e)).Orderly := horderly.of_path (.single (.noted _))
          exact (htrace.trans (trace_noted _ _)).trans (ih hnote hrest _)
        · exact htrace
    · exact htrace.trans (ih horderly hrest errors)

theorem Orderly.trace_readied (h : s.Orderly) (items : List Stmt) :
    Trace s.machine (s.readied items).machine := by
  have hp := h.prepare items
  have hordered : (s.prepare items).1.ordered.Orderly := ⟨hp.named, hp.fits, hp.fair⟩
  exact (trace_prepare s items).trans (hordered.trace_hoist items)

theorem Orderly.trace_progress (h : s.Orderly) (items : List Stmt) (k : Nat) :
    Trace s.machine (s.progress items k).1.machine := by
  cases hs : (s.prepare items).2 with
  | none =>
    rw [progress_of_accepted hs]
    have hjobs := (h.readied items).trace_performAll (List.take_subset k (jobs items)) []
    exact (h.trace_readied items).trans hjobs
  | some e =>
    rw [progress_of_refused hs]
    exact trace_prepare s items

theorem Orderly.trace_run (h : s.Orderly) (items : List Stmt) :
    Trace s.machine (s.run items).1.machine := by
  rw [run_fst]
  exact h.trace_progress items _

/-- Every state that is reached, be it in the middle of a job. -/
theorem Reached.trace (h : s.Reached) : Trace .start s.machine := by
  induction h with
  | start strictMoves continueOnError limits => exact .refl
  | declare _ items ih => exact ih.trans (trace_declare _ _)
  | freeze _ ih => exact ih.trans (trace_freeze _)
  | exec h item ih =>
    have hknown : (Job.stmt item ScopeTree.global).Known _ := h.orderly.fair.root
    exact ih.trans (h.orderly.trace_perform hknown)
  | run h items ih => exact ih.trans (h.orderly.trace_run items)
  | progress h items k ih => exact ih.trans (h.orderly.trace_progress items k)
  | @brokenOff s h halts items pos job hjob ih =>
    have hknown := known_of_mem_jobs hjob h.orderly.fair.root
    have hmay : job.Allowed fun _ _ => True := job.allowed_of_all fun _ _ => trivial
    have hfollows := follows_evalUntil (s := s.setting) halts h.orderly.named s.limits.frames job
      hknown hmay
    exact ih.trans (trace_of_path (hfollows.path h.orderly.fair))

end Session

end Rustlet
