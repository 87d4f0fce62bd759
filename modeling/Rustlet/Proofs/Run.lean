import Rustlet.Session

/-! Runs job by job. -/
namespace Rustlet.Session

open Evaluation

variable {s s' : Session} {errors errors' : List RuntimeError}

/-- What stays the same while the session does a job. -/
def setting (s : Session) : Setting := ⟨s.strictMoves, s.registry, s.fieldOrder, s.limits.rounds⟩

section Jobs

theorem performAll_nil (s : Session) (errors : List RuntimeError) :
    s.performAll errors [] = (s, .ok errors) := rfl

theorem performAll_cons (s : Session) (errors : List RuntimeError) (pos : Pos) (job : Job Value)
    (rest : List (Pos × Job Value)) :
    s.performAll errors ((pos, job) :: rest) = match s.perform job with
      | (s, .ok _) => s.performAll errors rest
      | (s, .error stop) =>
        match itemError? pos stop with
        | none => (s, .error .unfinished)
        | some e =>
          if s.continueOnError then (s.note (.itemAborted e)).performAll (errors ++ [e]) rest
          else (s, .error (.error e)) := (rfl)

theorem perform_continueOnError {α : Type} (s : Session) (job : Job α) :
    (s.perform job).1.continueOnError = s.continueOnError := by
  obtain ⟨strict, continues, limits, registry, order, machine⟩ := s
  unfold perform
  dsimp only
  split <;> rfl

theorem perform_limits {α : Type} (s : Session) (job : Job α) :
    (s.perform job).1.limits = s.limits := by
  obtain ⟨strict, continues, limits, registry, order, machine⟩ := s
  unfold perform
  dsimp only
  split <;> rfl

/-- Jobs that are done keep the errors from before them. -/
theorem performAll_errors {js : List (Pos × Job Value)}
    (h : s.performAll errors js = (s', .ok errors')) : errors <+: errors' := by
  induction js generalizing s errors with
  | nil =>
    rw [performAll_nil, Prod.mk.injEq, Except.ok.injEq] at h
    exact h.2 ▸ List.prefix_rfl
  | cons j rest ih =>
    obtain ⟨pos, job⟩ := j
    rw [performAll_cons] at h
    split at h
    · exact ih h
    · split at h
      · simp at h
      · split at h
        · exact (List.prefix_append ..).trans (ih h)
        · simp at h

/-- Once jobs have come to a halt, no more are done. -/
theorem performAll_halted {js : List (Pos × Job Value)} {halt : Halt}
    (h : s.performAll errors js = (s', .error halt)) (more : List (Pos × Job Value)) :
    s.performAll errors (js ++ more) = (s', .error halt) := by
  induction js generalizing s errors with
  | nil => cases h
  | cons j rest ih =>
    obtain ⟨pos, job⟩ := j
    rw [List.cons_append, performAll_cons]
    rw [performAll_cons] at h
    generalize s.perform job = res at h
    obtain ⟨s₁, stop | v⟩ := res
    · dsimp only at h ⊢
      cases hstop : itemError? pos stop with
      | none => simpa only [hstop] using h
      | some e =>
        simp only [hstop] at h ⊢
        split at h
        · rename_i hgo
          rw [if_pos hgo]
          exact ih h
        · rename_i hgo
          rw [if_neg hgo]
          exact h
    · exact ih h

/-- An item that fails does not end a run that goes on at errors. -/
theorem performAll_ne_error (hc : s.continueOnError = true) (errors : List RuntimeError)
    (js : List (Pos × Job Value)) (e : RuntimeError) :
    (s.performAll errors js).2 ≠ .error (.error e) := by
  induction js generalizing s errors with
  | nil => simp [performAll_nil]
  | cons j rest ih =>
    obtain ⟨pos, job⟩ := j
    have hk : (s.perform job).1.continueOnError = true := by
      rw [perform_continueOnError]
      exact hc
    rw [performAll_cons]
    split
    · rename_i s₁ _ hp
      rw [hp] at hk
      exact ih hk _
    · rename_i s₁ stop hp
      rw [hp] at hk
      split
      · simp
      · rename_i err _
        rw [if_pos hk]
        exact ih (s := s₁.note (.itemAborted err)) hk _

/-- The errors of a run: those it records, or the one it stops at. -/
def reported : Except Halt (List RuntimeError) → List RuntimeError
  | .ok errors => errors
  | .error (.error e) => [e]
  | .error .unfinished => []

/-- If the session goes on at errors, all errors are recorded at the end. -/
theorem mem_reported_of_performAll (hc : s.continueOnError = true) (js : List (Pos × Job Value))
    (hend : (s.performAll errors js).2 ≠ .error .unfinished) {e : RuntimeError} (he : e ∈ errors) :
    e ∈ reported (s.performAll errors js).2 := by
  have hne := performAll_ne_error hc errors js
  generalize hres : s.performAll errors js = res at hend hne
  obtain ⟨s', (e' | _) | errors'⟩ := res
  · exact absurd rfl (hne e')
  · exact absurd rfl hend
  · exact (performAll_errors hres).subset he

end Jobs

section Declarations

/-- The session with another registry and with more notes. -/
def entering (s : Session) (r : Registry) (entries : List LogEntry) : Session :=
  { s with
    registry := r
    machine := { s.machine with log := entries.foldl Array.push s.machine.log } }

/-- What becomes of declarations depends on the registry alone. -/
theorem exists_declare (r : Registry) (ds : List Declaration) :
    ∃ r' entries e, ∀ s : Session, s.registry = r → s.declare ds = (s.entering r' entries, e) := by
  induction ds generalizing r with
  | nil =>
    refine ⟨r, [], none, fun s hs => ?_⟩
    rw [← hs]
    rfl
  | cons d rest ih =>
    cases hadd : r.add d with
    | error e =>
      refine ⟨r, [], some e, fun s hs => ?_⟩
      unfold declare
      rw [hs, hadd, ← hs]
      rfl
    | ok r₁ =>
      obtain ⟨r', entries, e, h⟩ := ih r₁
      refine ⟨r', entered d :: entries, e, fun s hs => ?_⟩
      unfold declare
      rw [hs, hadd]
      exact h ({ s with registry := r₁ }.note (entered d)) rfl

theorem declare_calls (s : Session) (ds : List Declaration) :
    (s.declare ds).1.machine.calls = s.machine.calls := by
  obtain ⟨r, entries, e, h⟩ := exists_declare s.registry ds
  rw [h s rfl]
  rfl

theorem exists_freeze (r : Registry) :
    ∃ r' e, ∀ s : Session, s.registry = r → s.freeze = (s.entering r' [], e) := by
  cases hfreeze : r.freeze with
  | error e =>
    refine ⟨r, some e, fun s hs => ?_⟩
    unfold freeze
    rw [hs, hfreeze, ← hs]
    rfl
  | ok r' =>
    refine ⟨r', none, fun s hs => ?_⟩
    unfold freeze
    rw [hs, hfreeze]
    rfl

theorem freeze_calls (s : Session) : s.freeze.1.machine.calls = s.machine.calls := by
  obtain ⟨r, e, h⟩ := exists_freeze s.registry
  rw [h s rfl]
  rfl

theorem exists_prepare (r : Registry) (items : List Stmt) :
    ∃ r' entries e, ∀ s : Session, s.registry = r →
      s.prepare items = (s.entering r' entries, e) := by
  obtain ⟨r₁, entries, e, hdeclare⟩ := exists_declare r (bodyDeclarations items)
  cases e with
  | some e =>
    refine ⟨r₁, entries, some e, fun s hs => ?_⟩
    unfold prepare
    rw [hdeclare s hs]
  | none =>
    obtain ⟨r', e, hfreeze⟩ := exists_freeze r₁
    refine ⟨r', entries, e, fun s hs => ?_⟩
    unfold prepare
    rw [hdeclare s hs]
    exact hfreeze (s.entering r₁ entries) rfl

theorem prepare_calls (s : Session) (items : List Stmt) :
    (s.prepare items).1.machine.calls = s.machine.calls := by
  obtain ⟨r, entries, e, h⟩ := exists_prepare s.registry items
  rw [h s rfl]
  rfl

/-- Two sessions with the same registry refuse the same declarations. -/
theorem prepare_snd_congr (s t : Session) (h : t.registry = s.registry) (items : List Stmt) :
    (t.prepare items).2 = (s.prepare items).2 := by
  obtain ⟨r, entries, e, hprepare⟩ := exists_prepare s.registry items
  rw [hprepare s rfl, hprepare t h]

end Declarations

section Progress

/-- A session after its declarations are entered and its functions bound, and the first `k` of the
jobs of a script are done: the items in order, and then the call of `main`. -/
def progress (s : Session) (items : List Stmt) (k : Nat) :
    Session × Except Halt (List RuntimeError) :=
  match s.prepare items with
  | (s, some e) => (s, .error (.error e))
  | (s, none) =>
    ({ s with fieldOrder := s.registry.fieldOrder }.hoist items).performAll [] ((jobs items).take k)

/-- The session with the order of fields that its registry gives. -/
def ordered (s : Session) : Session := { s with fieldOrder := s.registry.fieldOrder }

/-- The session in which the jobs of a script are done if its declarations are accepted. -/
def readied (s : Session) (items : List Stmt) : Session := (s.prepare items).1.ordered.hoist items

theorem progress_of_accepted {items : List Stmt} (h : (s.prepare items).2 = none) (k : Nat) :
    s.progress items k = (s.readied items).performAll [] ((jobs items).take k) := by
  unfold progress readied
  generalize s.prepare items = res at h
  obtain ⟨s', _⟩ := res
  obtain rfl := h
  rfl

theorem progress_of_refused {items : List Stmt} {e : RuntimeError}
    (h : (s.prepare items).2 = some e) (k : Nat) :
    s.progress items k = ((s.prepare items).1, .error (.error e)) := by
  unfold progress
  generalize s.prepare items = res at h
  obtain ⟨s', _⟩ := res
  obtain rfl := h
  rfl

theorem hoist_eq (s : Session) (items : List Stmt) :
    s.hoist items = { s with machine := (s.hoist items).machine } := by
  unfold hoist
  split <;> rfl

theorem hoist_limits (s : Session) (items : List Stmt) : (s.hoist items).limits = s.limits := by
  rw [hoist_eq]

/-- What is declared and bound before the jobs are done depends on the registry and the state alone,
and not on how the session takes moves, errors and limits. -/
theorem exists_readied (r : Registry) (m : Machine) (items : List Stmt) :
    ∃ r' m', ∀ s : Session, s.registry = r → s.machine = m →
      s.readied items = { s with registry := r', fieldOrder := r'.fieldOrder, machine := m' } := by
  obtain ⟨r', entries, e, hprepare⟩ := exists_prepare r items
  have hhoist : ∃ m', ∀ s : Session, s.machine = m →
      ((s.entering r' entries).ordered.hoist items).machine = m' := by
    cases hm : Evaluation.hoist ScopeTree.global items
        { m with log := entries.foldl Array.push m.log } with
    | ok _ m' =>
      refine ⟨m', ?_⟩
      rintro s rfl
      simp only [hoist, ordered, entering, hm]
    | error _ m' =>
      refine ⟨m', ?_⟩
      rintro s rfl
      simp only [hoist, ordered, entering, hm]
  obtain ⟨m', hm'⟩ := hhoist
  refine ⟨r', m', ?_⟩
  intro s hr hm
  unfold readied
  rw [hprepare s hr, hoist_eq, hm' s hm]
  rfl

theorem readied_limits (s : Session) (items : List Stmt) :
    (s.readied items).limits = s.limits := by
  obtain ⟨r, m, h⟩ := exists_readied s.registry s.machine items
  rw [h s rfl rfl]

theorem readied_continueOnError (s : Session) (items : List Stmt) :
    (s.readied items).continueOnError = s.continueOnError := by
  obtain ⟨r, m, h⟩ := exists_readied s.registry s.machine items
  rw [h s rfl rfl]

end Progress

section Runs

/-- A run is its progress through all jobs. -/
theorem run_eq_progress (s : Session) (items : List Stmt) :
    s.run items = match s.progress items (jobs items).length with
      | (s, .ok errors) => (s, .ok ⟨s.machine.output, errors⟩)
      | (s, .error halt) => (s, .error halt) := by
  unfold run progress
  rw [List.take_length]
  generalize s.prepare items = r
  obtain ⟨s, _ | e⟩ := r <;> rfl

theorem run_fst (s : Session) (items : List Stmt) :
    (s.run items).1 = (s.progress items (jobs items).length).1 := by
  rw [run_eq_progress]
  generalize s.progress items (jobs items).length = res
  obtain ⟨s', halt | errors⟩ := res <;> rfl

theorem run_of_progress_halted {items : List Stmt} {halt : Halt}
    (h : s.progress items (jobs items).length = (s', .error halt)) :
    s.run items = (s', .error halt) := by
  rw [run_eq_progress, h]

theorem progress_of_run_ok {items : List Stmt} {result : RunResult}
    (h : (s.run items).2 = .ok result) :
    ∃ s', s.progress items (jobs items).length = (s', .ok result.errors) ∧
      s'.machine.output = result.output := by
  rw [run_eq_progress] at h
  generalize s.progress items (jobs items).length = res at h
  obtain ⟨s', halt | errors⟩ := res
  · cases h
  · cases h
    exact ⟨s', rfl, rfl⟩

/-- The errors of a run are those of its jobs. -/
theorem run_errors_of_accepted {items : List Stmt} (h : (s.prepare items).2 = none) :
    (s.run items).2.map (·.errors) = ((s.readied items).performAll [] (jobs items)).2 := by
  rw [run_eq_progress, progress_of_accepted h, List.take_length]
  generalize (s.readied items).performAll [] (jobs items) = res
  obtain ⟨s', halt | errors⟩ := res <;> rfl

/-- A run whose declarations are refused ends there. -/
theorem run_of_refused {items : List Stmt} {e : RuntimeError} (h : (s.prepare items).2 = some e) :
    (s.run items).2 = .error (.error e) := by
  rw [run_of_progress_halted (progress_of_refused h _)]

/-- A run that goes on at errors is refused only where a declaration is. -/
theorem run_refused_iff (hc : s.continueOnError = true) (items : List Stmt) (e : RuntimeError) :
    (s.run items).2 = .error (.error e) ↔ (s.prepare items).2 = some e := by
  cases hs : (s.prepare items).2 with
  | some e' =>
    rw [run_of_refused hs]
    simp
  | none =>
    have hgo := (readied_continueOnError s items).trans hc
    have hne := performAll_ne_error hgo [] (jobs items) e
    rw [← run_errors_of_accepted hs] at hne
    constructor
    · intro hrun
      rw [hrun] at hne
      exact absurd rfl hne
    · intro hsome
      cases hsome

end Runs

end Rustlet.Session

namespace Rustlet

theorem runScript_eq (source : String) (options : RunOptions) (limits : Limits) :
    (runScript source options limits).2 = match Program.ofSource source limits with
      | .error e => .error (.source e)
      | .ok program =>
        ((Session.start (options.strictMoves.getD program.strictMoves) options.continueOnError
          limits).run program.items).2.mapError .halt := by
  unfold runScript
  cases Program.ofSource source limits with
  | error e => rfl
  | ok program =>
    dsimp only
    generalize (Session.start _ _ limits).run program.items = r
    obtain ⟨s, halt | result⟩ := r
    · rfl
    · rfl

end Rustlet
