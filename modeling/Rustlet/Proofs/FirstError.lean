import Rustlet.Proofs.Traces

/-! A session that stops at errors, next to one that goes on. -/
namespace Rustlet

namespace Machine

variable {r : Registry} {may : ScopeId → String → Prop} {m m' : Machine}

/-- What has been printed stays printed. -/
theorem Change.output_prefix (h : Change r may m m') : m.output.toList <+: m'.output.toList := by
  cases h with
  | printed text =>
    rw [String.toList_append]
    exact List.prefix_append _ _
  | _ => exact List.prefix_rfl

theorem trace_output_prefix (h : Trace m m') : m.output.toList <+: m'.output.toList := by
  induction h with
  | refl => exact List.prefix_rfl
  | tail _ hc ih =>
    obtain ⟨r, hc⟩ := hc
    exact ih.trans hc.output_prefix

end Machine

namespace Session

open Machine Evaluation

variable {s : Session} {items : List Stmt} {js : List (Pos × Job Value)}

/-- The same session, but one that stops at errors. -/
def stopping (s : Session) : Session := { s with continueOnError := false }

theorem readied_stopping (s : Session) (items : List Stmt) :
    s.stopping.readied items = (s.readied items).stopping := by
  obtain ⟨r, m, h⟩ := exists_readied s.registry s.machine items
  rw [h s rfl rfl, h s.stopping rfl rfl]
  rfl

/-- No job asks what the session does at errors. -/
theorem perform_stopping {α : Type} (s : Session) (job : Job α) :
    s.stopping.perform job = ((s.perform job).1.stopping, (s.perform job).2) := by
  obtain ⟨strict, continues, limits, registry, order, machine⟩ := s
  simp only [perform, stopping]
  cases eval ⟨strict, registry, order, limits.rounds⟩ limits.frames job machine with
  | ok a m => rfl
  | error stop m => rfl

/-- How jobs end if the session goes on at errors and how if it stops. With an error, the stopping
session ends where the other has recorded just this error and has more jobs to do. -/
inductive Parts (s : Session) (js : List (Pos × Job Value)) :
    (going stopped : Session × Except Halt (List RuntimeError)) → Prop
  | done (t : Session) : Parts s js (t, .ok []) (t.stopping, .ok [])
  | unfinished (t : Session) : Parts s js (t, .error .unfinished) (t.stopping, .error .unfinished)
  | failed {t t' : Session} {e : RuntimeError} {res : Except Halt (List RuntimeError)} {k : Nat}
    (hfirst : s.performAll [] (js.take k) = (t.note (.itemAborted e), .ok [e]))
    (htrace : Trace t.machine t'.machine) (hres : ∀ errors, res = .ok errors → [e] <+: errors) :
    Parts s js (t', res) (t.stopping, .error (.error e))

/-- A job with a value before the others. -/
theorem Parts.cons {s' : Session} {pos : Pos} {job : Job Value} {v : Value}
    {going stopped : Session × Except Halt (List RuntimeError)}
    (hjob : s.perform job = (s', .ok v)) (h : Parts s' js going stopped) :
    Parts s ((pos, job) :: js) going stopped := by
  cases h with
  | done t => exact .done t
  | unfinished t => exact .unfinished t
  | @failed t t' e res k hfirst htrace hres =>
    refine .failed (k := k + 1) ?_ htrace hres
    rw [List.take_succ_cons, performAll_cons, hjob]
    exact hfirst

theorem Orderly.parts (h : s.Orderly) (hgo : s.continueOnError = true) (hjs : js ⊆ jobs items) :
    Parts s js (s.performAll [] js) (s.stopping.performAll [] js) := by
  induction js generalizing s with
  | nil => exact .done s
  | cons j rest ih =>
    obtain ⟨pos, job⟩ := j
    obtain ⟨hjob, hrest⟩ := List.cons_subset.1 hjs
    have horderly := h.perform (known_of_mem_jobs hjob h.fair.root)
    have hgo' := (perform_continueOnError s job).trans hgo
    rw [performAll_cons, performAll_cons, perform_stopping]
    generalize hres : s.perform job = res at horderly hgo'
    obtain ⟨s', stop | v⟩ := res
    · dsimp only at hgo' ⊢
      cases hstop : itemError? pos stop with
      | none => exact .unfinished s'
      | some e =>
        -- The session that goes on notes the error and does the other jobs.
        have hnote : (s'.note (.itemAborted e)).Orderly := horderly.of_path (.single (.noted _))
        have htrace := (trace_noted _ _).trans (hnote.trace_performAll hrest [e])
        dsimp only
        rw [if_pos hgo']
        apply Parts.failed (k := 1) _ htrace
        · intro errors herrors
          exact performAll_errors (Prod.ext rfl herrors)
        · rw [List.take_succ_cons, performAll_cons, hres]
          simp only [hstop, if_pos hgo']
          rfl
    · exact .cons hres (ih horderly hgo' hrest)

theorem stopping_accepted (h : (s.prepare items).2 = none) :
    (s.stopping.prepare items).2 = none :=
  (prepare_snd_congr s s.stopping rfl items).trans h

theorem Orderly.readied_parts (h : s.Orderly) (hgo : s.continueOnError = true)
    (hjs : js ⊆ jobs items) :
    Parts (s.readied items) js ((s.readied items).performAll [] js)
      ((s.stopping.readied items).performAll [] js) := by
  rw [readied_stopping]
  exact (h.readied items).parts ((readied_continueOnError s items).trans hgo) hjs

/-- The first error that is recorded is the one to stop at. -/
theorem Orderly.stopping_of_recorded (h : s.Orderly) (hgo : s.continueOnError = true)
    (haccepted : (s.prepare items).2 = none) {k : Nat} {t : Session} {e : RuntimeError}
    {errors : List RuntimeError} (hk : s.progress items k = (t, .ok (e :: errors))) :
    ∃ t', s.stopping.run items = (t', .error (.error e)) ∧
      t'.machine.output.toList <+: t.machine.output.toList := by
  have hparts := h.readied_parts hgo (List.take_subset k (jobs items))
  rw [← progress_of_accepted haccepted, hk] at hparts
  generalize hstopped : (s.stopping.readied items).performAll [] ((jobs items).take k) = stopped
    at hparts
  cases hparts with
  | @failed t' _ e' _ _ _ htrace hres =>
    obtain ⟨rfl, -⟩ := List.cons_prefix_cons.1 (hres _ rfl)
    -- The jobs after the first `k` are not done.
    have hall := performAll_halted hstopped ((jobs items).drop k)
    refine ⟨t'.stopping, run_of_progress_halted ?_, trace_output_prefix htrace⟩
    rwa [progress_of_accepted (stopping_accepted haccepted), List.take_length,
      ← List.take_append_drop k (jobs items)]

/-- The error that ends a session is recorded if it goes on. -/
theorem Orderly.recorded_of_stopping (h : s.Orderly) (hgo : s.continueOnError = true)
    (haccepted : (s.prepare items).2 = none) {e : RuntimeError}
    (he : (s.stopping.run items).2 = .error (.error e)) :
    ∃ k t, s.progress items k = (t, .ok [e]) := by
  have hparts := h.readied_parts hgo (List.Subset.refl (jobs items))
  rw [run_eq_progress, progress_of_accepted (stopping_accepted haccepted), List.take_length] at he
  generalize (s.readied items).performAll [] (jobs items) = going at hparts
  generalize (s.stopping.readied items).performAll [] (jobs items) = stopped at hparts he
  cases hparts with
  | done t => cases he
  | unfinished t => cases he
  | failed hfirst _ _ =>
    cases he
    exact ⟨_, _, (progress_of_accepted haccepted _).trans hfirst⟩

/-- Without an error it makes no difference whether a session stops at errors. -/
theorem Orderly.stopping_ok_iff (h : s.Orderly) (hgo : s.continueOnError = true)
    (haccepted : (s.prepare items).2 = none) {result : RunResult} :
    (s.stopping.run items).2 = .ok result ↔
      (s.run items).2 = .ok result ∧ result.errors = [] := by
  have hparts := h.readied_parts hgo (List.Subset.refl (jobs items))
  rw [run_eq_progress, run_eq_progress, progress_of_accepted haccepted,
    progress_of_accepted (stopping_accepted haccepted), List.take_length]
  generalize (s.readied items).performAll [] (jobs items) = going at hparts
  generalize (s.stopping.readied items).performAll [] (jobs items) = stopped at hparts
  cases hparts with
  | done t =>
    constructor
    · intro hresult
      cases hresult
      exact ⟨rfl, rfl⟩
    · intro hresult
      exact hresult.1
  | unfinished t => exact ⟨nofun, nofun⟩
  | @failed t t' e res k _ _ hres =>
    constructor
    · intro hresult
      cases hresult
    · rintro ⟨hresult, hnil⟩
      cases res with
      | error halt => cases hresult
      | ok errors =>
        cases hresult
        obtain rfl : errors = [] := hnil
        cases List.prefix_nil.1 (hres [] rfl)

/-- A script is run by a session that goes on at errors and by one that stops. Both refuse its
declarations alike. If they are accepted, the session that stops ends with an error just if the
other records one, be it in the call of `main`; then it ends with the first that is recorded, and
has printed the beginning of what the other prints. It gives a result just if the other gives the
same without errors. -/
theorem stopping_at_errors (strictMoves : Bool) (limits : Limits) (items : List Stmt) :
    let go := start strictMoves true limits
    let stop := start strictMoves false limits
    (stop.prepare items).2 = (go.prepare items).2 ∧
    (∀ e, (go.prepare items).2 = some e →
      (go.run items).2 = .error (.error e) ∧ (stop.run items).2 = .error (.error e)) ∧
    ((go.prepare items).2 = none →
      (∀ e, (stop.run items).2 = .error (.error e) ↔
        ∃ k t errors, go.progress items k = (t, .ok (e :: errors))) ∧
      (∀ k t e errors, go.progress items k = (t, .ok (e :: errors)) →
        (stop.run items).1.machine.output.toList <+: t.machine.output.toList) ∧
      (∀ result e errors, (go.run items).2 = .ok result → result.errors = e :: errors →
        (stop.run items).2 = .error (.error e) ∧
          (stop.run items).1.machine.output.toList <+: result.output.toList) ∧
      ∀ result, (stop.run items).2 = .ok result ↔
        (go.run items).2 = .ok result ∧ result.errors = []) := by
  intro go stop
  have hprepare : (stop.prepare items).2 = (go.prepare items).2 :=
    prepare_snd_congr go stop rfl items
  refine ⟨hprepare, ?_, ?_⟩
  · intro e he
    exact ⟨run_of_refused he, run_of_refused (hprepare.trans he)⟩
  · intro haccepted
    have h : go.Orderly := orderly_start strictMoves true limits
    have hrecorded : ∀ k t e errors, go.progress items k = (t, .ok (e :: errors)) →
        (stop.run items).2 = .error (.error e) ∧
          (stop.run items).1.machine.output.toList <+: t.machine.output.toList := by
      intro k t e errors hk
      obtain ⟨t', ht', houtput⟩ := h.stopping_of_recorded rfl haccepted hk
      exact ⟨congrArg Prod.snd ht', (congrArg Prod.fst ht').symm ▸ houtput⟩
    refine ⟨?_, ?_, ?_, ?_⟩
    · intro e
      constructor
      · intro he
        obtain ⟨k, t, hk⟩ := h.recorded_of_stopping rfl haccepted he
        exact ⟨k, t, [], hk⟩
      · rintro ⟨k, t, errors, hk⟩
        exact (hrecorded k t e errors hk).1
    · intro k t e errors hk
      exact (hrecorded k t e errors hk).2
    · intro result e errors hresult herrors
      obtain ⟨t, ht, houtput⟩ := progress_of_run_ok hresult
      rw [← houtput]
      exact hrecorded _ t e errors (herrors ▸ ht)
    · intro result
      exact h.stopping_ok_iff rfl haccepted

/-- `println!("a"); x; println!("b");` prints both lines if the session goes on at `x`, and the
first of them if it stops there. -/
theorem stopping_at_errors_unknown_name :
    let line (text : String) : Stmt :=
      .expr .start (.macroCall .start "println" [.text .start text]) true
    let items : List Stmt := [line "a", .expr .start (.name .start "x") true, line "b"]
    let go := start false true ⟨40, 1⟩
    let stop := start false false ⟨40, 1⟩
    let e : RuntimeError := ⟨.unknownName "x", some .start⟩
    (go.prepare items).2 = none ∧
      (∃ result, (go.run items).2 = .ok result ∧ result.errors = [e] ∧
        result.output = "a\nb\n" ∧
        (stop.run items).1.machine.output.toList <+: result.output.toList) ∧
      (stop.run items).2 = .error (.error e) ∧ (stop.run items).1.machine.output = "a\n" := by
  intro line items go stop e
  have haccepted : (go.prepare items).2 = none := rfl
  have hresult : ((go.run items).2.toOption.map fun result => (result.errors, result.output)) =
      some ([e], "a\nb\n") := by
    decide +kernel
  generalize hrun : (go.run items).2 = res at hresult
  cases res with
  | error halt => cases hresult
  | ok result =>
    obtain ⟨herrors, houtput⟩ := Prod.mk.inj (Option.some.inj hresult)
    obtain ⟨-, -, haccept⟩ := stopping_at_errors false ⟨40, 1⟩ items
    obtain ⟨hstop, hprefix⟩ := (haccept haccepted).2.2.1 result e [] hrun herrors
    exact ⟨haccepted, ⟨result, rfl, herrors, houtput, hprefix⟩, hstop, by decide +kernel⟩

end Session

end Rustlet
