import Rustlet.Proofs.Lockstep.Run
import Rustlet.Proofs.Parallel.Rules
import Rustlet.Proofs.Showing

/-! More room for reading, running and showing changes nothing that stays within the bounds. -/
namespace Rustlet

open Evaluation

namespace Heap

theorem styled?_of_le (heap : Heap) (order : FieldOrder) {depth depth' : Nat} (hle : depth ≤ depth')
    (style : Template.Style) (v : Value) :
    heap.styled? order depth style v = none ∨
      heap.styled? order depth' style v = heap.styled? order depth style v := by
  have hdebug : heap.debug? order depth v = none ∨
      heap.debug? order depth' v = heap.debug? order depth v := by
    cases h : heap.debug? order depth v with
    | none => exact .inl rfl
    | some text => exact .inr (debug?_of_le hle h)
  unfold styled?
  split
  · exact .inr rfl
  · exact hdebug

end Heap

/-- A stop for want of frames or of rounds. -/
def Stop.IsShortage : Stop → Prop
  | .overflow | .unfinished => True
  | .fault _ | .returned _ => False

/-- More rounds and more frames. -/
theorem Evaluation.Setting.similar_roomier (s : Setting) {rounds : Nat}
    (hrounds : s.rounds ≤ rounds) {frames frames' : Nat} (h : frames ≤ frames') :
    s.Similar Stop.IsShortage { s with rounds := rounds } frames frames' where
  registry := .refl _
  rounds := .inr ⟨trivial, hrounds⟩
  name := lockstep_nameRule_of_eq rfl
  styled style v := by
    refine lockstep_styled fun heap => ?_
    rcases heap.styled?_of_le s.fieldOrder h style v with hnone | hsame
    · exact .inl ⟨hnone, trivial⟩
    · exact .inr hsame

namespace Session

variable {limits : Limits}

/-- The same session under other limits. -/
def within (s : Session) (limits : Limits) : Session := { s with limits := limits }

theorem readied_within (s : Session) (limits : Limits) (items : List Stmt) :
    (s.within limits).readied items = (s.readied items).within limits := by
  obtain ⟨r, m, h⟩ := exists_readied s.registry s.machine items
  rw [h s rfl rfl, h (s.within limits) rfl rfl]
  rfl

theorem inStep_within (s : Session) (hstack : s.limits.stack ≤ limits.stack)
    (hrounds : s.limits.rounds ≤ limits.rounds) :
    InStep Stop.IsShortage s (s.within limits) := by
  refine ⟨?_, rfl, .refl _⟩
  intro α job
  have hframes : s.limits.frames ≤ limits.frames := Nat.sub_le_sub_right hstack 12
  exact lockstep_eval_of_le (fun _ => id) trivial (s.setting.similar_roomier hrounds) hframes job

/-- Only an error for want of frames shows a shortage. -/
theorem clear_of_forall_ne {res : Except Halt (List RuntimeError)}
    (hend : res ≠ .error .unfinished) (h : ∀ e ∈ reported res, e.fault ≠ .tooDeep) :
    Clear Stop.IsShortage res := by
  intro stop hstop
  refine ⟨hend, ?_⟩
  intro pos e he hmem
  cases stop with
  | overflow =>
    cases he
    exact h _ hmem rfl
  | unfinished => cases he
  | fault e => exact hstop
  | returned v => exact hstop

/-- A run in which no shortage shows ends alike under greater limits. -/
theorem run_within (s : Session) (hstack : s.limits.stack ≤ limits.stack)
    (hrounds : s.limits.rounds ≤ limits.rounds) (items : List Stmt)
    (hclear : Clear Stop.IsShortage ((s.run items).2.map (·.errors))) :
    ((s.within limits).run items).2 = (s.run items).2 := by
  have hprepare : ((s.within limits).prepare items).2 = (s.prepare items).2 :=
    prepare_snd_congr s (s.within limits) rfl items
  cases hs : (s.prepare items).2 with
  | some e => rw [run_of_refused hs, run_of_refused (hprepare.trans hs)]
  | none =>
    have hlimits := readied_limits s items
    have hstep : InStep Stop.IsShortage (s.readied items) ((s.readied items).within limits) :=
      inStep_within _ (hlimits ▸ hstack) (hlimits ▸ hrounds)
    rw [← readied_within] at hstep
    rw [run_errors_of_accepted hs] at hclear
    obtain ⟨hagree, hend⟩ := hstep.performAll [] (jobs items) hclear
    have houtput := hagree.machine.output
    rw [run_eq_progress, run_eq_progress, progress_of_accepted hs,
      progress_of_accepted (hprepare.trans hs), List.take_length]
    generalize (s.readied items).performAll [] (jobs items) = res at hend houtput
    generalize ((s.within limits).readied items).performAll [] (jobs items) = res' at hend houtput
    obtain ⟨s₁, end₁⟩ := res
    obtain ⟨s₂, end₂⟩ := res'
    obtain rfl : end₂ = end₁ := hend
    cases end₂ with
    | error halt => rfl
    | ok errors =>
      dsimp only at houtput ⊢
      rw [houtput]

end Session

/-- The script is read and run to an end, be it an error, without any error for want of room. -/
def FitsLimits : Except ScriptError RunResult → Prop
  | .ok result => ∀ e ∈ result.errors, e.fault ≠ .tooDeep
  | .error (.source (.lexical _)) => True
  | .error (.source (.grammar e)) => ¬ e.TooDeep
  | .error (.halt (.error e)) => e.fault ≠ .tooDeep
  | .error (.halt .unfinished) => False

theorem FitsLimits.clear {r : Except Halt RunResult} (h : FitsLimits (r.mapError .halt)) :
    Session.Clear Stop.IsShortage (r.map (·.errors)) := by
  apply Session.clear_of_forall_ne
  · intro hend
    rcases r with (e | _) | result
    · cases hend
    · exact h
    · cases hend
  · rcases r with (e | _) | result
    · have he : e.fault ≠ .tooDeep := h
      simpa [Session.reported, Except.map] using he
    · exact h.elim
    · exact h

/-- A script that is read with some room is read alike with more. -/
theorem Program.ofSource_within (source : String) {limits limits' : Limits}
    (h : limits.stack ≤ limits'.stack) :
    (∃ e, Program.ofSource source limits = .error (.grammar e) ∧ e.TooDeep) ∨
      Program.ofSource source limits' = Program.ofSource source limits := by
  have hdepth : limits.depth ≤ limits'.depth := Nat.sub_le_sub_right h 7
  unfold Program.ofSource Grammar.Goal.ofSource
  cases Cursor.ofSource source with
  | error e => exact .inr rfl
  | ok start =>
    rcases Grammar.parse_deeper hdepth .program start with ⟨e, hdeep, he⟩ | hsame
    · refine .inl ⟨e, ?_, he⟩
      simp only [Bind.bind, Except.bind, StateT.run, hdeep]
      rfl
    · refine .inr ?_
      simp only [Bind.bind, Except.bind, StateT.run, hsame]

/-- A script that is read and run within its limits gives the same result, be it an error, under
greater limits. -/
theorem runScript_headroom (source : String) (options : RunOptions) {limits limits' : Limits}
    (hstack : limits.stack ≤ limits'.stack) (hrounds : limits.rounds ≤ limits'.rounds)
    (hfits : FitsLimits (runScript source options limits).2) :
    (runScript source options limits').2 = (runScript source options limits).2 := by
  rw [runScript_eq] at hfits
  rw [runScript_eq, runScript_eq]
  rcases Program.ofSource_within source hstack with ⟨e, hdeep, he⟩ | hsame
  · rw [hdeep] at hfits
    exact absurd he hfits
  · rw [hsame]
    cases hprogram : Program.ofSource source limits with
    | error e => rfl
    | ok program =>
      rw [hprogram] at hfits
      dsimp only at hfits ⊢
      exact congrArg (Except.mapError _) (Session.run_within _ hstack hrounds _ hfits.clear)

/-- `x; print!("", ((true)));` is nested too deeply for 40 frames. It has one error with 60 frames,
and so it has with the frames and rounds of an ordinary run. -/
theorem runScript_headroom_parentheses :
    let source := "x; print!(\"\", ((true)));"
    let options : RunOptions := ⟨none, true⟩
    (runScript source options ⟨40, 1⟩).2.toOption.isNone = true ∧
      FitsLimits (runScript source options ⟨60, 1⟩).2 ∧
      (runScript source options .default).2 = (runScript source options ⟨60, 1⟩).2 ∧
      (runScript source options .default).2.toOption.map (fun r => (r.output, r.errors)) =
        some ("true", [⟨.unknownName "x", some ⟨1, 1⟩⟩]) := by
  intro source options
  have hresult : (runScript source options ⟨60, 1⟩).2.toOption.map
      (fun r => (r.output, r.errors)) = some ("true", [⟨.unknownName "x", some ⟨1, 1⟩⟩]) := by
    decide +kernel
  have hfits : FitsLimits (runScript source options ⟨60, 1⟩).2 := by
    generalize (runScript source options ⟨60, 1⟩).2 = res at hresult
    cases res with
    | error e => cases hresult
    | ok result =>
      obtain ⟨-, herrors⟩ := Prod.mk.inj (Option.some.inj hresult)
      simp [FitsLimits, herrors]
  have hsame : (runScript source options .default).2 = (runScript source options ⟨60, 1⟩).2 :=
    runScript_headroom source options (by decide) (by decide) hfits
  refine ⟨by decide +kernel, hfits, hsame, ?_⟩
  rw [hsame]
  exact hresult

end Rustlet
