import Rustlet.Proofs.Mirror.Run
import Rustlet.Proofs.RoundTrip

/-! Where its tokens stand shows in a run of a script only as the places of its errors. -/
namespace Rustlet

open Grammar

/-- Two results of running scripts that differ in places only. -/
inductive SameOutcome : Except ScriptError RunResult → Except ScriptError RunResult → Prop
  | refused (expected : Expectation) (found : String) (p p' : Pos) :
    SameOutcome (.error (.source (.grammar (.unexpected expected found p))))
      (.error (.source (.grammar (.unexpected expected found p'))))
  | failed (fault : Fault) (p p' : Option Pos) :
    SameOutcome (.error (.halt (.error ⟨fault, p⟩))) (.error (.halt (.error ⟨fault, p'⟩)))
  | unfinished : SameOutcome (.error (.halt .unfinished)) (.error (.halt .unfinished))
  | done (output : String) {errors errors' : List RuntimeError}
    (h : errors'.map (·.fault) = errors.map (·.fault)) :
    SameOutcome (.ok ⟨output, errors⟩) (.ok ⟨output, errors'⟩)

/-- Two scripts with the same lexemes side by side. -/
def parallelLayouts {tokens tokens' : List Token}
    (h : tokens'.map (·.lexeme) = tokens.map (·.lexeme)) (stop stop' : Pos) : Parallel where
  place := fun _ => .start
  place' := fun _ => .start
  content := id
  left := ⟨tokens, stop⟩
  right := ⟨tokens', stop'⟩
  room := 0
  tokens := by
    have hmap := congrArg (List.map fun l => (⟨l, .start⟩ : Token)) h
    simpa [Function.comp_def] using hmap
  stop := rfl
  ahead k := Cursor.ahead_eq fun i => by
    simpa [Cursor.skip, Cursor.lexeme?] using congrArg (·[k + i]?) h

/-- Two results of reading scripts that differ in places only. -/
inductive SameReading : Except SyntaxError Program → Except SyntaxError Program → Prop
  | refused (expected : Expectation) (found : String) (p p' : Pos) :
    SameReading (.error (.grammar (.unexpected expected found p)))
      (.error (.grammar (.unexpected expected found p')))
  | read {items items' : List Stmt} (strictMoves : Bool)
    (h : items'.map (Relabelling.unplaced.stmt none) = items.map (Relabelling.unplaced.stmt none)) :
    SameReading (.ok ⟨items, strictMoves⟩) (.ok ⟨items', strictMoves⟩)

section Texts

variable {source source' : String} (hscan : (Scan.ofSource source).error? = none)
  (hscan' : (Scan.ofSource source').error? = none)
  (htokens : (Scan.ofSource source').tokens.map (·.lexeme) =
    (Scan.ofSource source).tokens.map (·.lexeme))
  (hpragma : Pragma.strictMoves source' = Pragma.strictMoves source)

theorem Program.ofSource_of_scan (hscan : (Scan.ofSource source).error? = none) (limits : Limits) :
    Program.ofSource source limits =
      match parse limits.depth .program
          ⟨(Scan.ofSource source).tokens, (Scan.ofSource source).stop⟩ with
      | .error e => .error (.grammar e)
      | .ok (items, _) => .ok ⟨items, Pragma.strictMoves source⟩ := by
  have hstart : Cursor.ofSource source =
      .ok ⟨(Scan.ofSource source).tokens, (Scan.ofSource source).stop⟩ := by
    simp only [Cursor.ofSource, hscan]
  unfold Program.ofSource Goal.ofSource
  rw [hstart]
  simp only [Bind.bind, Except.bind, StateT.run]
  cases parse limits.depth .program
      ⟨(Scan.ofSource source).tokens, (Scan.ofSource source).stop⟩ with
  | error e => rfl
  | ok r => rfl

include hscan hscan' htokens hpragma

theorem sameReading_layout (limits : Limits) :
    SameReading (Program.ofSource source limits) (Program.ofSource source' limits) := by
  rw [Program.ofSource_of_scan hscan, Program.ofSource_of_scan hscan', hpragma]
  generalize Scan.ofSource source = scan at htokens ⊢
  generalize Scan.ofSource source' = scan' at htokens ⊢
  have htogether : Parallel.Matches _ _ (parse limits.depth .program ⟨scan.tokens, scan.stop⟩)
      (parse limits.depth .program ⟨scan'.tokens, scan'.stop⟩) :=
    (Parallel.together_parse (parallelLayouts htokens scan.stop scan'.stop) limits.depth
      .program).run _ _ (.mk 0)
  generalize parse limits.depth .program ⟨scan.tokens, scan.stop⟩ = r at htogether ⊢
  generalize parse limits.depth .program ⟨scan'.tokens, scan'.stop⟩ = r' at htogether ⊢
  cases htogether with
  | ok hitems _ => exact .read _ (hitems none)
  | error he =>
    cases he with
    | same expected found _ => exact .refused expected found _ _
    | text expected _ _ hs _ =>
      obtain rfl := hs
      exact .refused expected _ _ _
  | deep hroom _ => exact absurd hroom (Nat.lt_irrefl 0)

end Texts

theorem Recasting.fault_errors {ρ : Recasting} {es es' : List RuntimeError}
    (h : es'.map ρ.error = es.map ρ.error) : es'.map (·.fault) = es.map (·.fault) := by
  simpa [Recasting.error, Function.comp_def] using congrArg (List.map RuntimeError.fault) h

/-- Two runs with the same recasting end alike. -/
theorem SameOutcome.of_outcome {ρ : Recasting} {a a' : Except Halt RunResult}
    (h : ρ.outcome a' = ρ.outcome a) :
    SameOutcome (a.mapError .halt) (a'.mapError .halt) := by
  rcases a with (⟨fault, p⟩ | _) | ⟨output, errors⟩ <;>
    rcases a' with (⟨fault', p'⟩ | _) | ⟨output', errors'⟩ <;>
    simp only [Recasting.outcome, Recasting.halt, reduceCtorEq, Except.error.injEq, Except.ok.injEq,
      Halt.error.injEq, RunResult.mk.injEq] at h
  · obtain rfl : fault' = fault := congrArg RuntimeError.fault h
    exact .failed fault' p p'
  · exact .unfinished
  · obtain ⟨rfl, herrors⟩ := h
    exact .done output' (Recasting.fault_errors herrors)

/-- Two texts that have the same tokens but for places, and the same pragma, give the same result
but for places. -/
theorem runScript_layout (source source' : String)
    (hscan : (Scan.ofSource source).error? = none) (hscan' : (Scan.ofSource source').error? = none)
    (htokens : (Scan.ofSource source').tokens.map (·.lexeme) =
      (Scan.ofSource source).tokens.map (·.lexeme))
    (hpragma : Pragma.strictMoves source' = Pragma.strictMoves source) (options : RunOptions)
    (limits : Limits) :
    SameOutcome (runScript source options limits).2 (runScript source' options limits).2 := by
  have hreading := sameReading_layout hscan hscan' htokens hpragma limits
  rw [runScript_eq, runScript_eq]
  generalize Program.ofSource source limits = r at hreading
  generalize Program.ofSource source' limits = r' at hreading
  cases hreading with
  | refused expected found p p' => exact .refused expected found p p'
  | @read items items' strictMoves hitems =>
    let start := Session.start (options.strictMoves.getD strictMoves) options.continueOnError limits
    have hitems : items'.map (Recasting.unplaced.stmt none) =
        items.map (Recasting.unplaced.stmt none) := hitems
    have hrun := Session.run_recast .unplaced (s := start) rfl items
    have hrun' := Session.run_recast .unplaced (s := start) rfl items'
    rw [hitems, hrun] at hrun'
    exact .of_outcome (congrArg Prod.snd hrun').symm

/-- A script on one line, and on several with a comment. Its second item fails, and the others are
run. -/
theorem runScript_layout_lines :
    let source := "fn f() \x7b a.b \x7d f(); print!(\"c\");"
    let source' := "fn f() \x7b\n  a.b\n\x7d\n\nf(); // fails\nprint!(\"c\");\n"
    (Scan.ofSource source).error? = none ∧ (Scan.ofSource source').error? = none ∧
      (Scan.ofSource source').tokens.map (·.lexeme) =
        (Scan.ofSource source).tokens.map (·.lexeme) ∧
      Pragma.strictMoves source' = Pragma.strictMoves source ∧
      (runScript source ⟨none, true⟩ ⟨60, 9⟩).2.toOption.map (fun r => (r.output, r.errors)) =
        some ("c", [⟨.unknownName "a", some ⟨1, 10⟩⟩]) ∧
      SameOutcome (runScript source ⟨none, true⟩ ⟨60, 9⟩).2
        (runScript source' ⟨none, true⟩ ⟨60, 9⟩).2 := by
  intro source source'
  have hscan : (Scan.ofSource source).error? = none := by decide +kernel
  have hscan' : (Scan.ofSource source').error? = none := by decide +kernel
  have htokens : (Scan.ofSource source').tokens.map (·.lexeme) =
      (Scan.ofSource source).tokens.map (·.lexeme) := by decide +kernel
  have hpragma : Pragma.strictMoves source' = Pragma.strictMoves source := by decide +kernel
  have hresult : (runScript source ⟨none, true⟩ ⟨60, 9⟩).2.toOption.map
      (fun r => (r.output, r.errors)) = some ("c", [⟨.unknownName "a", some ⟨1, 10⟩⟩]) := by
    decide +kernel
  exact ⟨hscan, hscan', htokens, hpragma, hresult,
    runScript_layout source source' hscan hscan' htokens hpragma ⟨none, true⟩ ⟨60, 9⟩⟩

/-- A script that is nested too deeply is refused at the same token in another layout. -/
example :
    let refused (source : String) : Option ParseError :=
      match (runScript source ⟨none, true⟩ ⟨19, 1⟩).2 with
      | .error (.source (.grammar e)) => some e
      | _ => none
    refused "!!!!a" = some (.unexpected .shallowerNesting "!" ⟨1, 4⟩) ∧
      refused "!! // not\n!!a" = some (.unexpected .shallowerNesting "!" ⟨2, 2⟩) := by
  decide +kernel

end Rustlet
