import Rustlet.Proofs.Mirror.Run

/-! Recastings that leave places alone. -/
namespace Rustlet

/-- The type with the name of the struct in place of `Self`, if `Self` names a struct. -/
def TypePath.spelledOut (owner : Option String) (type : TypePath) : TypePath :=
  ((type.struct? owner).map named).getD type

theorem TypePath.struct?_spelledOut (owner : Option String) (type : TypePath) :
    (type.spelledOut owner).struct? owner = type.struct? owner := by
  cases type with
  | named name => rfl
  | selfType =>
    cases owner with
    | none => rfl
    | some name => rfl

namespace Recasting

/-- Writes the name of a struct in place of `Self` in its methods. A function inside a method is in
no method, so its `Self` stays. -/
def selfNamed : Recasting :=
  { Relabelling.placing id with
    path := TypePath.spelledOut
    content_eq := fun _ => rfl
    struct?_path := TypePath.struct?_spelledOut }

/-- The function inside the method keeps its `Self`, and the methods inside that function are those
of another struct. -/
example (p : Pos) :
    let literal (type : TypePath) : Stmt := .expr p (.structLit p type []) false
    let fn (name : String) (body : List Stmt) : FnDecl := ⟨p, name, none, [], .unit, body⟩
    let script (inA inF inB : TypePath) : Stmt :=
      .implBlock ⟨p, "A", [fn "a" [literal inA,
        .fnDecl (fn "f" [literal inF, .implBlock ⟨p, "B", [fn "b" [literal inB]]⟩])]]⟩
    selfNamed.stmt none (script .selfType .selfType .selfType) =
      script (.named "A") .selfType (.named "B") := rfl

section Places

variable {ρ : Recasting} (h : ∀ p, ρ.place p = p)

include h

theorem error_eq_self (e : RuntimeError) : ρ.error e = e := by
  obtain ⟨fault, _ | p⟩ := e
  · rfl
  · simp only [error, Option.map_some, h]

/-- Where places stay, the outcome of a run stays. -/
theorem outcome_eq_self (res : Except Halt RunResult) : ρ.outcome res = res := by
  rcases res with (e | _) | ⟨output, errors⟩
  · simp only [outcome, halt, error_eq_self h]
  · rfl
  · have herrors : errors.map ρ.error = errors := by
      rw [funext (error_eq_self h), List.map_id']
    simp only [outcome, herrors]

end Places

end Recasting

namespace Session

/-- A script with the name of the struct in place of every `Self` in its methods gives the same
output and the same errors, or fails with the same error. -/
theorem run_selfNamed (strictMoves continueOnError : Bool) (limits : Limits) (items : List Stmt) :
    ((start strictMoves continueOnError limits).run (items.map (Recasting.selfNamed.stmt none))).2 =
      ((start strictMoves continueOnError limits).run items).2 := by
  have hplace : ∀ p, Recasting.selfNamed.place p = p := fun _ => rfl
  have hrun := run_recast .selfNamed (s := start strictMoves continueOnError limits) rfl items
  rw [Recasting.session_start] at hrun
  rw [hrun, Recasting.outcome_eq_self hplace]

/-- In `impl A { fn on() -> A { Self { on: true } } fn get() -> A { Self::on() } }` both ways to use
`Self` are found to mean `A` when `println!("{}", A::get())` runs. -/
example :
    let script (type : TypePath) : List Stmt :=
      let value : Expr := .structLit .start type [⟨.start, "on", .bool .start true⟩]
      let method (name : String) (e : Expr) : FnDecl :=
        ⟨.start, name, none, [], .path (.named "A"), [.expr .start e false]⟩
      [.structDecl ⟨.start, "A", [⟨.start, "on", .path (.named "bool")⟩]⟩,
        .implBlock ⟨.start, "A", [method "on" value, method "get" (.pathCall .start type "on" [])]⟩,
        .expr .start (.macroCall .start "println"
          [.text .start "\x7b\x7d", .pathCall .start (.named "A") "get" []]) true]
    (script .selfType).map (Recasting.selfNamed.stmt none) = script (.named "A") ∧
      ((start false true ⟨40, 1⟩).run (script .selfType)).2.toOption.map
          (fun r => (r.output, r.errors)) = some ("A \x7b on: true \x7d\n", []) :=
  ⟨rfl, by decide +kernel⟩

end Session

end Rustlet
