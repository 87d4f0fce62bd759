import Rustlet.Proofs.Wording

/-! Types that are read and then forgotten. -/
namespace Rustlet

namespace Recasting

/-- Drops the annotations of names, and writes one type for all parameters, one form for all
receivers and one return type for all functions. The types of fields stay, and so does the return
type of an associated function, which decides whether a fresh instance is made. -/
def untyped : Recasting :=
  { placing id with
    annotation := fun _ => none
    paramType := fun _ => .unit
    receiver := fun _ => .value
    ret := fun _ => .unit }

section Places

variable {ρ : Recasting} (h : ∀ p, ρ.place p = p)

include h

theorem logEntry_eq_self (entry : LogEntry) : ρ.logEntry entry = entry := by
  cases entry with
  | itemAborted e => rw [logEntry, error_eq_self h]
  | _ => rfl

theorem log_machine_eq_self (m : Machine) : (ρ.machine m).log = m.log := by
  have hid : ρ.logEntry = id := funext (logEntry_eq_self h)
  change m.log.map ρ.logEntry = m.log
  rw [hid, Array.map_id]

end Places

end Recasting

/-- Two scripts that are the same but for types which a running script does not look at. Each of
these may differ on its own, wherever it stands. -/
def SameButTypes (items items' : List Stmt) : Prop :=
  items'.map (Recasting.untyped.stmt none) = items.map (Recasting.untyped.stmt none)

namespace Session

variable (strictMoves continueOnError : Bool) (limits : Limits)

/-- A script without types gives the same result, output and notes. -/
theorem run_untyped (items : List Stmt) :
    let s := start strictMoves continueOnError limits
    let bare := s.run (items.map (Recasting.untyped.stmt none))
    bare.2 = (s.run items).2 ∧ bare.1.machine.output = (s.run items).1.machine.output ∧
      bare.1.machine.log = (s.run items).1.machine.log := by
  intro s bare
  have hplace : ∀ p, Recasting.untyped.place p = p := fun _ => rfl
  have hrun : bare = (Recasting.untyped.session (s.run items).1,
      Recasting.untyped.outcome (s.run items).2) := by
    have hrecast := run_recast .untyped (s := s) rfl items
    rwa [Recasting.session_start] at hrecast
  rw [hrun]
  exact ⟨Recasting.outcome_eq_self hplace _, rfl, Recasting.log_machine_eq_self hplace _⟩

/-- Two scripts that differ only in types which a running script does not look at give the same
output and the same errors at the same places, or fail with the same error after the same output.
The same is noted, too. -/
theorem run_sameButTypes {items items' : List Stmt} (h : SameButTypes items items') :
    let s := start strictMoves continueOnError limits
    (s.run items').2 = (s.run items).2 ∧
      (s.run items').1.machine.output = (s.run items).1.machine.output ∧
      (s.run items').1.machine.log = (s.run items).1.machine.log := by
  intro s
  obtain ⟨hresult, houtput, hlog⟩ := run_untyped strictMoves continueOnError limits items
  obtain ⟨hresult', houtput', hlog'⟩ := run_untyped strictMoves continueOnError limits items'
  rw [h] at hresult' houtput' hlog'
  exact ⟨hresult'.symm.trans hresult, houtput'.symm.trans houtput, hlog'.symm.trans hlog⟩

/-- The types of a parameter, of a name, of a method and of a function change, each in its own way,
and so does the form of a receiver. Both scripts fail in the same place after the same output. -/
theorem run_sameButTypes_method :
    let p : Pos := .start
    let script (receiver : Receiver) (param methodRet fnRet : TypeExpr)
        (letType : Option TypeExpr) : List Stmt :=
      [.structDecl ⟨p, "A", [⟨p, "n", .path (.named "f64")⟩]⟩,
        .implBlock ⟨p, "A",
          [⟨p, "new", none, [⟨p, "n", param⟩], .path .selfType,
            [.assign p (.field p (.name p "self") "n") (.name p "n")]⟩,
          ⟨p, "get", some receiver, [], methodRet,
            [.expr p (.field p (.name p "self") "n") false]⟩]⟩,
        .fnDecl ⟨p, "show", none, [⟨p, "x", .unit⟩], fnRet,
          [.letIn p "y" letType (.name p "x"),
          .expr p (.macroCall p "print" [.text p "", .name p "y"]) false]⟩,
        .expr p (.call p (.name p "show") [.methodCall p
          (.pathCall p (.named "A") "new" [.bool p true]) "get" []]) true,
        .expr p (.call p (.name p "show") []) true]
    let typed := script .exclusive (.path (.named "f64")) (.ref true .unit) .unit none
    let retyped := script .shared .unit (.path .selfType) (.path (.named "A")) (some .unit)
    let s := start true true ⟨40, 1⟩
    SameButTypes typed retyped ∧
      (s.run typed).2.toOption.map (fun r => (r.output, r.errors)) =
        some ("true", [⟨.wrongArity "show" 1 0, some p⟩]) ∧
      (s.run retyped).2 = (s.run typed).2 := by
  intro p script typed retyped s
  have h : SameButTypes typed retyped := rfl
  exact ⟨h, by decide +kernel, (run_sameButTypes true true ⟨40, 1⟩ h).1⟩

/-- The return type of an associated function does matter: it decides what the function gives if its
body gives no value. -/
example :
    let p : Pos := .start
    let script (ret : TypeExpr) : List Stmt :=
      [.structDecl ⟨p, "A", []⟩, .implBlock ⟨p, "A", [⟨p, "f", none, [], ret, []⟩]⟩,
        .expr p (.macroCall p "print" [.text p "", .pathCall p (.named "A") "f" []]) true]
    let output (ret : TypeExpr) : Option String :=
      ((start false true ⟨40, 1⟩).run (script ret)).2.toOption.map (·.output)
    output (.path (.named "A")) = some "A" ∧ output (.path (.named "B")) = some "" := by
  decide +kernel

/-- The type of a field does matter: it decides what the field starts with. -/
example :
    let p : Pos := .start
    let script (type : String) : List Stmt :=
      [.structDecl ⟨p, "A", [⟨p, "n", .path (.named type)⟩]⟩,
        .expr p (.macroCall p "print" [.text p "", .structLit p (.named "A") []]) true]
    let output (type : String) : Option String :=
      ((start false true ⟨40, 1⟩).run (script type)).2.toOption.map (·.output)
    output "bool" = some "A \x7b n: false \x7d" ∧ output "str" = some "A \x7b n: \"\" \x7d" := by
  decide +kernel

end Session

end Rustlet
