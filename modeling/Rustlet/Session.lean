import Rustlet.Declaration
import Rustlet.Evaluation
import Rustlet.Grammar

/-! A run enters the declarations of a script, binds its functions, and then runs its items one
after the other. An item that fails does not keep the next from running unless the session stops at
errors. Last comes the call of `main`, if the script has one without parameters. -/
namespace Rustlet

open Evaluation

/-- What has been declared, bound, printed and noted so far, and how errors and moves are taken. -/
structure Session where
  strictMoves : Bool
  continueOnError : Bool
  limits : Limits
  registry : Registry
  fieldOrder : FieldOrder
  machine : Machine

/-- What a run that reaches its end gives: all output so far, and the errors of the items that
failed. -/
structure RunResult where
  output : String
  errors : List RuntimeError

/-- Why a run does not reach its end: an error, or a loop that takes more rounds than it may. -/
inductive Halt
  | error (e : RuntimeError)
  | unfinished

namespace Session

/-- A session before anything has run. -/
def start (strictMoves continueOnError : Bool) (limits : Limits) : Session :=
  ⟨strictMoves, continueOnError, limits, .empty, .empty, .start⟩

/-- Notes something. -/
def note (s : Session) (entry : LogEntry) : Session :=
  { s with machine := { s.machine with log := s.machine.log.push entry } }

/-- What is noted when a declaration is entered. -/
def entered : Declaration → LogEntry
  | .struct d => .structEntered d.name
  | .method m => .methodEntered m.owner m.decl.name

/-- Enters declarations up to the first that is refused. -/
def declare (s : Session) : List Declaration → Session × Option RuntimeError
  | [] => (s, none)
  | d :: rest =>
    match s.registry.add d with
    | .error e => (s, some e)
    | .ok r => declare ({ s with registry := r }.note (entered d)) rest

/-- Freezes the registry. -/
def freeze (s : Session) : Session × Option RuntimeError :=
  match s.registry.freeze with
  | .error e => (s, some e)
  | .ok r => ({ s with registry := r }, none)

/-- Does a job of the script with everything declared so far. -/
def perform {α : Type} : Session → Job α → Session × Except Stop α
  | ⟨strict, continues, limits, registry, order, machine⟩, job =>
    match eval ⟨strict, registry, order, limits.rounds⟩ limits.frames job machine with
    | .ok a machine => (⟨strict, continues, limits, registry, order, machine⟩, .ok a)
    | .error stop machine => (⟨strict, continues, limits, registry, order, machine⟩, .error stop)

/-- Runs one statement in the outermost scope. -/
def exec (s : Session) (item : Stmt) : Session × Except Stop Value :=
  s.perform (.stmt item ScopeTree.global)

/-- Binds the functions among items in the outermost scope. -/
def hoist (s : Session) (items : List Stmt) : Session :=
  match Evaluation.hoist ScopeTree.global items s.machine with
  | .ok _ m | .error _ m => { s with machine := m }

/-- The error that an item which ends without a value stands for; a loop that does not end stands
for none. -/
def itemError? (pos : Pos) : Stop → Option RuntimeError
  | .fault e => some e
  | .overflow => some ⟨.tooDeep, some pos⟩
  | .returned _ => some ⟨.returnOutsideFn, some pos⟩
  | .unfinished => none

/-- The function that a script starts with: the first of its items that is named `main` and has no
parameters. -/
def main? : List Stmt → Option FnDecl
  | [] => none
  | .fnDecl d :: rest => if d.name = "main" ∧ d.params.isEmpty then some d else main? rest
  | _ :: rest => main? rest

/-- The jobs of a script in order, each with the place it is blamed on. -/
def jobs (items : List Stmt) : List (Pos × Job Value) :=
  items.map (fun item => (item.pos, .stmt item ScopeTree.global)) ++
    ((main? items).map fun d => (d.pos, Job.enter (.free d ScopeTree.global) [] d.pos)).toList

/-- Does jobs one after the other, and collects the errors after `errors`. -/
def performAll (s : Session) (errors : List RuntimeError) : List (Pos × Job Value) →
    Session × Except Halt (List RuntimeError)
  | [] => (s, .ok errors)
  | (pos, job) :: rest =>
    match s.perform job with
    | (s, .ok _) => performAll s errors rest
    | (s, .error stop) =>
      match itemError? pos stop with
      | none => (s, .error .unfinished)
      | some e =>
        if s.continueOnError then performAll (s.note (.itemAborted e)) (errors ++ [e]) rest
        else (s, .error (.error e))

/-- Enters the declarations of items and closes the registry. -/
def prepare (s : Session) (items : List Stmt) : Session × Option RuntimeError :=
  match s.declare (bodyDeclarations items) with
  | (s, some e) => (s, some e)
  | (s, none) => s.freeze

/-- Runs a script. -/
def run (s : Session) (items : List Stmt) : Session × Except Halt RunResult :=
  match s.prepare items with
  | (s, some e) => (s, .error (.error e))
  | (s, none) =>
    let s := { s with fieldOrder := s.registry.fieldOrder }
    match (s.hoist items).performAll [] (jobs items) with
    | (s, .ok errors) => (s, .ok ⟨s.machine.output, errors⟩)
    | (s, .error halt) => (s, .error halt)

/-- The binding of a name in the outermost scope. -/
def global? (s : Session) (name : String) : Option Binding :=
  s.machine.scopes.find? ScopeTree.global name

end Session

/-- How a script is run: strict about moves or as it asks itself, and stopping at errors or not. -/
structure RunOptions where
  strictMoves : Option Bool
  continueOnError : Bool

/-- Why a script gives no result. -/
inductive ScriptError
  | source (e : SyntaxError)
  | halt (h : Halt)

/-- Reads and runs a script in a session of its own. Tells what was noted, too. -/
def runScript (source : String) (options : RunOptions) (limits : Limits) :
    List LogEntry × Except ScriptError RunResult :=
  match Program.ofSource source limits with
  | .error e => ([], .error (.source e))
  | .ok program =>
    let strict := options.strictMoves.getD program.strictMoves
    match (Session.start strict options.continueOnError limits).run program.items with
    | (s, .ok result) => (s.machine.log.toList, .ok result)
    | (s, .error halt) => (s.machine.log.toList, .error (.halt halt))

end Rustlet
