import Rustlet.Evaluation.Job

/-! The rules of the calls that print, format and panic. -/
namespace Rustlet.Evaluation

open Eval

/-- What is called with an exclamation mark. -/
inductive Builtin
  | println
  | print
  | format
  | panic

/-- The builtin with a name. -/
def Builtin.ofName? : String → Option Builtin
  | "println" => some .println
  | "print" => some .print
  | "format" => some .format
  | "panic" => some .panic
  | _ => none

/-- The text of a value in a style. -/
def styled (s : Setting) (frames : Nat) (style : Template.Style) (v : Value) : Eval String := do
  ofDepth ((← get).heap.styled? s.fieldOrder frames style v)

/-- The texts of values, with a space between any two. -/
def joined (s : Setting) (frames : Nat) (style : Template.Style) (vs : List Value) :
    Eval String := do
  let texts ← vs.mapM (styled s frames style)
  pure (" ".intercalate texts)

/-- The text of a part of a template. -/
def partText (s : Setting) (frames : Nat) : Template.Part Value → Eval String
  | .char c => pure c.toString
  | .value style v => styled s frames style v

/-- A template filled with values. -/
def expand (s : Setting) (frames : Nat) (template : String) (vs : List Value) (pos : Pos) :
    Eval String := do
  let (parts, wrong) := Template.parts template vs
  let texts ← parts.mapM (partText s frames)
  match wrong with
  | none => pure (String.join texts)
  | some f => fault (.badTemplate f) pos

/-- The message of a panic: a filled template, or any values at all. -/
def panicMessage (s : Setting) (frames : Nat) (run : Runner) (pos : Pos) (args : List Expr)
    (scope : ScopeId) : Eval String := do
  match args with
  | [] => pure "explicit panic"
  | .text _ template :: rest =>
    let vs ← run (.args rest scope)
    expand s frames template vs pos
  | args =>
    let vs ← run (.args args scope)
    joined s frames .display vs

/-- The template that arguments start with; without arguments it is empty. -/
def template (pos : Pos) (name : String) : List Expr → Eval String
  | [] => pure ""
  | .text _ content :: _ => pure content
  | _ => fault (.noTemplate name) pos

/-- What is printed: the values in full if there are any, and otherwise the template. -/
def printed (s : Setting) (frames : Nat) (template : String) : List Value → Eval String
  | [] => pure (Template.plain template)
  | vs => joined s frames .debug vs

/-- Calls a builtin. Texts may be nested as deep as there are frames left. -/
def macroRule (s : Setting) (frames : Nat) (run : Runner) (pos : Pos) (name : String)
    (args : List Expr) (scope : ScopeId) : Eval Value := do
  match Builtin.ofName? name with
  | none => fault (.unknownMacro name) pos
  | some .panic =>
    let message ← panicMessage s frames run pos args scope
    fault (.panicked message) pos
  | some .format =>
    let t ← template pos name args
    let vs ← run (.args args.tail scope)
    let text ← expand s frames t vs pos
    pure (.text text)
  | some .print =>
    let t ← template pos name args
    let vs ← run (.args args.tail scope)
    let text ← printed s frames t vs
    Eval.print text
    pure .unit
  | some .println =>
    let t ← template pos name args
    let vs ← run (.args args.tail scope)
    let text ← printed s frames t vs
    Eval.print (text ++ "\n")
    pure .unit

end Rustlet.Evaluation
