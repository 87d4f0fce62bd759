import Rustlet.Program
import Rustlet.Template

/-! What can go wrong while a script runs, and how it is told. -/
namespace Rustlet

/-- The cause of a runtime error. Names of types are as they are shown to the user. -/
inductive Fault
  | unknownName (name : String)
  | movedValue (name : String)
  | unknownStruct (name : String)
  | unknownMethod (type method : String)
  | unknownField (type field : String)
  | repeatedField (field : String)
  | unknownMacro (name : String)
  | duplicateStruct (name : String)
  | duplicateMethod (type method : String)
  | orphanImpl (type : String)
  | frozenRegistry
  | selfOutsideImpl
  | returnOutsideFn
  | tooDeep
  | wrongArity (label : String) (expected got : Nat)
  | notInstance (type : String)
  | notCallable (type : String)
  | ifNotBool (type : String)
  | whileNotBool (type : String)
  | logicNotBool (op : LogicOp) (type : String)
  | badUnary (op : UnaryOp) (type : String)
  | badArith (op : ArithOp) (left right : String)
  | incomparable (left right : String)
  | noReceiver (type method : String)
  | missingReceiver (type method : String)
  | wrongReceiver (type method : String)
  | noTemplate (name : String)
  | badTemplate (fault : Template.Fault)
  | panicked (message : String)
deriving DecidableEq

/-- The wording of a cause. -/
def Fault.message : Fault → String
  | unknownName name => s!"unknown identifier '{name}'"
  | movedValue name => s!"use of moved value '{name}'"
  | unknownStruct name => s!"unknown struct '{name}'"
  | unknownMethod type method => s!"unknown method '{type}::{method}'"
  | unknownField type field => s!"unknown field '{field}' on '{type}'"
  | repeatedField field => s!"field '{field}' specified more than once"
  | unknownMacro name => s!"unknown macro '{name}!'"
  | duplicateStruct name => s!"duplicate struct '{name}'"
  | duplicateMethod type method => s!"duplicate method '{type}::{method}'"
  | orphanImpl type => s!"impl for unknown struct '{type}'"
  | frozenRegistry => "type registry is frozen"
  | selfOutsideImpl => "'Self' used outside of an impl"
  | returnOutsideFn => "return outside of function"
  | tooDeep => "recursion limit exceeded"
  | wrongArity label expected got => s!"'{label}' expects {expected} argument(s), got {got}"
  | notInstance type => s!"expected a struct instance, got {type}"
  | notCallable type => s!"call target is not a function ({type})"
  | ifNotBool type => s!"if condition must be bool, got {type}"
  | whileNotBool type => s!"while condition must be bool, got {type}"
  | logicNotBool op type => "'" ++ op.text ++ "' needs bool operands, got " ++ type
  | badUnary op type => "cannot apply unary '" ++ op.text ++ "' to " ++ type
  | badArith op left right => "cannot apply '" ++ op.text ++ s!"' to {left} and {right}"
  | incomparable left right => s!"cannot compare {left} with {right}"
  | noReceiver type method =>
    s!"'{type}::{method}' has no receiver; call it as {type}::{method}(...)"
  | missingReceiver type method => s!"'{type}::{method}' expects a receiver argument"
  | wrongReceiver type method => s!"receiver of '{type}::{method}' must be a {type}"
  | noTemplate name => s!"'{name}!' needs a string literal format argument"
  | badTemplate fault => fault.message
  | panicked message => s!"panicked: {message}"

/-- A cause and the place it is blamed on. -/
structure RuntimeError where
  fault : Fault
  pos : Option Pos
deriving DecidableEq

/-- A message with its place, if it has one. -/
def placed (message : String) : Option Pos → String
  | some pos => message ++ " at " ++ pos.text
  | none => message

/-- The error as it is told. -/
def RuntimeError.text (e : RuntimeError) : String := placed e.fault.message e.pos

end Rustlet
