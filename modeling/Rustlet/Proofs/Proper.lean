import Rustlet.Grammar

/-! What is special about the trees that reading gives. -/
namespace Rustlet

/-- Whether a statement is an expression without a semicolon. -/
@[simp] def Stmt.isOpen : Stmt → Bool
  | .expr _ _ terminated => !terminated
  | _ => false

section Proper

variable (word : String → Prop)

/-- A type is named by a word, or it is `Self`. -/
def TypePath.Proper : TypePath → Prop
  | selfType => True
  | named name => word name

def TypeExpr.Proper : TypeExpr → Prop
  | path p => p.Proper word
  | unit => True
  | ref _ target => target.Proper

def Param.Proper (p : Param) : Prop := word p.name ∧ p.type.Proper word

def FieldDecl.Proper (f : FieldDecl) : Prop := word f.name ∧ f.type.Proper word

def StructDecl.Proper (d : StructDecl) : Prop := word d.name ∧ ∀ f ∈ d.fields, f.Proper word

/-- A value is named by a word, or it is `self`. -/
def ProperName (name : String) : Prop := word name ∨ name = selfName

mutual

/-- All names in an expression are words, all its numbers are values of numerals, and its bodies are
proper. -/
def Expr.Proper : Expr → Prop
  | .number _ n => ∃ numeral, n = .ofNumeral numeral
  | .text .. | .bool .. => True
  | .name _ name => ProperName word name
  | .unary _ _ operand => operand.Proper
  | .binary _ left right => left.Proper ∧ right.Proper
  | .logic _ left right => left.Proper ∧ right.Proper
  | .field _ object name => object.Proper ∧ word name
  | .call _ callee args => callee.Proper ∧ exprsProper args
  | .pathCall _ type name args => type.Proper word ∧ word name ∧ exprsProper args
  | .methodCall _ receiver method args => receiver.Proper ∧ word method ∧ exprsProper args
  | .macroCall _ name args => word name ∧ exprsProper args
  | .structLit _ type fields => type.Proper word ∧ initsProper fields
  | .conditional c => c.Proper

def exprsProper : List Expr → Prop
  | [] => True
  | e :: rest => e.Proper ∧ exprsProper rest

def exprProper? : Option Expr → Prop
  | none => True
  | some e => e.Proper

def FieldInit.Proper : FieldInit → Prop
  | ⟨_, name, value⟩ => word name ∧ value.Proper

def initsProper : List FieldInit → Prop
  | [] => True
  | f :: rest => f.Proper ∧ initsProper rest

def Conditional.Proper : Conditional → Prop
  | ⟨_, condition, thenBody, elseBody⟩ =>
    condition.Proper ∧ bodyProper thenBody ∧ bodyProper? elseBody

/-- A target of an assignment is a name or a field. -/
def Place.Proper : Place → Prop
  | .name _ name => ProperName word name
  | .field _ object name => object.Proper ∧ word name

def FnDecl.Proper : FnDecl → Prop
  | ⟨_, name, _, params, ret, body⟩ =>
    word name ∧ (∀ p ∈ params, p.Proper word) ∧ ret.Proper word ∧ bodyProper body

def fnDeclsProper : List FnDecl → Prop
  | [] => True
  | d :: rest => d.Proper ∧ fnDeclsProper rest

def ImplBlock.Proper : ImplBlock → Prop
  | ⟨_, type, methods⟩ => word type ∧ fnDeclsProper methods

def Stmt.Proper : Stmt → Prop
  | .letIn _ name type value => word name ∧ (∀ t ∈ type, t.Proper word) ∧ value.Proper
  | .assign _ target value => target.Proper ∧ value.Proper
  | .expr _ value _ => value.Proper
  | .conditional c => c.Proper
  | .whileLoop _ condition body => condition.Proper ∧ bodyProper body
  | .block _ body => bodyProper body
  | .ret _ value => exprProper? value
  | .structDecl d => d.Proper word
  | .implBlock b => b.Proper
  | .fnDecl d => d.Proper

/-- Proper statements, of which only the last can lack its semicolon. -/
def bodyProper : List Stmt → Prop
  | [] => True
  | s :: rest => s.Proper ∧ (s.isOpen = true → rest = []) ∧ bodyProper rest

def bodyProper? : Option (List Stmt) → Prop
  | none => True
  | some body => bodyProper body

end

theorem exprsProper_iff (es : List Expr) : exprsProper word es ↔ ∀ e ∈ es, e.Proper word := by
  induction es with
  | nil => simp [exprsProper]
  | cons e rest ih => simp [exprsProper, ih]

theorem initsProper_iff (fs : List FieldInit) : initsProper word fs ↔ ∀ f ∈ fs, f.Proper word := by
  induction fs with
  | nil => simp [initsProper]
  | cons f rest ih => simp [initsProper, ih]

theorem fnDeclsProper_iff (ds : List FnDecl) : fnDeclsProper word ds ↔ ∀ d ∈ ds, d.Proper word := by
  induction ds with
  | nil => simp [fnDeclsProper]
  | cons d rest ih => simp [fnDeclsProper, ih]

end Proper

namespace Grammar

/-- Operators that join their operands in an expression of their own. A text is none of them. -/
structure Joins (operator? : Lexeme → Option (Expr → Expr → Expr)) : Prop where
  text : ∀ s, operator? (.text s) = none
  joined : ∀ l join, operator? l = some join → (∃ op, join = .binary op) ∨ ∃ op, join = .logic op

theorem joins_disjunction : Joins disjunctionOp? := by
  refine ⟨fun s => rfl, fun l join h => ?_⟩
  unfold disjunctionOp? at h
  split at h <;> cases h
  exact .inr ⟨_, rfl⟩

theorem joins_conjunction : Joins conjunctionOp? := by
  refine ⟨fun s => rfl, fun l join h => ?_⟩
  unfold conjunctionOp? at h
  split at h <;> cases h
  exact .inr ⟨_, rfl⟩

theorem joins_sum : Joins sumOp? := by
  refine ⟨fun s => rfl, fun l join h => ?_⟩
  unfold sumOp? at h
  split at h <;> cases h <;> exact .inl ⟨_, rfl⟩

theorem joins_product : Joins productOp? := by
  refine ⟨fun s => rfl, fun l join h => ?_⟩
  unfold productOp? at h
  split at h <;> cases h <;> exact .inl ⟨_, rfl⟩

end Grammar

end Rustlet
