import Mathlib.Tactic.Simps.Basic
import Rustlet.Grammar.Statement

/-! Scripts with other leaves: other places and texts, and types that are written in another way. -/
namespace Rustlet

/-- What to write for each leaf of a script. How a type is named may go by the struct in whose
methods it stands. -/
structure Relabelling where
  place : Pos → Pos
  content : String → String
  path : Option String → TypePath → TypePath
  annotation : Option TypeExpr → Option TypeExpr
  paramType : TypeExpr → TypeExpr
  receiver : Receiver → Receiver
  ret : TypeExpr → TypeExpr

namespace Relabelling

/-- Changes places and the contents of texts only. -/
@[simps] def marking (place : Pos → Pos) (content : String → String) : Relabelling :=
  ⟨place, content, fun _ type => type, id, id, id, id⟩

/-- Changes places only. -/
@[simps!] def placing (f : Pos → Pos) : Relabelling := marking f id

/-- Forgets places. -/
def unplaced : Relabelling := placing fun _ => .start

variable (ρ : Relabelling)

/-- A lexeme with another content if it is a text. -/
def lexeme : Lexeme → Lexeme
  | .text content => .text (ρ.content content)
  | .ident name => .ident name
  | .number numeral => .number numeral
  | .keyword word => .keyword word
  | .symbol mark => .symbol mark

/-- A token with another place and content. -/
def token (t : Token) : Token := ⟨ρ.lexeme t.lexeme, ρ.place t.pos⟩

@[simp] def param (p : Param) : Param := ⟨ρ.place p.pos, p.name, ρ.paramType p.type⟩

/-- The types of fields stay. -/
@[simp] def fieldDecl (f : FieldDecl) : FieldDecl := { f with pos := ρ.place f.pos }

@[simp] def structDecl (d : StructDecl) : StructDecl :=
  ⟨ρ.place d.pos, d.name, d.fields.map ρ.fieldDecl⟩

/-- The type that a function returns. It stays where it decides whether a fresh instance is made:
with an associated function of a struct. -/
def retType (owner : Option String) (receiver : Option Receiver) (ret : TypeExpr) : TypeExpr :=
  if owner.isSome && receiver.isNone then ret else ρ.ret ret

mutual

/-- An expression in a method of `owner`, or in none. -/
def expr (owner : Option String) : Expr → Expr
  | .number pos n => .number (ρ.place pos) n
  | .text pos content => .text (ρ.place pos) (ρ.content content)
  | .bool pos b => .bool (ρ.place pos) b
  | .name pos name => .name (ρ.place pos) name
  | .unary pos op operand => .unary (ρ.place pos) op (expr owner operand)
  | .binary op left right => .binary op (expr owner left) (expr owner right)
  | .logic op left right => .logic op (expr owner left) (expr owner right)
  | .field pos object name => .field (ρ.place pos) (expr owner object) name
  | .call pos callee args => .call (ρ.place pos) (expr owner callee) (exprs owner args)
  | .pathCall pos type name args =>
    .pathCall (ρ.place pos) (ρ.path owner type) name (exprs owner args)
  | .methodCall pos receiver method args =>
    .methodCall (ρ.place pos) (expr owner receiver) method (exprs owner args)
  | .macroCall pos name args => .macroCall (ρ.place pos) name (exprs owner args)
  | .structLit pos type fields =>
    .structLit (ρ.place pos) (ρ.path owner type) (inits owner fields)
  | .conditional c => .conditional (choice owner c)

def exprs (owner : Option String) : List Expr → List Expr
  | [] => []
  | e :: rest => expr owner e :: exprs owner rest

def expr? (owner : Option String) : Option Expr → Option Expr
  | none => none
  | some e => some (expr owner e)

def init (owner : Option String) : FieldInit → FieldInit
  | ⟨pos, name, value⟩ => ⟨ρ.place pos, name, expr owner value⟩

def inits (owner : Option String) : List FieldInit → List FieldInit
  | [] => []
  | f :: rest => init owner f :: inits owner rest

def choice (owner : Option String) : Conditional → Conditional
  | ⟨pos, condition, thenBody, elseBody⟩ =>
    ⟨ρ.place pos, expr owner condition, body owner thenBody, body? owner elseBody⟩

def target (owner : Option String) : Place → Place
  | .name pos name => .name (ρ.place pos) name
  | .field pos object name => .field (ρ.place pos) (expr owner object) name

/-- A method of `owner`, or a function of its own. -/
def fnDecl (owner : Option String) : FnDecl → FnDecl
  | ⟨pos, name, receiver, params, ret, stmts⟩ =>
    ⟨ρ.place pos, name, receiver.map ρ.receiver, params.map ρ.param,
      ρ.retType owner receiver ret, body owner stmts⟩

def fnDecls (owner : Option String) : List FnDecl → List FnDecl
  | [] => []
  | d :: rest => fnDecl owner d :: fnDecls owner rest

def implBlock : ImplBlock → ImplBlock
  | ⟨pos, type, methods⟩ => ⟨ρ.place pos, type, fnDecls (some type) methods⟩

/-- A statement in a method of `owner`, or in none. A function in it is a function of its own. -/
def stmt (owner : Option String) : Stmt → Stmt
  | .letIn pos name type value =>
    .letIn (ρ.place pos) name (ρ.annotation type) (expr owner value)
  | .assign pos place value => .assign (ρ.place pos) (target owner place) (expr owner value)
  | .expr pos value terminated => .expr (ρ.place pos) (expr owner value) terminated
  | .conditional c => .conditional (choice owner c)
  | .whileLoop pos condition stmts =>
    .whileLoop (ρ.place pos) (expr owner condition) (body owner stmts)
  | .block pos stmts => .block (ρ.place pos) (body owner stmts)
  | .ret pos value => .ret (ρ.place pos) (expr? owner value)
  | .structDecl d => .structDecl (ρ.structDecl d)
  | .implBlock b => .implBlock (implBlock b)
  | .fnDecl d => .fnDecl (fnDecl none d)

def body (owner : Option String) : List Stmt → List Stmt
  | [] => []
  | s :: rest => stmt owner s :: body owner rest

def body? (owner : Option String) : Option (List Stmt) → Option (List Stmt)
  | none => none
  | some stmts => some (body owner stmts)

end

variable (owner : Option String)

@[simp] theorem exprs_eq_map (es : List Expr) : ρ.exprs owner es = es.map (ρ.expr owner) := by
  induction es with
  | nil => rfl
  | cons e rest ih => rw [exprs, ih, List.map_cons]

@[simp] theorem inits_eq_map (fs : List FieldInit) :
    ρ.inits owner fs = fs.map (ρ.init owner) := by
  induction fs with
  | nil => rfl
  | cons f rest ih => rw [inits, ih, List.map_cons]

@[simp] theorem fnDecls_eq_map (ds : List FnDecl) :
    ρ.fnDecls owner ds = ds.map (ρ.fnDecl owner) := by
  induction ds with
  | nil => rfl
  | cons d rest ih => rw [fnDecls, ih, List.map_cons]

@[simp] theorem body_eq_map (stmts : List Stmt) :
    ρ.body owner stmts = stmts.map (ρ.stmt owner) := by
  induction stmts with
  | nil => rfl
  | cons s rest ih => rw [body, ih, List.map_cons]

@[simp] theorem expr?_eq_map (e : Option Expr) : ρ.expr? owner e = e.map (ρ.expr owner) := by
  cases e <;> rfl

@[simp] theorem body?_eq_map (stmts : Option (List Stmt)) :
    ρ.body? owner stmts = stmts.map (List.map (ρ.stmt owner)) := by
  cases stmts with
  | none => rfl
  | some stmts => rw [body?, body_eq_map, Option.map_some]

attribute [simp] expr init choice target fnDecl implBlock stmt

theorem pos_expr (e : Expr) : (ρ.expr owner e).pos = ρ.place e.pos := by
  cases e with
  | binary op left right => exact pos_expr left
  | logic op left right => exact pos_expr left
  | conditional c => cases c; rfl
  | _ => rfl

theorem pos_stmt (s : Stmt) : (ρ.stmt owner s).pos = ρ.place s.pos := by
  cases s with
  | conditional c => cases c; rfl
  | implBlock b => cases b; rfl
  | fnDecl d => cases d; rfl
  | _ => rfl

theorem place?_expr (e : Expr) :
    Grammar.place? (ρ.expr owner e) = (Grammar.place? e).map (ρ.target owner) := by
  cases e <;> rfl

@[simp] theorem name_fnDecl (d : FnDecl) : (ρ.fnDecl owner d).name = d.name := by
  cases d
  rfl

@[simp] theorem body_fnDecl (d : FnDecl) :
    (ρ.fnDecl owner d).body = d.body.map (ρ.stmt owner) := by
  cases d
  exact ρ.body_eq_map owner _

@[simp] theorem params_fnDecl (d : FnDecl) :
    (ρ.fnDecl owner d).params = d.params.map ρ.param := by
  cases d
  rfl

@[simp] theorem receiver_fnDecl (d : FnDecl) :
    (ρ.fnDecl owner d).receiver = d.receiver.map ρ.receiver := by
  cases d
  rfl

section Marking

variable (f : Pos → Pos) (g : String → String)

@[simp] theorem retType_marking (receiver : Option Receiver) (ret : TypeExpr) :
    (marking f g).retType owner receiver ret = ret := by
  unfold retType
  split <;> rfl

@[simp] theorem receiver_marking (receiver : Option Receiver) :
    receiver.map (marking f g).receiver = receiver :=
  Option.map_id'

/-- The receiver and the type of a function stay. -/
theorem fnDecl_marking (pos : Pos) (name : String) (receiver : Option Receiver)
    (params : List Param) (ret : TypeExpr) (stmts : List Stmt) :
    (marking f g).fnDecl owner ⟨pos, name, receiver, params, ret, stmts⟩ =
      ⟨f pos, name, receiver, params.map (marking f g).param, ret,
        (marking f g).body owner stmts⟩ := by
  rw [fnDecl, retType_marking, receiver_marking]
  rfl

@[simp] theorem token_marking : (marking f id).token = fun t => ⟨t.lexeme, f t.pos⟩ := by
  funext ⟨l, p⟩
  cases l <;> rfl

end Marking

section Identity

theorem structDecl_id (d : StructDecl) : (placing id).structDecl d = d := by
  have hfields : d.fields.map (placing id).fieldDecl = d.fields := List.map_id' _
  rw [structDecl, hfields]
  rfl

mutual

theorem expr_id : ∀ (owner : Option String) (e : Expr), (placing id).expr owner e = e
  | _, .number .. | _, .text .. | _, .bool .. | _, .name .. => rfl
  | owner, .unary _ _ operand => by
    rw [expr, expr_id owner operand]
    rfl
  | owner, .binary _ left right => by rw [expr, expr_id owner left, expr_id owner right]
  | owner, .logic _ left right => by rw [expr, expr_id owner left, expr_id owner right]
  | owner, .field _ object _ => by
    rw [expr, expr_id owner object]
    rfl
  | owner, .call _ callee args => by
    rw [expr, expr_id owner callee, exprs_id owner args]
    rfl
  | owner, .pathCall _ _ _ args => by
    rw [expr, exprs_id owner args]
    rfl
  | owner, .methodCall _ receiver _ args => by
    rw [expr, expr_id owner receiver, exprs_id owner args]
    rfl
  | owner, .macroCall _ _ args => by
    rw [expr, exprs_id owner args]
    rfl
  | owner, .structLit _ _ fields => by
    rw [expr, inits_id owner fields]
    rfl
  | owner, .conditional c => by rw [expr, choice_id owner c]

theorem exprs_id : ∀ (owner : Option String) (es : List Expr), (placing id).exprs owner es = es
  | _, [] => rfl
  | owner, e :: rest => by rw [exprs, expr_id owner e, exprs_id owner rest]

theorem inits_id : ∀ (owner : Option String) (fs : List FieldInit),
    (placing id).inits owner fs = fs
  | _, [] => rfl
  | owner, ⟨_, _, value⟩ :: rest => by
    rw [inits, init, expr_id owner value, inits_id owner rest]
    rfl

theorem choice_id : ∀ (owner : Option String) (c : Conditional), (placing id).choice owner c = c
  | owner, ⟨_, condition, thenBody, none⟩ => by
    rw [choice, expr_id owner condition, stmts_id owner thenBody]
    rfl
  | owner, ⟨_, condition, thenBody, some elseBody⟩ => by
    rw [choice, expr_id owner condition, stmts_id owner thenBody, body?, stmts_id owner elseBody]
    rfl

theorem fnDecl_id : ∀ (owner : Option String) (d : FnDecl), (placing id).fnDecl owner d = d
  | owner, ⟨_, _, receiver, params, ret, stmts⟩ => by
    have hparams : params.map (placing id).param = params := List.map_id' _
    have hstmts := stmts_id owner stmts
    rw [placing] at hparams hstmts ⊢
    rw [fnDecl_marking, hparams, hstmts]
    rfl

theorem fnDecls_id : ∀ (owner : Option String) (ds : List FnDecl),
    (placing id).fnDecls owner ds = ds
  | _, [] => rfl
  | owner, d :: rest => by rw [fnDecls, fnDecl_id owner d, fnDecls_id owner rest]

theorem implBlock_id : ∀ b : ImplBlock, (placing id).implBlock b = b
  | ⟨_, type, methods⟩ => by
    rw [implBlock, fnDecls_id (some type) methods]
    rfl

theorem stmt_id : ∀ (owner : Option String) (s : Stmt), (placing id).stmt owner s = s
  | owner, .letIn _ _ _ value => by
    rw [stmt, expr_id owner value]
    rfl
  | owner, .assign _ (.name ..) value => by
    rw [stmt, expr_id owner value]
    rfl
  | owner, .assign _ (.field _ object _) value => by
    rw [stmt, expr_id owner value, target, expr_id owner object]
    rfl
  | owner, .expr _ value _ => by
    rw [stmt, expr_id owner value]
    rfl
  | owner, .conditional c => by rw [stmt, choice_id owner c]
  | owner, .whileLoop _ condition stmts => by
    rw [stmt, expr_id owner condition, stmts_id owner stmts]
    rfl
  | owner, .block _ stmts => by
    rw [stmt, stmts_id owner stmts]
    rfl
  | _, .ret _ none => rfl
  | owner, .ret _ (some value) => by
    rw [stmt, expr?, expr_id owner value]
    rfl
  | _, .structDecl d => by rw [stmt, structDecl_id]
  | _, .implBlock b => by rw [stmt, implBlock_id b]
  | _, .fnDecl d => by rw [stmt, fnDecl_id none d]

theorem stmts_id : ∀ (owner : Option String) (stmts : List Stmt),
    (placing id).body owner stmts = stmts
  | _, [] => rfl
  | owner, s :: rest => by rw [body, stmt_id owner s, stmts_id owner rest]

end

end Identity

end Relabelling

end Rustlet
