import Rustlet.Program
import Rustlet.Token

/-! Scripts as lexemes, with parentheses only where an expression would be read otherwise. -/
namespace Rustlet

/-- How tightly an expression binds, from the loosest to the tightest. -/
inductive Level
  | disjunction
  | conjunction
  | comparison
  | sum
  | product
  | unary
  | postfixed
  | primary
deriving DecidableEq

namespace Level

/-- The order of the levels. -/
def rank : Level → Nat
  | disjunction => 0
  | conjunction => 1
  | comparison => 2
  | sum => 3
  | product => 4
  | unary => 5
  | postfixed => 6
  | primary => 7

/-- The next tighter level. -/
def next : Level → Level
  | disjunction => conjunction
  | conjunction => comparison
  | comparison => sum
  | sum => product
  | product => unary
  | unary => postfixed
  | postfixed => primary
  | primary => primary

/-- The loosest left operand of an infix operator. Comparisons do not chain, and all other operators
associate to the left. -/
def left : Level → Level
  | comparison => sum
  | level => level

theorem rank_injective {a b : Level} (h : a.rank = b.rank) : a = b := by
  cases a <;> cases b <;> first | rfl | cases h

theorem rank_le (level : Level) : level.rank ≤ primary.rank := by
  cases level <;> decide

theorem rank_next (level : Level) (h : level ≠ primary) : level.next.rank = level.rank + 1 := by
  cases level <;> first | rfl | exact absurd rfl h

theorem rank_le_next (level : Level) : level.rank ≤ level.next.rank := by
  cases level <;> decide

end Level

/-- The mark of the operator. -/
def UnaryOp.symbol : UnaryOp → Symbol
  | negate => .minus
  | not => .bang

/-- The mark of the operator. -/
def BinaryOp.symbol : BinaryOp → Symbol
  | arith .add => .plus
  | arith .sub => .minus
  | arith .mul => .star
  | arith .div => .slash
  | arith .rem => .percent
  | equal => .eqEq
  | notEqual => .notEq
  | order .lt => .less
  | order .le => .lessEq
  | order .gt => .greater
  | order .ge => .greaterEq

/-- How tightly the operator binds. -/
def BinaryOp.level : BinaryOp → Level
  | arith .add | arith .sub => .sum
  | arith .mul | arith .div | arith .rem => .product
  | equal | notEqual | order _ => .comparison

/-- The mark of the operator. -/
def LogicOp.symbol : LogicOp → Symbol
  | and => .andAnd
  | or => .orOr

/-- How tightly the operator binds. -/
def LogicOp.level : LogicOp → Level
  | and => .conjunction
  | or => .disjunction

/-- How tightly an expression binds that is not in parentheses. -/
def Expr.level : Expr → Level
  | .logic op _ _ => op.level
  | .binary op _ _ => op.level
  | .unary .. => .unary
  | .field .. | .call .. | .methodCall .. => .postfixed
  | _ => .primary

/-- Whether an expression is a struct literal. -/
def Expr.isStructLit : Expr → Bool
  | .structLit .. => true
  | _ => false

/-- Whether an expression is an access to a field. -/
def Expr.isField : Expr → Bool
  | .field .. => true
  | _ => false

/-- Whether an expression is a choice. -/
def Expr.isConditional : Expr → Bool
  | .conditional _ => true
  | _ => false

/-- The loosest level at which an expression can be called. Arguments right after an access to a
field would make it a call of a method. -/
def Expr.calleeLevel (e : Expr) : Level := if e.isField then .primary else .postfixed

/-- Whether an expression needs parentheses where one of at least some level is read: `literals`
tells whether struct literals can stand there, `leading` whether a statement starts there. -/
def Expr.needsParens (e : Expr) (least : Level) (literals leading : Bool) : Bool :=
  decide (e.level.rank < least.rank) || (!literals && e.isStructLit) || (leading && e.isConditional)

/-- An expression, given how it is written without parentheses, with parentheses if need be. -/
def Expr.enclosed (e : Expr) (bare : Bool → Bool → List Lexeme) (least : Level)
    (literals leading : Bool) : List Lexeme :=
  if e.needsParens least literals leading then
    .symbol .openParen :: (bare true false ++ [.symbol .closeParen])
  else bare literals leading

/-- Items with commas between them. -/
def listed : List (List Lexeme) → List Lexeme
  | [] => []
  | [ls] => ls
  | ls :: more => ls ++ .symbol .comma :: listed more

/-- Arguments in parentheses. -/
def inParens (items : List (List Lexeme)) : List Lexeme :=
  .symbol .openParen :: (listed items ++ [.symbol .closeParen])

/-- Lexemes in braces. -/
def inBraces (ls : List Lexeme) : List Lexeme :=
  .symbol .openBrace :: (ls ++ [.symbol .closeBrace])

@[simp] theorem inParens_append (items : List (List Lexeme)) (rest : List Lexeme) :
    inParens items ++ rest =
      .symbol .openParen :: (listed items ++ .symbol .closeParen :: rest) := by
  simp [inParens]

@[simp] theorem inBraces_append (ls rest : List Lexeme) :
    inBraces ls ++ rest = .symbol .openBrace :: (ls ++ .symbol .closeBrace :: rest) := by
  simp [inBraces]

/-- The word for the name of a type. -/
def TypePath.lexeme : TypePath → Lexeme
  | selfType => .keyword .selfTypeKw
  | named name => .ident name

/-- A type as lexemes. -/
def TypeExpr.lexemes : TypeExpr → List Lexeme
  | path p => [p.lexeme]
  | unit => [.symbol .openParen, .symbol .closeParen]
  | ref false target => .symbol .amp :: target.lexemes
  | ref true target => .symbol .amp :: .keyword .mutKw :: target.lexemes

/-- A receiver as lexemes. -/
def Receiver.lexemes : Receiver → List Lexeme
  | value => [.keyword .selfKw]
  | shared => [.symbol .amp, .keyword .selfKw]
  | exclusive => [.symbol .amp, .keyword .mutKw, .keyword .selfKw]

/-- A parameter as lexemes. -/
def Param.lexemes (p : Param) : List Lexeme := .ident p.name :: .symbol .colon :: p.type.lexemes

/-- A field of a struct as lexemes. -/
def FieldDecl.lexemes (f : FieldDecl) : List Lexeme :=
  .ident f.name :: .symbol .colon :: f.type.lexemes

/-- A struct as lexemes. -/
def StructDecl.lexemes (d : StructDecl) : List Lexeme :=
  .keyword .structKw :: .ident d.name :: inBraces (listed (d.fields.map FieldDecl.lexemes))

/-- The word for a name. -/
def nameLexeme (name : String) : Lexeme :=
  if name = selfName then .keyword .selfKw else .ident name

/-- Whether a body is a single choice. -/
def isSoleChoice : List Stmt → Bool
  | [.conditional _] => true
  | _ => false

section

variable (spell : Pos → Number → String)

mutual

/-- An expression without parentheses around it. -/
def Expr.lexemes : Expr → (literals leading : Bool) → List Lexeme
  | .number pos n, _, _ => [.number (spell pos n)]
  | .text _ content, _, _ => [.text content]
  | .bool _ true, _, _ => [.keyword .trueKw]
  | .bool _ false, _, _ => [.keyword .falseKw]
  | .name _ name, _, _ => [nameLexeme name]
  | .unary _ op operand, literals, _ =>
    .symbol op.symbol :: operand.enclosed (fun a b => operand.lexemes a b) .unary literals false
  | .binary op left right, literals, leading =>
    left.enclosed (fun a b => left.lexemes a b) op.level.left literals leading ++
      .symbol op.symbol ::
        right.enclosed (fun a b => right.lexemes a b) op.level.next literals false
  | .logic op left right, literals, leading =>
    left.enclosed (fun a b => left.lexemes a b) op.level.left literals leading ++
      .symbol op.symbol ::
        right.enclosed (fun a b => right.lexemes a b) op.level.next literals false
  | .field _ object name, literals, leading =>
    object.enclosed (fun a b => object.lexemes a b) .postfixed literals leading ++
      [.symbol .dot, .ident name]
  | .call _ callee args, literals, leading =>
    callee.enclosed (fun a b => callee.lexemes a b) callee.calleeLevel literals leading ++
      inParens (exprsLexemes args)
  | .pathCall _ type name args, _, _ =>
    type.lexeme :: .symbol .pathSep :: .ident name :: inParens (exprsLexemes args)
  | .methodCall _ receiver method args, literals, leading =>
    receiver.enclosed (fun a b => receiver.lexemes a b) .postfixed literals leading ++
      .symbol .dot :: .ident method :: inParens (exprsLexemes args)
  | .macroCall _ name args, _, _ =>
    .ident name :: .symbol .bang :: inParens (exprsLexemes args)
  | .structLit _ type fields, _, _ => type.lexeme :: inBraces (listed (initsLexemes fields))
  | .conditional c, _, _ => c.lexemes

/-- Arguments, each of its own. -/
def exprsLexemes : List Expr → List (List Lexeme)
  | [] => []
  | e :: rest => e.lexemes true false :: exprsLexemes rest

/-- A field of a struct literal, always with its value. -/
def FieldInit.lexemes : FieldInit → List Lexeme
  | ⟨_, name, value⟩ => .ident name :: .symbol .colon :: value.lexemes true false

/-- Fields of a struct literal, each of its own. -/
def initsLexemes : List FieldInit → List (List Lexeme)
  | [] => []
  | f :: rest => f.lexemes :: initsLexemes rest

/-- A choice as lexemes. -/
def Conditional.lexemes : Conditional → List Lexeme
  | ⟨_, condition, thenBody, elseBody⟩ =>
    .keyword .ifKw ::
      (condition.enclosed (fun a b => condition.lexemes a b) .disjunction false false ++
        (inBraces (bodyLexemes thenBody) ++ elseLexemes elseBody))

/-- The second body of a choice as lexemes. A further choice stands without braces. -/
def elseLexemes : Option (List Stmt) → List Lexeme
  | none => []
  | some body =>
    .keyword .elseKw ::
      if isSoleChoice body then bodyLexemes body else inBraces (bodyLexemes body)

/-- A target of an assignment as lexemes. -/
def Place.lexemes : Place → List Lexeme
  | .name _ name => [nameLexeme name]
  | .field _ object name =>
    object.enclosed (fun a b => object.lexemes a b) .postfixed true true ++
      [.symbol .dot, .ident name]

/-- A function as lexemes. -/
def FnDecl.lexemes : FnDecl → List Lexeme
  | ⟨_, name, receiver, params, ret, body⟩ =>
    .keyword .fnKw :: .ident name ::
      (inParens (receiver.toList.map Receiver.lexemes ++ params.map Param.lexemes) ++
        .symbol .arrow :: (ret.lexemes ++ inBraces (bodyLexemes body)))

/-- Functions as lexemes. -/
def fnDeclsLexemes : List FnDecl → List Lexeme
  | [] => []
  | d :: rest => d.lexemes ++ fnDeclsLexemes rest

/-- Methods as lexemes. -/
def ImplBlock.lexemes : ImplBlock → List Lexeme
  | ⟨_, type, methods⟩ =>
    .keyword .implKw :: .ident type :: inBraces (fnDeclsLexemes methods)

/-- A statement as lexemes. -/
def Stmt.lexemes : Stmt → List Lexeme
  | .letIn _ name type value =>
    .keyword .letKw :: .ident name ::
      ((type.elim [] fun t => .symbol .colon :: t.lexemes) ++
        .symbol .assign :: (value.lexemes true false ++ [.symbol .semicolon]))
  | .assign _ target value =>
    target.lexemes ++ .symbol .assign :: (value.lexemes true false ++ [.symbol .semicolon])
  | .expr _ value terminated =>
    value.enclosed (fun a b => value.lexemes a b) .disjunction true true ++
      if terminated then [.symbol .semicolon] else []
  | .conditional c => c.lexemes
  | .whileLoop _ condition body =>
    .keyword .whileKw ::
      (condition.enclosed (fun a b => condition.lexemes a b) .disjunction false false ++
        inBraces (bodyLexemes body))
  | .block _ body => inBraces (bodyLexemes body)
  | .ret _ none => [.keyword .returnKw, .symbol .semicolon]
  | .ret _ (some value) =>
    .keyword .returnKw :: (value.lexemes true false ++ [.symbol .semicolon])
  | .structDecl d => d.lexemes
  | .implBlock b => b.lexemes
  | .fnDecl d => d.lexemes

/-- Statements as lexemes. -/
def bodyLexemes : List Stmt → List Lexeme
  | [] => []
  | s :: rest => s.lexemes ++ bodyLexemes rest

end

end

end Rustlet
