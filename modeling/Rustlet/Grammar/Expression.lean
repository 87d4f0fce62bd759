import Rustlet.Grammar.Goal
import Rustlet.Number.Decimal

/-! The rules of types and expressions. -/
namespace Rustlet.Grammar

open Parse

/-- A type: a reference, the unit type, `Self` or a name. -/
def typeRule (read : Reader) : Parse TypeExpr := do
  if ← skip (.symbol .amp) then
    let isMut ← skip (.keyword .mutKw)
    let target ← read .type
    pure (.ref isMut target)
  else if ← skip (.symbol .openParen) then
    symbol .closeParen
    pure .unit
  else if ← skip (.keyword .selfTypeKw) then pure (.path .selfType)
  else
    let name ← ident
    pure (.path (.named name))

/-- Operands joined from left to right by operators of one level. -/
def leftJoined (operand : Parse Expr) (operator? : Lexeme → Option (Expr → Expr → Expr)) :
    Parse Expr := do
  let first ← operand
  first |> extended fun left => do
    match (← current).bind operator? with
    | none => pure none
    | some join =>
      advance
      let right ← operand
      pure (some (join left right))

/-- The operator of a disjunction. -/
def disjunctionOp? : Lexeme → Option (Expr → Expr → Expr)
  | .symbol .orOr => some (.logic .or)
  | _ => none

/-- The operator of a conjunction. -/
def conjunctionOp? : Lexeme → Option (Expr → Expr → Expr)
  | .symbol .andAnd => some (.logic .and)
  | _ => none

/-- The operators of a comparison. -/
def comparisonOp? : Lexeme → Option BinaryOp
  | .symbol .eqEq => some .equal
  | .symbol .notEq => some .notEqual
  | .symbol .less => some (.order .lt)
  | .symbol .lessEq => some (.order .le)
  | .symbol .greater => some (.order .gt)
  | .symbol .greaterEq => some (.order .ge)
  | _ => none

/-- The operators of a sum. -/
def sumOp? : Lexeme → Option (Expr → Expr → Expr)
  | .symbol .plus => some (.binary (.arith .add))
  | .symbol .minus => some (.binary (.arith .sub))
  | _ => none

/-- The operators of a product. -/
def productOp? : Lexeme → Option (Expr → Expr → Expr)
  | .symbol .star => some (.binary (.arith .mul))
  | .symbol .slash => some (.binary (.arith .div))
  | .symbol .percent => some (.binary (.arith .rem))
  | _ => none

/-- The operators in front of an operand. -/
def unaryOp? : Lexeme → Option UnaryOp
  | .symbol .minus => some .negate
  | .symbol .bang => some .not
  | _ => none

/-- One comparison at most: comparisons do not chain. -/
def comparisonRule (read : Reader) (literals : Bool) : Parse Expr := do
  let left ← read (.sum literals)
  match (← current).bind comparisonOp? with
  | none => pure left
  | some op =>
    advance
    let right ← read (.sum literals)
    if ((← current).bind comparisonOp?).isSome then unexpected .comparisonEnd
    else pure (.binary op left right)

/-- Any number of operators in front of an operand. -/
def unaryRule (read : Reader) (literals : Bool) : Parse Expr := do
  match (← current).bind unaryOp? with
  | none => read (.postfixed literals)
  | some op =>
    let pos ← here
    advance
    let operand ← read (.unary literals)
    pure (.unary pos op operand)

/-- An access to a field, a call of a method or a call, added to an expression if one follows. -/
def suffix (read : Reader) (e : Expr) : Parse (Option Expr) := do
  if ← skip (.symbol .dot) then
    let pos ← here
    let name ← ident
    if ← seesSymbol .openParen then
      let args ← read .args
      pure (some (.methodCall pos e name args))
    else pure (some (.field pos e name))
  else if ← seesSymbol .openParen then
    let pos ← here
    let args ← read .args
    pure (some (.call pos e args))
  else pure none

/-- An operand with any number of accesses and calls after it. -/
def postfixedRule (read : Reader) (literals : Bool) : Parse Expr := do
  let e ← read (.primary literals)
  extended (suffix read) e

/-- Arguments in parentheses. -/
def argsRule (read : Reader) : Parse (List Expr) := do
  symbol .openParen
  let args ← listUntil .closeParen (read (.expr true))
  symbol .closeParen
  pure args

/-- A field of a struct literal. A name alone stands for the field with the value of that name. -/
def fieldInit (read : Reader) : Parse FieldInit := do
  let pos ← here
  let name ← ident
  if ← skip (.symbol .colon) then
    let value ← read (.expr true)
    pure ⟨pos, name, value⟩
  else if (← seesSymbol .comma) || (← seesSymbol .closeBrace) then pure ⟨pos, name, .name pos name⟩
  else unexpected (.colonAfterField name)

/-- A struct literal, from the name of the type on. -/
def structLitRule (read : Reader) (type : TypePath) : Parse Expr := do
  let pos ← here
  advance
  symbol .openBrace
  let fields ← listUntil .closeBrace (fieldInit read)
  symbol .closeBrace
  pure (.structLit pos type fields)

/-- Whether the brace after the next token opens a struct literal: it does if it closes at once or a
name follows. -/
def opensFields : Parse Bool := fun c =>
  let opens := c.spells 1 "\x7b" && match c.lexeme? 2 with
    | some (.symbol .closeBrace) | some (.ident _) => true
    | _ => false
  .ok (opens, c)

/-- A call through a type, from the name of the type on. -/
def pathCall (read : Reader) (type : TypePath) : Parse Expr := do
  let pos ← here
  advance
  advance
  let name ← ident
  if ← seesSymbol .openParen then
    let args ← read .args
    pure (.pathCall pos type name args)
  else unexpected (.parenAfterPath type.text name)

/-- An expression that starts with a name. -/
def named (read : Reader) (literals : Bool) (name : String) : Parse Expr := do
  if (← spells 1 "!") && (← spells 2 "(") then
    let pos ← here
    advance
    advance
    let args ← read .args
    pure (.macroCall pos name args)
  else if ← spells 1 "::" then pathCall read (.named name)
  else if literals && (← opensFields) then read (.structLit (.named name))
  else
    let pos ← here
    advance
    pure (.name pos name)

/-- An expression that starts with `Self`. -/
def selfTyped (read : Reader) (literals : Bool) : Parse Expr := do
  if ← spells 1 "::" then pathCall read .selfType
  else if literals && (← spells 1 "\x7b") then read (.structLit .selfType)
  else unexpected .afterSelfType

/-- A literal, a name, a choice, or an expression in parentheses. -/
def primaryRule (read : Reader) (literals : Bool) : Parse Expr := do
  let pos ← here
  match ← current with
  | some (.number numeral) =>
    advance
    pure (.number pos (.ofNumeral numeral))
  | some (.text content) =>
    advance
    pure (.text pos content)
  | some (.keyword .trueKw) =>
    advance
    pure (.bool pos true)
  | some (.keyword .falseKw) =>
    advance
    pure (.bool pos false)
  | some (.keyword .ifKw) =>
    let c ← read .conditional
    pure (.conditional c)
  | some (.keyword .selfKw) =>
    advance
    pure (.name pos selfName)
  | some (.keyword .selfTypeKw) => selfTyped read literals
  | some (.ident name) => named read literals name
  | some (.symbol .openParen) =>
    advance
    let e ← read (.expr true)
    symbol .closeParen
    pure e
  | _ => unexpected .expression

end Rustlet.Grammar
