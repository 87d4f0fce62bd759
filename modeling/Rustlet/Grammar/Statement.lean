import Rustlet.Grammar.Goal

/-! The rules of statements and declarations. -/
namespace Rustlet.Grammar

open Parse

/-- The end of a statement: a semicolon, or the end of the body or script it stands in. Tells
whether a semicolon was there. -/
def endStmt : Parse Bool := do
  if ← skip (.symbol .semicolon) then pure true
  else if (← seesSymbol .closeBrace) || (← atEnd) then pure false
  else unexpected (.lexeme (.symbol .semicolon))

/-- The items of a script; semicolons between them mean nothing. -/
def programRule (read : Reader) : Parse (List Stmt) :=
  many do
    if ← atEnd then pure .stop
    else if ← skip (.symbol .semicolon) then pure .pass
    else
      let s ← read .stmt
      pure (.item s)

/-- Statements in braces; semicolons between them mean nothing. -/
def blockRule (read : Reader) : Parse (List Stmt) := do
  symbol .openBrace
  let body ← many do
    if ← seesSymbol .closeBrace then pure .stop
    else if ← atEnd then unexpected (.lexeme (.symbol .closeBrace))
    else if ← skip (.symbol .semicolon) then pure .pass
    else
      let s ← read .stmt
      pure (.item s)
  symbol .closeBrace
  pure body

/-- A statement, told by its first token. -/
def stmtRule (read : Reader) : Parse Stmt := do
  match ← current with
  | some (.keyword .pubKw) | some (.keyword .structKw) | some (.keyword .implKw)
  | some (.keyword .fnKw) =>
    read .decl
  | some (.keyword .letKw) => read .letStmt
  | some (.keyword .ifKw) =>
    let c ← read .conditional
    pure (.conditional c)
  | some (.keyword .whileKw) => read .whileStmt
  | some (.keyword .returnKw) => read .returnStmt
  | some (.symbol .openBrace) =>
    let pos ← here
    let body ← read .block
    pure (.block pos body)
  | _ => read .exprStmt

/-- A binding of a name. -/
def letRule (read : Reader) : Parse Stmt := do
  let pos ← here
  keyword .letKw
  let _ ← skip (.keyword .mutKw)
  let name ← ident
  let hasType ← skip (.symbol .colon)
  let type ← if hasType then some <$> read .type else pure none
  symbol .assign
  let value ← read (.expr true)
  symbol .semicolon
  pure (.letIn pos name type value)

/-- The second body of a choice, if there is one: a body or a further choice. -/
def elseBranch (read : Reader) : Parse (Option (List Stmt)) := do
  if ← skip (.keyword .elseKw) then
    if ← seesKeyword .ifKw then
      let c ← read .conditional
      pure (some [.conditional c])
    else
      let body ← read .block
      pure (some body)
  else pure none

/-- A choice. -/
def conditionalRule (read : Reader) : Parse Conditional := do
  let pos ← here
  keyword .ifKw
  let condition ← read (.expr false)
  let thenBody ← read .block
  let elseBody ← elseBranch read
  pure ⟨pos, condition, thenBody, elseBody⟩

/-- A loop. -/
def whileRule (read : Reader) : Parse Stmt := do
  let pos ← here
  keyword .whileKw
  let condition ← read (.expr false)
  let body ← read .block
  pure (.whileLoop pos condition body)

/-- A return, with a value unless the statement ends at once. -/
def returnRule (read : Reader) : Parse Stmt := do
  let pos ← here
  keyword .returnKw
  let bare := (← seesSymbol .semicolon) || (← seesSymbol .closeBrace)
  let value ← if bare then pure none else some <$> read (.expr true)
  let _ ← endStmt
  pure (.ret pos value)

/-- The place that an expression names, if it names one. -/
def place? : Expr → Option Place
  | .name pos name => some (.name pos name)
  | .field pos object name => some (.field pos object name)
  | _ => none

/-- An assignment or an expression. -/
def exprStmtRule (read : Reader) : Parse Stmt := do
  let pos ← here
  let e ← read (.expr true)
  if ← seesSymbol .assign then
    match place? e with
    | none => throw (.unexpected .assignable "expression" e.pos)
    | some target =>
      advance
      let value ← read (.expr true)
      let _ ← endStmt
      pure (.assign pos target value)
  else
    let terminated ← endStmt
    pure (.expr pos e terminated)

/-- A declaration, which may be marked public. -/
def declRule (read : Reader) : Parse Stmt := do
  let _ ← skip (.keyword .pubKw)
  match ← current with
  | some (.keyword .structKw) => .structDecl <$> read .structDecl
  | some (.keyword .implKw) => .implBlock <$> read .implBlock
  | some (.keyword .fnKw) => .fnDecl <$> read .fnDecl
  | _ => unexpected .declaration

/-- A field of a struct. -/
def fieldDecl (read : Reader) : Parse FieldDecl := do
  let _ ← skip (.keyword .pubKw)
  let pos ← here
  let name ← ident
  symbol .colon
  let type ← read .type
  pure ⟨pos, name, type⟩

/-- A struct with its fields, or without any if a semicolon follows its name. -/
def structDeclRule (read : Reader) : Parse StructDecl := do
  let pos ← here
  keyword .structKw
  let name ← ident
  if ← skip (.symbol .semicolon) then pure ⟨pos, name, []⟩
  else
    symbol .openBrace
    let fields ← listUntil .closeBrace (fieldDecl read)
    symbol .closeBrace
    pure ⟨pos, name, fields⟩

/-- The methods of a struct. -/
def implBlockRule (read : Reader) : Parse ImplBlock := do
  let pos ← here
  keyword .implKw
  let type ← ident
  symbol .openBrace
  let methods ← many do
    if ← seesSymbol .closeBrace then pure .stop
    else
      let _ ← skip (.keyword .pubKw)
      let decl ← read .fnDecl
      pure (.item decl)
  symbol .closeBrace
  pure ⟨pos, type, methods⟩

/-- The receiver at the head of a parameter list, if there is one. -/
def receiverRule : Parse (Option Receiver) := do
  if ← skip (.keyword .selfKw) then pure (some .value)
  else if (← seesSymbol .amp) && (← spells 1 "self") then
    advance
    advance
    pure (some .shared)
  else if (← seesSymbol .amp) && (← spells 1 "mut") && (← spells 2 "self") then
    advance
    advance
    advance
    pure (some .exclusive)
  else pure none

/-- A parameter. -/
def paramRule (read : Reader) : Parse Param := do
  let pos ← here
  let _ ← skip (.keyword .mutKw)
  let name ← ident
  symbol .colon
  let type ← read .type
  pure ⟨pos, name, type⟩

/-- A function. Without an arrow it returns the unit type. -/
def fnDeclRule (read : Reader) : Parse FnDecl := do
  let pos ← here
  keyword .fnKw
  let name ← ident
  symbol .openParen
  let receiver ← read .receiver
  if receiver.isSome && !(← seesSymbol .closeParen) then symbol .comma
  let params ← listUntil .closeParen (read .param)
  symbol .closeParen
  let hasRet ← skip (.symbol .arrow)
  let ret ← if hasRet then read .type else pure .unit
  let body ← read .block
  pure ⟨pos, name, receiver, params, ret, body⟩

end Rustlet.Grammar
