import Rustlet.Grammar

/-! Nothing here keeps the index within the tokens or a repetition from going on forever. -/
namespace Rustlet

/-- Whether a lexeme is an identifier. -/
def Lexeme.isIdent : Lexeme → Bool
  | .ident _ => true
  | _ => false

/-- Whether the token is a given word or mark. A text is neither, whatever its content. -/
def Token.shows (t : Token) (l : Lexeme) : Bool :=
  match t.lexeme with
  | .text _ => false
  | m => m.spelling == l.spelling

namespace Indexed

/-- The tokens, with the place of the end mark behind them, the index of the next token, and whether
struct literals are allowed. -/
structure State where
  tokens : List Token
  stop : Pos
  index : Nat
  literals : Bool

/-- Why reading ends early. Apart from an error in the tokens, the index can be past the end mark,
the text of a number can fail to be a numeral, or a repetition can have used up its rounds. -/
inductive Trouble
  | refused (e : ParseError)
  | pastEnd
  | notNumeral
  | endless

/-- A step of reading that changes the state. -/
abbrev Action := StateT State (Except Trouble)

section Actions

variable {α : Type}

/-- The next token, or nothing at the end mark. -/
def token : Action (Option Token) := fun s =>
  if s.index ≤ s.tokens.length then .ok (s.tokens[s.index]?, s) else .error .pastEnd

/-- The next lexeme. -/
def current : Action (Option Lexeme) := do
  let t? ← token
  pure (t?.map (·.lexeme))

/-- Goes to the next token, but never from the end mark on. -/
def advance : Action Unit := do
  if (← token).isSome then modify fun s => { s with index := s.index + 1 }

/-- The place of the next token. -/
def here : Action Pos := do
  let t? ← token
  let s ← get
  pure ((t?.map (·.pos)).getD s.stop)

/-- Gives up at the next token. -/
def fail (expected : Expectation) : Action α := do
  let l? ← current
  let pos ← here
  throw (.refused (.unexpected expected ((l?.map (·.spelling)).getD "end of input") pos))

/-- The text of the next token. -/
def value : Action String := do
  let l? ← current
  pure ((l?.map (·.spelling)).getD "")

/-- Whether the token `k` tokens ahead has a given text. Ahead of the end mark is the end mark. -/
def spells (k : Nat) (spelling : String) : Action Bool := fun s =>
  .ok (s.tokens[s.index + k]?.any (·.lexeme.spelling == spelling), s)

/-- Whether the end mark is next. -/
def atEnd : Action Bool := do
  let t? ← token
  pure t?.isNone

/-- Whether the next token is a given word or mark. -/
def sees (l : Lexeme) : Action Bool := do
  let t? ← token
  pure (t?.any (·.shows l))

/-- Whether an identifier is next. -/
def atIdent : Action Bool := do
  let l? ← current
  pure (l?.any (·.isIdent))

/-- Goes past the next token if it is a given word or mark. -/
def skip (l : Lexeme) : Action Bool := do
  if ← sees l then
    advance
    pure true
  else pure false

/-- Goes past the next token, which must be a given word or mark. -/
def expect (l : Lexeme) : Action Unit := do
  if ← sees l then advance else fail (.lexeme l)

/-- Goes past the next token, which must be an identifier. -/
def ident : Action String := do
  if ← atIdent then
    let name ← value
    advance
    pure name
  else fail .identifier

/-- Takes an action with struct literals allowed or not, and then restores what was said before. -/
def allowing (literals : Bool) (x : Action α) : Action α := do
  let saved := (← get).literals
  modify fun s => { s with literals := literals }
  let a ← x
  modify fun s => { s with literals := saved }
  pure a

/-- The entry of the mark of a table that is next. -/
def firstSeen : List (Symbol × α) → Action (Option α)
  | [] => pure none
  | (mark, a) :: rest => do if ← sees (.symbol mark) then pure (some a) else firstSeen rest

/-- Rounds up to the first that stops. -/
def loop (body : Action (Parse.Round α)) : (rounds : Nat) → Action (List α)
  | 0 => throw .endless
  | rounds + 1 => do
    match ← body with
    | .stop => pure []
    | .pass => loop body rounds
    | .item a =>
      let as ← loop body rounds
      pure (a :: as)

/-- Extends a result until nothing extends it. -/
def grow (extend : α → Action (Option α)) : (rounds : Nat) → α → Action α
  | 0, _ => throw .endless
  | rounds + 1, a => do
    match ← extend a with
    | some b => grow extend rounds b
    | none => pure a

/-- Items up to a closing mark, with a comma after each, which the last may lack. -/
def listUntil (rounds : Nat) (close : Symbol) (item : Action α) : Action (List α) :=
  rounds |> loop do
    if ← sees (.symbol close) then pure .stop
    else
      let a ← item
      if ← sees (.symbol close) then pure (.item a)
      else
        expect (.symbol .comma)
        pure (.item a)

end Actions

/-- A construct, indexed by what reading it gives. Whether struct literals are allowed in it is a
matter of the state. -/
inductive Construct : Type → Type
  | program : Construct (List Stmt)
  | stmt : Construct Stmt
  | block : Construct (List Stmt)
  | decl : Construct Stmt
  | structDecl : Construct StructDecl
  | implBlock : Construct ImplBlock
  | fnDecl : Construct FnDecl
  | receiver : Construct (Option Receiver)
  | param : Construct Param
  | type : Construct TypeExpr
  | letStmt : Construct Stmt
  | conditional : Construct Conditional
  | whileStmt : Construct Stmt
  | returnStmt : Construct Stmt
  | exprStmt : Construct Stmt
  | expr : Construct Expr
  | disjunction : Construct Expr
  | conjunction : Construct Expr
  | comparison : Construct Expr
  | sum : Construct Expr
  | product : Construct Expr
  | unary : Construct Expr
  | postfixed : Construct Expr
  | primary : Construct Expr
  | args : Construct (List Expr)
  | structLit (type : TypePath) : Construct Expr

/-- A way to read every construct. -/
abbrev Runner := ∀ {α : Type}, Construct α → Action α

section Statements

/-- The end of a statement. Tells whether a semicolon was there. -/
def endStmt : Action Bool := do
  if ← skip (.symbol .semicolon) then pure true
  else if (← sees (.symbol .closeBrace)) || (← atEnd) then pure false
  else fail (.lexeme (.symbol .semicolon))

/-- The items of a script. -/
def programRule (rounds : Nat) (run : Runner) : Action (List Stmt) :=
  rounds |> loop do
    if ← atEnd then pure .stop
    else if ← skip (.symbol .semicolon) then pure .pass
    else
      let s ← run .stmt
      pure (.item s)

/-- Statements in braces. -/
def blockRule (rounds : Nat) (run : Runner) : Action (List Stmt) := do
  expect (.symbol .openBrace)
  let body ← allowing true (rounds |> loop do
    if ← sees (.symbol .closeBrace) then pure .stop
    else if ← atEnd then fail (.lexeme (.symbol .closeBrace))
    else if ← skip (.symbol .semicolon) then pure .pass
    else
      let s ← run .stmt
      pure (.item s))
  expect (.symbol .closeBrace)
  pure body

/-- A statement, told by its first token. -/
def stmtRule (run : Runner) : Action Stmt := do
  if (← sees (.keyword .pubKw)) || (← sees (.keyword .structKw)) || (← sees (.keyword .implKw)) ||
      (← sees (.keyword .fnKw)) then
    run .decl
  else if ← sees (.keyword .letKw) then run .letStmt
  else if ← sees (.keyword .ifKw) then
    let c ← run .conditional
    pure (.conditional c)
  else if ← sees (.keyword .whileKw) then run .whileStmt
  else if ← sees (.keyword .returnKw) then run .returnStmt
  else if ← sees (.symbol .openBrace) then
    let pos ← here
    let body ← run .block
    pure (.block pos body)
  else run .exprStmt

/-- A binding of a name. -/
def letRule (run : Runner) : Action Stmt := do
  let pos ← here
  expect (.keyword .letKw)
  let _ ← skip (.keyword .mutKw)
  let name ← ident
  let hasType ← skip (.symbol .colon)
  let type ← if hasType then some <$> run .type else pure none
  expect (.symbol .assign)
  let value ← run .expr
  expect (.symbol .semicolon)
  pure (.letIn pos name type value)

/-- The second body of a choice, if there is one. -/
def elseBranch (run : Runner) : Action (Option (List Stmt)) := do
  if ← skip (.keyword .elseKw) then
    if ← sees (.keyword .ifKw) then
      let c ← run .conditional
      pure (some [.conditional c])
    else
      let body ← run .block
      pure (some body)
  else pure none

/-- A choice. -/
def conditionalRule (run : Runner) : Action Conditional := do
  let pos ← here
  expect (.keyword .ifKw)
  let condition ← allowing false (run .expr)
  let thenBody ← run .block
  let elseBody ← elseBranch run
  pure ⟨pos, condition, thenBody, elseBody⟩

/-- A loop. -/
def whileRule (run : Runner) : Action Stmt := do
  let pos ← here
  expect (.keyword .whileKw)
  let condition ← allowing false (run .expr)
  let body ← run .block
  pure (.whileLoop pos condition body)

/-- A return, with a value unless the statement ends at once. -/
def returnRule (run : Runner) : Action Stmt := do
  let pos ← here
  expect (.keyword .returnKw)
  let bare := (← sees (.symbol .semicolon)) || (← sees (.symbol .closeBrace))
  let value ← if bare then pure none else some <$> run .expr
  let _ ← endStmt
  pure (.ret pos value)

/-- An assignment or an expression. -/
def exprStmtRule (run : Runner) : Action Stmt := do
  let pos ← here
  let e ← run .expr
  if ← sees (.symbol .assign) then
    match Grammar.place? e with
    | none => throw (.refused (.unexpected .assignable "expression" e.pos))
    | some target =>
      advance
      let value ← run .expr
      let _ ← endStmt
      pure (.assign pos target value)
  else
    let terminated ← endStmt
    pure (.expr pos e terminated)

/-- A declaration, which may be marked public. -/
def declRule (run : Runner) : Action Stmt := do
  let _ ← skip (.keyword .pubKw)
  if ← sees (.keyword .structKw) then .structDecl <$> run .structDecl
  else if ← sees (.keyword .implKw) then .implBlock <$> run .implBlock
  else if ← sees (.keyword .fnKw) then .fnDecl <$> run .fnDecl
  else fail .declaration

/-- A field of a struct. -/
def fieldDecl (run : Runner) : Action FieldDecl := do
  let _ ← skip (.keyword .pubKw)
  let pos ← here
  let name ← ident
  expect (.symbol .colon)
  let type ← run .type
  pure ⟨pos, name, type⟩

/-- A struct with its fields. -/
def structDeclRule (rounds : Nat) (run : Runner) : Action StructDecl := do
  let pos ← here
  expect (.keyword .structKw)
  let name ← ident
  if ← skip (.symbol .semicolon) then pure ⟨pos, name, []⟩
  else
    expect (.symbol .openBrace)
    let fields ← listUntil rounds .closeBrace (fieldDecl run)
    expect (.symbol .closeBrace)
    pure ⟨pos, name, fields⟩

/-- The methods of a struct. -/
def implBlockRule (rounds : Nat) (run : Runner) : Action ImplBlock := do
  let pos ← here
  expect (.keyword .implKw)
  let type ← ident
  expect (.symbol .openBrace)
  let methods ← rounds |> loop do
    if ← sees (.symbol .closeBrace) then pure .stop
    else
      let _ ← skip (.keyword .pubKw)
      let decl ← run .fnDecl
      pure (.item decl)
  expect (.symbol .closeBrace)
  pure ⟨pos, type, methods⟩

/-- The receiver at the head of a parameter list, if there is one. -/
def receiverRule : Action (Option Receiver) := do
  if ← skip (.keyword .selfKw) then pure (some .value)
  else if (← sees (.symbol .amp)) && (← spells 1 "self") then
    advance
    advance
    pure (some .shared)
  else if (← sees (.symbol .amp)) && (← spells 1 "mut") && (← spells 2 "self") then
    advance
    advance
    advance
    pure (some .exclusive)
  else pure none

/-- A parameter. -/
def paramRule (run : Runner) : Action Param := do
  let pos ← here
  let _ ← skip (.keyword .mutKw)
  let name ← ident
  expect (.symbol .colon)
  let type ← run .type
  pure ⟨pos, name, type⟩

/-- A function. -/
def fnDeclRule (rounds : Nat) (run : Runner) : Action FnDecl := do
  let pos ← here
  expect (.keyword .fnKw)
  let name ← ident
  expect (.symbol .openParen)
  let receiver ← run .receiver
  if receiver.isSome && !(← sees (.symbol .closeParen)) then expect (.symbol .comma)
  let params ← listUntil rounds .closeParen (run .param)
  expect (.symbol .closeParen)
  let hasRet ← skip (.symbol .arrow)
  let ret ← if hasRet then run .type else pure .unit
  let body ← run .block
  pure ⟨pos, name, receiver, params, ret, body⟩

end Statements

section Expressions

/-- A type: a reference, the unit type, `Self` or a name. -/
def typeRule (run : Runner) : Action TypeExpr := do
  if ← skip (.symbol .amp) then
    let isMut ← skip (.keyword .mutKw)
    let target ← run .type
    pure (.ref isMut target)
  else if ← skip (.symbol .openParen) then
    expect (.symbol .closeParen)
    pure .unit
  else if ← skip (.keyword .selfTypeKw) then pure (.path .selfType)
  else
    let name ← ident
    pure (.path (.named name))

/-- Operands joined from left to right by operators of one level. -/
def leftJoined (rounds : Nat) (operand : Action Expr)
    (operators : List (Symbol × (Expr → Expr → Expr))) : Action Expr := do
  let first ← operand
  first |> grow (fun left => do
    match ← firstSeen operators with
    | none => pure none
    | some join =>
      advance
      let right ← operand
      pure (some (join left right))) rounds

/-- The operator of a disjunction. -/
def disjunctionOps : List (Symbol × (Expr → Expr → Expr)) := [(.orOr, .logic .or)]

/-- The operator of a conjunction. -/
def conjunctionOps : List (Symbol × (Expr → Expr → Expr)) := [(.andAnd, .logic .and)]

/-- The operators of a comparison. -/
def comparisonOps : List (Symbol × BinaryOp) :=
  [(.eqEq, .equal), (.notEq, .notEqual), (.less, .order .lt), (.lessEq, .order .le),
    (.greater, .order .gt), (.greaterEq, .order .ge)]

/-- The operators of a sum. -/
def sumOps : List (Symbol × (Expr → Expr → Expr)) :=
  [(.plus, .binary (.arith .add)), (.minus, .binary (.arith .sub))]

/-- The operators of a product. -/
def productOps : List (Symbol × (Expr → Expr → Expr)) :=
  [(.star, .binary (.arith .mul)), (.slash, .binary (.arith .div)),
    (.percent, .binary (.arith .rem))]

/-- The operators in front of an operand. -/
def unaryOps : List (Symbol × UnaryOp) := [(.minus, .negate), (.bang, .not)]

/-- One comparison at most. -/
def comparisonRule (run : Runner) : Action Expr := do
  let left ← run .sum
  match ← firstSeen comparisonOps with
  | none => pure left
  | some op =>
    advance
    let right ← run .sum
    if (← firstSeen comparisonOps).isSome then fail .comparisonEnd
    else pure (.binary op left right)

/-- Any number of operators in front of an operand. -/
def unaryRule (run : Runner) : Action Expr := do
  match ← firstSeen unaryOps with
  | none => run .postfixed
  | some op =>
    let pos ← here
    advance
    let operand ← run .unary
    pure (.unary pos op operand)

/-- An access to a field, a call of a method or a call, added to an expression if one follows. -/
def suffix (run : Runner) (e : Expr) : Action (Option Expr) := do
  if ← skip (.symbol .dot) then
    let pos ← here
    let name ← ident
    if ← sees (.symbol .openParen) then
      let args ← run .args
      pure (some (.methodCall pos e name args))
    else pure (some (.field pos e name))
  else if ← sees (.symbol .openParen) then
    let pos ← here
    let args ← run .args
    pure (some (.call pos e args))
  else pure none

/-- An operand with any number of accesses and calls after it. -/
def postfixedRule (rounds : Nat) (run : Runner) : Action Expr := do
  let e ← run .primary
  grow (suffix run) rounds e

/-- Arguments in parentheses. -/
def argsRule (rounds : Nat) (run : Runner) : Action (List Expr) := do
  expect (.symbol .openParen)
  let args ← allowing true (listUntil rounds .closeParen (run .expr))
  expect (.symbol .closeParen)
  pure args

/-- A field of a struct literal. -/
def fieldInit (run : Runner) : Action FieldInit := do
  let pos ← here
  let name ← ident
  if ← skip (.symbol .colon) then
    let value ← run .expr
    pure ⟨pos, name, value⟩
  else if (← sees (.symbol .comma)) || (← sees (.symbol .closeBrace)) then
    pure ⟨pos, name, .name pos name⟩
  else fail (.colonAfterField name)

/-- A struct literal, from the name of the type on. -/
def structLitRule (rounds : Nat) (run : Runner) (type : TypePath) : Action Expr := do
  let pos ← here
  advance
  expect (.symbol .openBrace)
  let fields ← listUntil rounds .closeBrace (fieldInit run)
  expect (.symbol .closeBrace)
  pure (.structLit pos type fields)

/-- Whether the brace after the next token opens a struct literal. -/
def opensFields : Action Bool := fun s =>
  .ok (s.tokens[s.index + 1]?.any (·.lexeme.spelling == "\x7b") &&
    s.tokens[s.index + 2]?.any (fun t => t.shows (.symbol .closeBrace) || t.lexeme.isIdent), s)

/-- A call through a type, from the name of the type on. -/
def pathCall (run : Runner) (type : TypePath) : Action Expr := do
  let pos ← here
  advance
  advance
  let name ← ident
  if ← sees (.symbol .openParen) then
    let args ← run .args
    pure (.pathCall pos type name args)
  else fail (.parenAfterPath type.text name)

/-- An expression that starts with a name or with `Self`. -/
def named (run : Runner) : Action Expr := do
  let pos ← here
  let name ← value
  let isSelf ← sees (.keyword .selfTypeKw)
  let type : TypePath := if isSelf then .selfType else .named name
  let literals := (← get).literals
  if (← atIdent) && (← spells 1 "!") && (← spells 2 "(") then
    advance
    advance
    let args ← run .args
    pure (.macroCall pos name args)
  else if ← spells 1 "::" then pathCall run type
  else if literals && ((← opensFields) || isSelf && (← spells 1 "\x7b")) then
    run (.structLit type)
  else if isSelf then fail .afterSelfType
  else
    advance
    pure (.name pos name)

/-- A number, whose text must be a numeral. -/
def number (pos : Pos) (numeral : String) : Action Expr := do
  advance
  if Scan.splitNumeral numeral.toList = some (numeral.toList, []) then
    pure (.number pos (.ofNumeral numeral))
  else throw .notNumeral

/-- A primary expression that starts with a word or a mark. -/
def worded (run : Runner) (pos : Pos) : Action Expr := do
  if ← sees (.keyword .trueKw) then
    advance
    pure (.bool pos true)
  else if ← sees (.keyword .falseKw) then
    advance
    pure (.bool pos false)
  else if ← sees (.keyword .ifKw) then
    let c ← run .conditional
    pure (.conditional c)
  else if ← sees (.keyword .selfKw) then
    advance
    pure (.name pos selfName)
  else if (← atIdent) || (← sees (.keyword .selfTypeKw)) then named run
  else if ← sees (.symbol .openParen) then
    advance
    let e ← allowing true (run .expr)
    expect (.symbol .closeParen)
    pure e
  else fail .expression

/-- A literal, a name, a choice, or an expression in parentheses. -/
def primaryRule (run : Runner) : Action Expr := do
  let pos ← here
  match ← current with
  | some (.number numeral) => number pos numeral
  | some (.text content) =>
    advance
    pure (.text pos content)
  | _ => worded run pos

end Expressions

/-- The rule of each construct. -/
def Construct.rule (rounds : Nat) (run : Runner) : {α : Type} → Construct α → Action α
  | _, .program => programRule rounds run
  | _, .stmt => stmtRule run
  | _, .block => blockRule rounds run
  | _, .decl => declRule run
  | _, .structDecl => structDeclRule rounds run
  | _, .implBlock => implBlockRule rounds run
  | _, .fnDecl => fnDeclRule rounds run
  | _, .receiver => receiverRule
  | _, .param => paramRule run
  | _, .type => typeRule run
  | _, .letStmt => letRule run
  | _, .conditional => conditionalRule run
  | _, .whileStmt => whileRule run
  | _, .returnStmt => returnRule run
  | _, .exprStmt => exprStmtRule run
  | _, .expr => run .disjunction
  | _, .disjunction => leftJoined rounds (run .conjunction) disjunctionOps
  | _, .conjunction => leftJoined rounds (run .comparison) conjunctionOps
  | _, .comparison => comparisonRule run
  | _, .sum => leftJoined rounds (run .product) sumOps
  | _, .product => leftJoined rounds (run .unary) productOps
  | _, .unary => unaryRule run
  | _, .postfixed => postfixedRule rounds run
  | _, .primary => primaryRule run
  | _, .args => argsRule rounds run
  | _, .structLit t => structLitRule rounds run t

/-- Reads a construct whose parts are nested at most `depth` deep, itself included, with at most
`rounds` rounds of each repetition. -/
def drive (rounds : Nat) : (depth : Nat) → {α : Type} → Construct α → Action α
  | 0, _, _ => fail .shallowerNesting
  | depth + 1, _, construct => construct.rule rounds (drive rounds depth)

end Indexed

end Rustlet
