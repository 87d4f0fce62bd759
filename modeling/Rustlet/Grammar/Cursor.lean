import Rustlet.Token.Scan

/-! Repetition is bounded by the tokens that are left, one round for each and one more. The bound is
never felt, because each round takes at least one token. -/
namespace Rustlet

/-- What would have let the reading go on. -/
inductive Expectation
  | lexeme (l : Lexeme)
  | identifier
  | expression
  | declaration
  | assignable
  | comparisonEnd
  | colonAfterField (field : String)
  | parenAfterPath (type name : String)
  | afterSelfType
  | shallowerNesting
deriving DecidableEq

/-- The wording of an expectation. -/
def Expectation.text : Expectation → String
  | lexeme l => "'" ++ l.spelling ++ "'"
  | identifier => "identifier"
  | expression => "expression"
  | declaration => "declaration (struct, impl, fn)"
  | assignable => "assignable expression"
  | comparisonEnd => "end of comparison (comparisons cannot be chained)"
  | colonAfterField field => "':' after field '" ++ field ++ "'"
  | parenAfterPath type name => "'(' after path '" ++ type ++ "::" ++ name ++ "'"
  | afterSelfType => "'\x7b' or '::' after 'Self'"
  | shallowerNesting => "shallower nesting (input is nested too deeply)"

/-- Why tokens are no script: what was expected, how the token there is named, and its place. -/
structure ParseError where
  unexpected ::
  expected : Expectation
  found : String
  pos : Pos
deriving DecidableEq

namespace ParseError

/-- The wording of an error, without its place. -/
def message (e : ParseError) : String :=
  "expected " ++ e.expected.text ++ ", got '" ++ e.found ++ "'"

/-- Constructs are nested too deeply to be read. -/
def TooDeep (e : ParseError) : Prop := e.expected = .shallowerNesting

instance : DecidablePred TooDeep := fun e => inferInstanceAs (Decidable (e.expected = _))

end ParseError

/-- The tokens that are left, and the place where the script ends. -/
structure Cursor where
  rest : List Token
  stop : Pos

namespace Cursor

/-- The lexeme `k` tokens ahead. -/
def lexeme? (c : Cursor) (k : Nat) : Option Lexeme := c.rest[k]?.map (·.lexeme)

/-- Whether the token `k` tokens ahead is spelled in a given way, be it a mark, a word or the
content of a text. -/
def spells (c : Cursor) (k : Nat) (spelling : String) : Bool :=
  (c.lexeme? k).any (·.spelling == spelling)

/-- The place of the next token. -/
def pos (c : Cursor) : Pos :=
  match c.rest with
  | t :: _ => t.pos
  | [] => c.stop

/-- How a message names the next token. -/
def found (c : Cursor) : String :=
  match c.rest with
  | t :: _ => t.lexeme.spelling
  | [] => "end of input"

/-- The cursor after the next token. -/
def advance (c : Cursor) : Cursor := { c with rest := c.rest.tail }

end Cursor

/-- A reader of tokens. -/
abbrev Parse := StateT Cursor (Except ParseError)

namespace Parse

variable {α : Type}

/-- Gives up at the next token. -/
def unexpected (expected : Expectation) : Parse α :=
  fun c => .error (.unexpected expected c.found c.pos)

/-- The next lexeme. -/
def current : Parse (Option Lexeme) := fun c => .ok (c.lexeme? 0, c)

/-- The place of the next token. -/
def here : Parse Pos := fun c => .ok (c.pos, c)

/-- Whether the token `k` tokens ahead is spelled in a given way. -/
def spells (k : Nat) (spelling : String) : Parse Bool := fun c => .ok (c.spells k spelling, c)

/-- Takes the next token. -/
def advance : Parse Unit := fun c => .ok ((), c.advance)

/-- Whether no token is left. -/
def atEnd : Parse Bool := fun c => .ok (c.rest.isEmpty, c)

/-- Whether the next token is a given lexeme. -/
def sees (l : Lexeme) : Parse Bool := fun c => .ok (c.lexeme? 0 = some l, c)

/-- Whether the next token is a given mark. -/
def seesSymbol (s : Symbol) : Parse Bool := sees (.symbol s)

/-- Whether the next token is a given reserved word. -/
def seesKeyword (k : Keyword) : Parse Bool := sees (.keyword k)

/-- Takes the next token if it is a given lexeme. -/
def skip (l : Lexeme) : Parse Bool := do
  if ← sees l then
    advance
    pure true
  else pure false

/-- Takes the next token, which must be a given lexeme. -/
def expect (l : Lexeme) : Parse Unit := do
  if ← sees l then advance else unexpected (.lexeme l)

/-- Takes the next token, which must be a given mark. -/
def symbol (s : Symbol) : Parse Unit := expect (.symbol s)

/-- Takes the next token, which must be a given reserved word. -/
def keyword (k : Keyword) : Parse Unit := expect (.keyword k)

/-- Takes the next token, which must be an identifier. -/
def ident : Parse String := do
  match ← current with
  | some (.ident name) =>
    advance
    pure name
  | _ => unexpected .identifier

/-- One round of a repetition. -/
inductive Round (α : Type)
  | stop
  | pass
  | item (a : α)

/-- Rounds up to the first that stops, at most one for each token of `fuel` and one more; the items
in order. -/
def rounds (round : Parse (Round α)) : (fuel : List Token) → Parse (List α)
  | [] => do
    match ← round with
    | .stop | .pass => pure []
    | .item a => pure [a]
  | _ :: fuel => do
    match ← round with
    | .stop => pure []
    | .pass => rounds round fuel
    | .item a =>
      let as ← rounds round fuel
      pure (a :: as)

/-- Rounds up to the first that stops. -/
def many (round : Parse (Round α)) : Parse (List α) := fun c => rounds round c.rest c

/-- Extensions of a result up to the first that gives nothing, at most one for each token of `fuel`
and one more. -/
def extensions (extend : α → Parse (Option α)) : (fuel : List Token) → α → Parse α
  | [], a => do
    let b ← extend a
    pure (b.getD a)
  | _ :: fuel, a => do
    match ← extend a with
    | some b => extensions extend fuel b
    | none => pure a

/-- Extends a result as long as possible. -/
def extended (extend : α → Parse (Option α)) (a : α) : Parse α :=
  fun c => extensions extend c.rest a c

/-- Items up to a closing mark, with a comma after each, which the last may lack. -/
def listUntil (close : Symbol) (item : Parse α) : Parse (List α) :=
  many do
    if ← seesSymbol close then pure .stop
    else
      let a ← item
      if ← seesSymbol close then pure (.item a)
      else
        symbol .comma
        pure (.item a)

end Parse

end Rustlet
