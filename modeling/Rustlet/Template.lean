/-! Reading a template stops at the first brace that fits neither a placeholder nor a doubled brace,
so the holes before it are filled before the fault is reported. -/
namespace Rustlet.Template

/-- How a placeholder shows its argument. -/
inductive Style
  | display
  | debug
deriving DecidableEq

/-- A part of a template. -/
inductive Segment
  | char (c : Char)
  | openBrace
  | closeBrace
  | hole (style : Style)
deriving DecidableEq

/-- What is wrong with a template or its arguments. -/
inductive Fault
  | unclosedHole
  | unknownHole (content : String)
  | unmatchedBrace
  | missingArgument
  | unusedArgument
deriving DecidableEq

/-- The wording of a fault. -/
def Fault.message : Fault → String
  | unclosedHole => "unterminated placeholder in format string"
  | unknownHole content => "unsupported placeholder '\x7b" ++ content ++ "\x7d'"
  | unmatchedBrace => "unmatched '\x7d' in format string"
  | missingArgument => "more placeholders than arguments"
  | unusedArgument => "more arguments than placeholders"

/-- What is wrong with a placeholder, given what follows its brace. -/
def holeFault (rest : List Char) : Fault :=
  if '\x7d' ∈ rest then .unknownHole (String.ofList (rest.takeWhile (· ≠ '\x7d')))
  else .unclosedHole

/-- The segments of a template up to its end or its first fault. -/
def segments : List Char → List Segment × Option Fault
  | [] => ([], none)
  | '\x7b' :: '\x7b' :: rest => let (ss, f) := segments rest; (.openBrace :: ss, f)
  | '\x7b' :: '\x7d' :: rest => let (ss, f) := segments rest; (.hole .display :: ss, f)
  | '\x7b' :: ':' :: '?' :: '\x7d' :: rest => let (ss, f) := segments rest; (.hole .debug :: ss, f)
  | '\x7b' :: rest => ([], some (holeFault rest))
  | '\x7d' :: '\x7d' :: rest => let (ss, f) := segments rest; (.closeBrace :: ss, f)
  | '\x7d' :: _ => ([], some .unmatchedBrace)
  | c :: rest => let (ss, f) := segments rest; (.char c :: ss, f)

/-- A part of a filled template: a character, or a value and how to show it. -/
inductive Part (α : Type)
  | char (c : Char)
  | value (style : Style) (v : α)

variable {α : Type}

/-- Fills the holes from left to right. `fault` is what ended the segments. Arguments must be as
many as holes. -/
def fill (fault : Option Fault) : List Segment → List α → List (Part α) × Option Fault
  | [], [] => ([], fault)
  | [], _ :: _ => ([], fault.or (some .unusedArgument))
  | .char c :: ss, args => let (ps, f) := fill fault ss args; (.char c :: ps, f)
  | .openBrace :: ss, args => let (ps, f) := fill fault ss args; (.char '\x7b' :: ps, f)
  | .closeBrace :: ss, args => let (ps, f) := fill fault ss args; (.char '\x7d' :: ps, f)
  | .hole _ :: _, [] => ([], some .missingArgument)
  | .hole style :: ss, v :: args => let (ps, f) := fill fault ss args; (.value style v :: ps, f)

/-- The parts of a template filled with arguments, up to the first fault. -/
def parts (template : String) (args : List α) : List (Part α) × Option Fault :=
  let (ss, fault) := segments template.toList
  fill fault ss args

/-- The text of a part. -/
def Part.text (text : Style → α → String) : Part α → String
  | char c => c.toString
  | value style v => text style v

/-- A template filled with arguments. -/
def expand (text : Style → α → String) (template : String) (args : List α) : Except Fault String :=
  match parts template args with
  | (ps, none) => .ok (String.join (ps.map (Part.text text)))
  | (_, some f) => .error f

/-- Writes one `c` for each pair of them, from left to right. -/
def halve (c : Char) : List Char → List Char
  | [] => []
  | [d] => [d]
  | d :: e :: rest => if d = c ∧ e = c then c :: halve c rest else d :: halve c (e :: rest)

/-- The text of a template that is printed without arguments: doubled braces are halved and nothing
is refused. -/
def plain (template : String) : String :=
  String.ofList (halve '\x7d' (halve '\x7b' template.toList))

end Rustlet.Template
