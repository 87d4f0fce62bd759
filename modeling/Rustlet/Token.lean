import Rustlet.Position

/-! The words and marks of a script. -/
namespace Rustlet

/-- A reserved word. -/
inductive Keyword
  | elseKw | falseKw | fnKw | ifKw | implKw | letKw | mutKw | pubKw | returnKw | selfKw | selfTypeKw
  | structKw | trueKw | whileKw
deriving DecidableEq

namespace Keyword

/-- How the word is written. -/
def text : Keyword → String
  | elseKw => "else"
  | falseKw => "false"
  | fnKw => "fn"
  | ifKw => "if"
  | implKw => "impl"
  | letKw => "let"
  | mutKw => "mut"
  | pubKw => "pub"
  | returnKw => "return"
  | selfKw => "self"
  | selfTypeKw => "Self"
  | structKw => "struct"
  | trueKw => "true"
  | whileKw => "while"

/-- All reserved words. -/
def all : List Keyword :=
  [elseKw, falseKw, fnKw, ifKw, implKw, letKw, mutKw, pubKw, returnKw, selfKw, selfTypeKw, structKw,
    trueKw, whileKw]

/-- The reserved word with a given text. -/
def ofText? (word : String) : Option Keyword := all.find? (·.text == word)

end Keyword

/-- An operator or a punctuation mark. -/
inductive Symbol
  | pathSep | arrow | eqEq | notEq | lessEq | greaterEq | andAnd | orOr
  | plus | minus | star | slash | percent | assign | less | greater | bang | amp
  | openBrace | closeBrace | openParen | closeParen | openBracket | closeBracket
  | colon | comma | semicolon | dot
deriving DecidableEq

namespace Symbol

/-- How the mark is written. -/
def chars : Symbol → List Char
  | pathSep => [':', ':']
  | arrow => ['-', '>']
  | eqEq => ['=', '=']
  | notEq => ['!', '=']
  | lessEq => ['<', '=']
  | greaterEq => ['>', '=']
  | andAnd => ['&', '&']
  | orOr => ['|', '|']
  | plus => ['+']
  | minus => ['-']
  | star => ['*']
  | slash => ['/']
  | percent => ['%']
  | assign => ['=']
  | less => ['<']
  | greater => ['>']
  | bang => ['!']
  | amp => ['&']
  | openBrace => ['\x7b']
  | closeBrace => ['\x7d']
  | openParen => ['(']
  | closeParen => [')']
  | openBracket => ['[']
  | closeBracket => [']']
  | colon => [':']
  | comma => [',']
  | semicolon => [';']
  | dot => ['.']

/-- How the mark is written. -/
def text (s : Symbol) : String := String.ofList s.chars

/-- The marks of two characters. -/
def doubles : List Symbol := [pathSep, arrow, eqEq, notEq, lessEq, greaterEq, andAnd, orOr]

/-- The marks of one character. -/
def singles : List Symbol :=
  [plus, minus, star, slash, percent, assign, less, greater, bang, amp, openBrace, closeBrace,
    openParen, closeParen, openBracket, closeBracket, colon, comma, semicolon, dot]

/-- The longest mark at the start of a text: a mark of two characters goes before one of one. -/
def first? (cs : List Char) : Option Symbol :=
  (doubles ++ singles).find? fun s => s.chars.isPrefixOf cs

end Symbol

/-- What a token says. -/
inductive Lexeme
  | ident (name : String)
  | number (numeral : String)
  | text (content : String)
  | keyword (word : Keyword)
  | symbol (mark : Symbol)
deriving DecidableEq

/-- The word, mark or numeral as written; of a text, its content. -/
def Lexeme.spelling : Lexeme → String
  | ident name => name
  | number numeral => numeral
  | text content => content
  | keyword word => word.text
  | symbol mark => mark.text

/-- A lexeme and the place where it starts. -/
structure Token where
  lexeme : Lexeme
  pos : Pos
deriving DecidableEq

end Rustlet
