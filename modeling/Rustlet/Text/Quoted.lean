import Rustlet.Text.Printable

/-! Quotation marks around texts, which the scanner reads back, and around characters in messages.
-/
namespace Rustlet.Text

/-- The characters that stand for one character between quotes. -/
def escapeChar (c : Char) : List Char :=
  if c = '\\' then ['\\', '\\'] else if c = '"' then ['\\', '"'] else [c]

/-- A text between quotes. -/
def quoteChars (cs : List Char) : List Char := '"' :: cs.flatMap escapeChar ++ ['"']

/-- A text between quotes. -/
def quote (text : String) : String := String.ofList (quoteChars text.toList)

/-- The character that an escape stands for, given the character after the backslash. -/
def unescapeChar (c : Char) : Char :=
  if c = 'n' then '\n' else if c = 'r' then '\r' else if c = 't' then '\t' else c

/-- Resolves the escapes in the characters between two quotes. -/
def unescape : List Char → List Char
  | [] => []
  | '\\' :: c :: rest => unescapeChar c :: unescape rest
  | c :: rest => c :: unescape rest

/-- The hexadecimal digits of a number in lower case, with zeros in front up to `width` digits. -/
def hex (width n : Nat) : String :=
  let digits := Nat.toDigits 16 n
  String.ofList (List.replicate (width - digits.length) '0' ++ digits)

/-- A character in a message: in single quotes, or in double quotes if it is a single quote. What
has no visible form is written by its code point, with as few digits as two, four or eight. -/
def quoteChar (c : Char) : String :=
  let n := c.toNat
  if c = '\'' then "\"'\""
  else if c = '\\' then "'\\\\'"
  else if c = '\t' then "'\\t'"
  else if c = '\n' then "'\\n'"
  else if c = '\r' then "'\\r'"
  else if isPrintable c then "'" ++ c.toString ++ "'"
  else if n < 0x100 then "'\\x" ++ hex 2 n ++ "'"
  else if n < 0x10000 then "'\\u" ++ hex 4 n ++ "'"
  else "'\\U" ++ hex 8 n ++ "'"

end Rustlet.Text
