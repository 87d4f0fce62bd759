import Rustlet.Text.Quoted
import Rustlet.Token

/-! The pieces of a script: blanks, comments and lexemes, with the exact characters they cover. -/
namespace Rustlet

/-- A stretch of source text that stands for at most one token. -/
inductive Piece
  | blank (c : Char)
  | lineComment (body : List Char)
  | blockComment (body : List Char)
  | numeral (digits : List Char)
  | text (raw : List Char)
  | word (letters : List Char)
  | symbol (mark : Symbol)
deriving DecidableEq

/-- Why no piece can be cut off a text. -/
inductive LexFault
  | unclosedComment
  | unclosedText
  | badExponent
  | strayChar (c : Char)
deriving DecidableEq

/-- The wording of a fault. -/
def LexFault.message : LexFault → String
  | unclosedComment => "unterminated block comment"
  | unclosedText => "unterminated string literal"
  | badExponent => "invalid number exponent"
  | strayChar c => "unexpected character: " ++ Text.quoteChar c

namespace Piece

/-- The characters that a piece covers. -/
def chars : Piece → List Char
  | blank c => [c]
  | lineComment body => '/' :: '/' :: body
  | blockComment body => '/' :: '*' :: body ++ ['*', '/']
  | numeral digits => digits
  | text raw => '"' :: raw ++ ['"']
  | word letters => letters
  | symbol mark => mark.chars

/-- The lexeme of a word: reserved words are no identifiers. -/
def wordLexeme (letters : List Char) : Lexeme :=
  match Keyword.ofText? (String.ofList letters) with
  | some k => .keyword k
  | none => .ident (String.ofList letters)

/-- What a piece says; blanks and comments say nothing. -/
def lexeme? : Piece → Option Lexeme
  | blank _ | lineComment _ | blockComment _ => none
  | numeral digits => some (.number (String.ofList digits))
  | text raw => some (.text (String.ofList (Text.unescape raw)))
  | word letters => some (wordLexeme letters)
  | symbol mark => some (.symbol mark)

/-- The place after the raw content of a text. An escape is two columns wide, whatever it escapes.
-/
def pastRaw (p : Pos) : List Char → Pos
  | [] => p
  | '\\' :: _ :: rest => pastRaw (p.right 2) rest
  | c :: rest => pastRaw (p.next c) rest

/-- The place after a piece that starts at `p`. A line comment has no width: only a line feed or the
end of the text can follow it. -/
def after (p : Pos) : Piece → Pos
  | blank c => p.next c
  | lineComment _ => p
  | blockComment body => ((p.right 2).nextAll body).right 2
  | numeral digits => p.right digits.length
  | text raw => (pastRaw (p.right 1) raw).right 1
  | word letters => p.right letters.length
  | symbol mark => p.right mark.chars.length

end Piece

namespace Scan

/-- White space between lexemes. -/
def isBlank (c : Char) : Bool := c = '\n' || c = ' ' || c = '\t' || c = '\r'

/-- A character that can start a word. -/
def startsWord (c : Char) : Bool := c.isAlpha || c = '_'

/-- A character that can stand in a word. -/
def inWord (c : Char) : Bool := c.isAlphanum || c = '_'

/-- The body of a block comment and what follows the first end mark. -/
def splitComment : List Char → Option (List Char × List Char)
  | [] => none
  | '*' :: '/' :: rest => some ([], rest)
  | c :: rest => (splitComment rest).map fun (body, rest) => (c :: body, rest)

/-- The raw content of a text and what follows the first quote that no backslash escapes. -/
def splitRaw : List Char → Option (List Char × List Char)
  | [] => none
  | '"' :: rest => some ([], rest)
  | '\\' :: c :: rest => (splitRaw rest).map fun (raw, rest) => ('\\' :: c :: raw, rest)
  | c :: rest => (splitRaw rest).map fun (raw, rest) => (c :: raw, rest)

/-- A point followed by digits, if the text starts with these, and what follows. -/
def splitFraction : List Char → List Char × List Char
  | '.' :: d :: rest =>
    if d.isDigit then ('.' :: d :: rest.takeWhile Char.isDigit, rest.dropWhile Char.isDigit)
    else ([], '.' :: d :: rest)
  | cs => ([], cs)

/-- A sign, if the text starts with one, and what follows. -/
def splitSign : List Char → List Char × List Char
  | c :: rest => if c = '+' || c = '-' then ([c], rest) else ([], c :: rest)
  | [] => ([], [])

/-- An exponent, if the text starts with one, and what follows; nothing if its mark has no digits.
-/
def splitExponent : List Char → Option (List Char × List Char)
  | m :: rest =>
    if m = 'e' || m = 'E' then
      match (splitSign rest).2 with
      | d :: rest' =>
        if d.isDigit then
          some (m :: ((splitSign rest).1 ++ d :: rest'.takeWhile Char.isDigit),
            rest'.dropWhile Char.isDigit)
        else none
      | [] => none
    else some ([], m :: rest)
  | [] => some ([], [])

/-- The numeral at the start of a text that starts with a digit, and what follows. -/
def splitNumeral (cs : List Char) : Option (List Char × List Char) :=
  let fraction := splitFraction (cs.dropWhile Char.isDigit)
  (splitExponent fraction.2).map fun exponent =>
    (cs.takeWhile Char.isDigit ++ fraction.1 ++ exponent.1, exponent.2)

/-- The lexeme at the start of a text that starts with neither a blank nor a comment. -/
def firstLexeme (c : Char) (cs : List Char) : Except LexFault (Piece × List Char) :=
  if c.isDigit then
    match splitNumeral (c :: cs) with
    | some (digits, rest) => .ok (.numeral digits, rest)
    | none => .error .badExponent
  else if c = '"' then
    match splitRaw cs with
    | some (raw, rest) => .ok (.text raw, rest)
    | none => .error .unclosedText
  else if startsWord c then .ok (.word (c :: cs.takeWhile inWord), cs.dropWhile inWord)
  else match Symbol.first? (c :: cs) with
    | some mark => .ok (.symbol mark, (c :: cs).drop mark.chars.length)
    | none => .error (.strayChar c)

/-- The first piece of a text that is not empty, and what follows it. -/
def firstPiece : Char → List Char → Except LexFault (Piece × List Char)
  | '/', '/' :: cs => .ok (.lineComment (cs.takeWhile (· ≠ '\n')), cs.dropWhile (· ≠ '\n'))
  | '/', '*' :: cs =>
    match splitComment cs with
    | some (body, rest) => .ok (.blockComment body, rest)
    | none => .error .unclosedComment
  | c, cs => if isBlank c then .ok (.blank c, cs) else firstLexeme c cs

theorem splitComment_chars {cs body rest : List Char} (h : splitComment cs = some (body, rest)) :
    body ++ '*' :: '/' :: rest = cs := by
  fun_induction splitComment cs generalizing body rest with
  | case1 => simp at h
  | case2 r => simp_all
  | case3 c r _ ih =>
    obtain ⟨⟨b, s⟩, hb, he⟩ := Option.map_eq_some_iff.1 h
    simp only [Prod.mk.injEq] at he
    obtain ⟨rfl, rfl⟩ := he
    simp [ih hb]

theorem splitRaw_chars {cs raw rest : List Char} (h : splitRaw cs = some (raw, rest)) :
    raw ++ '"' :: rest = cs := by
  fun_induction splitRaw cs generalizing raw rest with
  | case1 => simp at h
  | case2 r => simp_all
  | case3 c r ih =>
    obtain ⟨⟨b, s⟩, hb, he⟩ := Option.map_eq_some_iff.1 h
    simp only [Prod.mk.injEq] at he
    obtain ⟨rfl, rfl⟩ := he
    simp [ih hb]
  | case4 c r _ _ ih =>
    obtain ⟨⟨b, s⟩, hb, he⟩ := Option.map_eq_some_iff.1 h
    simp only [Prod.mk.injEq] at he
    obtain ⟨rfl, rfl⟩ := he
    simp [ih hb]

theorem splitFraction_chars (cs : List Char) :
    (splitFraction cs).1 ++ (splitFraction cs).2 = cs := by
  fun_cases splitFraction cs <;> simp_all [List.takeWhile_append_dropWhile]

theorem splitSign_chars (cs : List Char) : (splitSign cs).1 ++ (splitSign cs).2 = cs := by
  fun_cases splitSign cs <;> simp_all

theorem splitExponent_chars {cs exponent rest : List Char}
    (h : splitExponent cs = some (exponent, rest)) : exponent ++ rest = cs := by
  cases cs with
  | nil => simp_all [splitExponent]
  | cons m r =>
    simp only [splitExponent] at h
    split at h
    · have hs := splitSign_chars r
      split at h
      · rename_i d s hd
        split at h
        · simp only [Option.some.injEq, Prod.mk.injEq] at h
          obtain ⟨rfl, rfl⟩ := h
          rw [hd] at hs
          conv => rhs; rw [← hs]
          simp [List.takeWhile_append_dropWhile]
        · simp at h
      · simp at h
    · simp_all

theorem splitNumeral_chars {cs digits rest : List Char}
    (h : splitNumeral cs = some (digits, rest)) :
    digits ++ rest = cs := by
  simp only [splitNumeral, Option.map_eq_some_iff, Prod.mk.injEq] at h
  obtain ⟨⟨e, s⟩, he, rfl, rfl⟩ := h
  have h1 := splitExponent_chars he
  have h2 := splitFraction_chars (cs.dropWhile Char.isDigit)
  have h3 := List.takeWhile_append_dropWhile (p := Char.isDigit) (l := cs)
  rw [List.append_assoc, List.append_assoc, h1, h2, h3]

theorem Symbol.chars_append_drop {cs : List Char} {s : Symbol} (h : Symbol.first? cs = some s) :
    s.chars ++ cs.drop s.chars.length = cs := by
  have hp := List.find?_some h
  have := List.isPrefixOf_iff_prefix.1 hp
  obtain ⟨t, rfl⟩ := this
  simp

theorem firstLexeme_chars {c : Char} {cs rest : List Char} {p : Piece}
    (h : firstLexeme c cs = .ok (p, rest)) : p.chars ++ rest = c :: cs := by
  unfold firstLexeme at h
  split at h
  · split at h
    · rename_i hs
      cases h
      exact splitNumeral_chars hs
    · cases h
  · split at h
    · split at h
      · rename_i hc _ _ _ hs
        cases h
        simp [Piece.chars, hc, splitRaw_chars hs]
      · cases h
    · split at h
      · cases h
        simp [Piece.chars, List.takeWhile_append_dropWhile]
      · split at h
        · rename_i hs
          cases h
          exact Symbol.chars_append_drop hs
        · cases h

/-- A piece and what follows it make up the text. -/
theorem firstPiece_chars {c : Char} {cs rest : List Char} {p : Piece}
    (h : firstPiece c cs = .ok (p, rest)) : p.chars ++ rest = c :: cs := by
  unfold firstPiece at h
  split at h
  · cases h
    simp [Piece.chars, List.takeWhile_append_dropWhile]
  · split at h
    · rename_i hs
      cases h
      simp [Piece.chars, splitComment_chars hs]
    · cases h
  · split at h
    · cases h
      simp [Piece.chars]
    · exact firstLexeme_chars h

end Scan

end Rustlet
