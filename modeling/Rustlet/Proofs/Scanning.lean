import Mathlib.Data.List.Forall2
import Rustlet.Proofs.Numerals
import Rustlet.Proofs.Printer
import Rustlet.Token.Scan

/-! Scanning what is written. -/
namespace Rustlet

namespace Text

/-- Escapes are undone. -/
theorem unescape_escaped (cs : List Char) : unescape (cs.flatMap escapeChar) = cs := by
  induction cs with
  | nil => rfl
  | cons c cs ih =>
    rw [List.flatMap_cons]
    by_cases hslash : c = '\\'
    · subst hslash
      simp [escapeChar, unescape, unescapeChar, ih]
    · by_cases hquote : c = '"'
      · subst hquote
        simp [escapeChar, unescape, unescapeChar, ih]
      · simp [escapeChar, hslash, hquote, unescape, ih]

end Text

namespace Scan

/-- The lexemes of a text that can be read to its end. -/
def lexemes? (cs : List Char) : Option (List Lexeme) :=
  match pieces cs with
  | (ps, none) => some (ps.filterMap Piece.lexeme?)
  | (_, some _) => none

theorem pieces_cons {c : Char} {cs rest : List Char} {p : Piece}
    (h : firstPiece c cs = .ok (p, rest)) :
    pieces (c :: cs) = (p :: (pieces rest).1, (pieces rest).2) := by
  rw [pieces]
  split
  · rename_i fault hfault
    rw [h] at hfault
    cases hfault
  · rename_i p' rest' hok
    rw [h] at hok
    cases hok
    rfl

theorem lexemes?_cons {c : Char} {cs rest : List Char} {p : Piece}
    (h : firstPiece c cs = .ok (p, rest)) :
    lexemes? (c :: cs) = (lexemes? rest).map (p.lexeme?.toList ++ ·) := by
  unfold lexemes?
  rw [pieces_cons h]
  generalize pieces rest = r
  obtain ⟨ps, _ | fault⟩ := r
  · cases hp : p.lexeme? <;> simp [hp]
  · rfl

theorem lexemes_place (p : Pos) (ps : List Piece) :
    (place p ps).1.map (·.lexeme) = ps.filterMap Piece.lexeme? := by
  induction ps generalizing p with
  | nil => rfl
  | cons piece rest ih =>
    have hrest := ih (piece.after p)
    unfold place
    cases hp : piece.lexeme? with
    | none => simpa [hp] using hrest
    | some l => simpa [hp] using hrest

theorem place_cons (p : Pos) (piece : Piece) (ps : List Piece) :
    place p (piece :: ps) =
      ((piece.lexeme?.map (⟨·, p⟩)).toList ++ (place (piece.after p) ps).1,
        (place (piece.after p) ps).2) := by
  rw [place]
  cases piece.lexeme? with
  | none => rfl
  | some l => rfl

/-- Pieces after others get the places that follow those of the others. -/
theorem place_append (p : Pos) (ps qs : List Piece) :
    place p (ps ++ qs) =
      ((place p ps).1 ++ (place (place p ps).2 qs).1, (place (place p ps).2 qs).2) := by
  induction ps generalizing p with
  | nil => rfl
  | cons piece rest ih =>
    rw [List.cons_append, place_cons, place_cons, ih]
    simp only [List.append_assoc]

/-- The tokens of a text that can be read to its end. -/
theorem ofSource_of_lexemes? {source : String} {ls : List Lexeme}
    (h : lexemes? source.toList = some ls) :
    (ofSource source).error? = none ∧ (ofSource source).tokens.map (·.lexeme) = ls := by
  have hlexemes := lexemes_place .start (pieces source.toList).1
  unfold lexemes? at h
  unfold ofSource error?
  generalize pieces source.toList = r at h hlexemes
  obtain ⟨ps, _ | fault⟩ := r
  · cases h
    exact ⟨rfl, hlexemes⟩
  · cases h

/-- What can follow a word or a numeral. -/
def EndsWord (rest : List Char) : Prop := ∀ c ∈ rest.head?, inWord c = false ∧ c ≠ '.'

/-- A text with some lexemes, whatever follows it that can follow a word or a numeral. -/
def Scans (cs : List Char) (ls : List Lexeme) : Prop :=
  ∀ rest, EndsWord rest → lexemes? (cs ++ rest) = (lexemes? rest).map (ls ++ ·)

/-- The end of a text can follow, too. -/
theorem Scans.lexemes?_eq {cs : List Char} {ls : List Lexeme} (h : Scans cs ls) :
    lexemes? cs = some ls := by
  have hnil : lexemes? [] = some [] := by simp [lexemes?, pieces]
  have hend := h [] (by simp [EndsWord])
  rwa [List.append_nil, hnil, Option.map_some, List.append_nil] at hend

theorem lexemes?_blank (rest : List Char) : lexemes? (' ' :: rest) = lexemes? rest := by
  rw [lexemes?_cons (show firstPiece ' ' rest = .ok (.blank ' ', rest) from rfl)]
  simp [Piece.lexeme?]

theorem lexemes?_symbol {m : Symbol} {c : Char} {rest : List Char}
    (h : firstPiece c rest = .ok (.symbol m, rest)) :
    lexemes? (c :: rest) = (lexemes? rest).map (.symbol m :: ·) :=
  lexemes?_cons h

theorem firstPiece_eq_firstLexeme {c : Char} {cs : List Char} (hslash : c ≠ '/')
    (hblank : isBlank c = false) : firstPiece c cs = firstLexeme c cs := by
  unfold firstPiece
  split
  · exact absurd rfl hslash
  · exact absurd rfl hslash
  · rw [hblank]
    rfl

theorem not_isDigit_of_startsWord {c : Char} (h : startsWord c = true) : c.isDigit = false := by
  by_contra hdigit
  change ((decide (c.val ≥ 'A'.val ∧ c.val ≤ 'Z'.val) ||
    decide (c.val ≥ 'a'.val) && decide (c.val ≤ 'z'.val)) || decide (c = '_')) = true at h
  simp only [Char.isDigit, Bool.or_eq_true, Bool.and_eq_true, decide_eq_true_eq,
    Bool.not_eq_false, ge_iff_le, UInt32.le_iff_toNat_le] at h hdigit
  rcases h with h | rfl
  · have hnine : '9'.val.toNat = 57 := rfl
    have hupper : 'A'.val.toNat = 65 := rfl
    have hlower : 'a'.val.toNat = 97 := rfl
    omega
  · revert hdigit
    decide

/-- What starts with a letter or a digit is neither a comment nor blank. -/
theorem firstPiece_of_inWord {c : Char} (h : inWord c = true) (cs : List Char) :
    firstPiece c cs = firstLexeme c cs := by
  refine firstPiece_eq_firstLexeme ?_ ?_
  · rintro rfl
    cases h
  · by_contra hblank
    simp only [isBlank, Bool.not_eq_false, Bool.or_eq_true, decide_eq_true_eq] at hblank
    rcases hblank with ((rfl | rfl) | rfl) | rfl <;> cases h

theorem inWord_of_isDigit {c : Char} (h : c.isDigit = true) : inWord c = true := by
  simp [inWord, Char.isAlphanum, h]

theorem inWord_of_startsWord {c : Char} (h : startsWord c = true) : inWord c = true := by
  simp only [startsWord, Bool.or_eq_true] at h
  rcases h with h | h <;> simp only [inWord, Char.isAlphanum, h, Bool.true_or, Bool.or_true]

/-- A word that starts like one. -/
def isWord : List Char → Bool
  | [] => false
  | c :: cs => startsWord c && cs.all inWord

theorem scans_word {letters : List Char} (h : isWord letters = true) :
    Scans letters [Piece.wordLexeme letters] := by
  intro rest hrest
  cases letters with
  | nil => cases h
  | cons c cs =>
    obtain ⟨hc, hcs⟩ := Bool.and_eq_true_iff.1 h
    have hquote : c ≠ '"' := by
      rintro rfl
      cases hc
    have hspan : (cs ++ rest).takeWhile inWord = cs ∧ (cs ++ rest).dropWhile inWord = rest :=
      span_run (List.all_eq_true.1 hcs) fun x hx => (hrest x hx).1
    have hpiece : firstPiece c (cs ++ rest) = .ok (.word (c :: cs), rest) := by
      rw [firstPiece_of_inWord (inWord_of_startsWord hc)]
      simp [firstLexeme, not_isDigit_of_startsWord hc, hquote, hc, hspan]
    exact lexemes?_cons hpiece

theorem splitRaw_escaped (cs rest : List Char) :
    splitRaw (cs.flatMap Text.escapeChar ++ '"' :: rest) =
      some (cs.flatMap Text.escapeChar, rest) := by
  induction cs with
  | nil => rfl
  | cons c cs ih =>
    rw [List.flatMap_cons, List.append_assoc]
    by_cases hslash : c = '\\'
    · subst hslash
      simp [Text.escapeChar, splitRaw, ih]
    · by_cases hquote : c = '"'
      · subst hquote
        simp [Text.escapeChar, splitRaw, ih]
      · simp [Text.escapeChar, hslash, hquote, splitRaw, ih]

theorem scans_quote (s : String) : Scans (Text.quoteChars s.toList) [.text s] := by
  intro rest _
  have hpiece : firstPiece '"' (s.toList.flatMap Text.escapeChar ++ '"' :: rest) =
      .ok (.text (s.toList.flatMap Text.escapeChar), rest) := by
    rw [firstPiece_eq_firstLexeme (by decide) (by decide)]
    simp [firstLexeme, splitRaw_escaped]
  have hlexemes := lexemes?_cons hpiece
  simpa [Text.quoteChars, Piece.lexeme?, Text.unescape_escaped] using hlexemes

theorem EndsWord.endsNumeral {rest : List Char} (h : EndsWord rest) :
    Number.EndsNumeral rest := by
  intro c hc
  obtain ⟨hword, hpoint⟩ := h c hc
  have hdigit : c.isDigit = false := by
    simp only [inWord, Char.isAlphanum, Bool.or_eq_false_iff] at hword
    exact hword.1.2
  have hlower : c ≠ 'e' := by
    rintro rfl
    cases hword
  have hupper : c ≠ 'E' := by
    rintro rfl
    cases hword
  simp [Number.inNumeral, hdigit, hpoint, hlower, hupper]

/-- A numeral is cut where it ends. -/
theorem firstPiece_numeral {cs rest : List Char} (h : Number.IsNumeral cs)
    (hrest : Number.EndsNumeral rest) :
    ∃ d ds, cs = d :: ds ∧ firstPiece d (ds ++ rest) = .ok (.numeral cs, rest) := by
  have hsplit := Number.splitNumeral_append h hrest
  obtain ⟨d, ds, rfl, hd⟩ := h.exists_cons
  refine ⟨d, ds, rfl, ?_⟩
  rw [List.cons_append] at hsplit
  rw [firstPiece_of_inWord (inWord_of_isDigit hd)]
  simp only [firstLexeme, hd, if_true, hsplit]

theorem scans_numeral {cs : List Char} (h : Number.IsNumeral cs) :
    Scans cs [.number (String.ofList cs)] := by
  intro rest hrest
  obtain ⟨d, ds, rfl, hpiece⟩ := firstPiece_numeral h hrest.endsNumeral
  rw [List.cons_append, lexemes?_cons hpiece]
  rfl

theorem scans_negative {cs : List Char} (h : Number.IsNumeral cs) :
    Scans ('-' :: cs) [.symbol .minus, .number (String.ofList cs)] := by
  intro rest hrest
  have hnumeral := scans_numeral h rest hrest
  obtain ⟨d, ds, rfl, hd⟩ := h.exists_cons
  have harrow : d ≠ '>' := by
    rintro rfl
    cases hd
  have hpiece : firstPiece '-' (d :: ds ++ rest) = .ok (.symbol .minus, d :: ds ++ rest) := by
    have hfirst : Symbol.first? ('-' :: d :: (ds ++ rest)) = some .minus := by
      simp [Symbol.first?, Symbol.doubles, Symbol.singles, Symbol.chars, Ne.symm harrow]
    rw [firstPiece_eq_firstLexeme (by decide) (by decide), List.cons_append]
    simp [firstLexeme, startsWord, hfirst, Symbol.chars]
  rw [List.cons_append, lexemes?_symbol hpiece, hnumeral, Option.map_map]
  rfl

/-- A name that can be written: a word that is not reserved. -/
def isName (name : String) : Bool := isWord name.toList && (Keyword.ofText? name).isNone

theorem scans_name {name : String} (h : isName name = true) : Scans name.toList [.ident name] := by
  obtain ⟨hword, hfree⟩ := Bool.and_eq_true_iff.1 h
  have hlexeme : Piece.wordLexeme name.toList = .ident name := by
    unfold Piece.wordLexeme
    rw [String.ofList_toList, Option.isNone_iff_eq_none.1 hfree]
  rw [← hlexeme]
  exact scans_word hword

section Compound

variable {cs : List Char} {ls : List Lexeme}

theorem endsWord_cons {c : Char} (hword : inWord c = false) (hpoint : c ≠ '.') (rest : List Char) :
    EndsWord (c :: rest) := by
  intro x hx
  obtain rfl : c = x := Option.some.inj hx
  exact ⟨hword, hpoint⟩

/-- A field with its value. -/
theorem scans_field {name : String} (hname : isName name = true) (h : Scans cs ls) :
    Scans (name.toList ++ ':' :: ' ' :: cs) (.ident name :: .symbol .colon :: ls) := by
  intro rest hrest
  simp only [List.append_assoc, List.cons_append]
  rw [scans_name hname _ (endsWord_cons (by decide) (by decide) _),
    lexemes?_symbol (m := .colon) rfl, lexemes?_blank, h rest hrest]
  simp [Option.map_map, Function.comp_def]

/-- Items with commas between them. -/
theorem scans_listed {css : List (List Char)} {lss : List (List Lexeme)}
    (h : List.Forall₂ Scans css lss) : Scans ([',', ' '].intercalate css) (listed lss) := by
  intro rest hrest
  induction h with
  | nil => simp [listed]
  | @cons cs ls css lss hitem hmore ih =>
    cases hmore with
    | nil => simpa [listed] using hitem rest hrest
    | cons _ _ =>
      rw [List.intercalate_cons_cons]
      simp only [List.append_assoc, List.cons_append, List.nil_append]
      rw [hitem _ (endsWord_cons (by decide) (by decide) _), lexemes?_symbol (m := .comma) rfl,
        lexemes?_blank, ih]
      simp [listed, Option.map_map, Function.comp_def]

/-- A name with something in braces. -/
theorem scans_braces {name : String} (hname : isName name = true) (h : Scans cs ls) :
    Scans (name.toList ++ ' ' :: '\x7b' :: ' ' :: (cs ++ [' ', '\x7d']))
      (.ident name :: inBraces ls) := by
  intro rest _
  simp only [List.append_assoc, List.cons_append, List.nil_append]
  rw [scans_name hname _ (endsWord_cons (by decide) (by decide) _), lexemes?_blank,
    lexemes?_symbol (m := .openBrace) rfl, lexemes?_blank,
    h _ (endsWord_cons (by decide) (by decide) _), lexemes?_blank,
    lexemes?_symbol (m := .closeBrace) rfl]
  simp [inBraces, Option.map_map, Function.comp_def]

end Compound

end Scan

end Rustlet
