import Rustlet.Proofs.Scanning

/-! A space keeps any two lexemes apart. -/
namespace Rustlet

/-- How a lexeme is written: a text in quotes, and all else as it is spelled. -/
def Lexeme.written : Lexeme → String
  | .text content => Text.quote content
  | l => l.spelling

/-- A lexeme that can be written: an identifier is a word that is not reserved, and a number is a
numeral. -/
def Lexeme.Writable : Lexeme → Prop
  | .ident name => Scan.isName name = true
  | .number numeral => Number.IsNumeral numeral.toList
  | .text _ | .keyword _ | .symbol _ => True

/-- Lexemes with single spaces between them. -/
def Lexeme.stream (ls : List Lexeme) : String := " ".intercalate (ls.map Lexeme.written)

namespace Scan

/-- A source that is scanned to its end and has some lexemes. -/
structure Reads (source : String) (ls : List Lexeme) : Prop where
  noError : (ofSource source).error? = none
  lexemes : (ofSource source).tokens.map (·.lexeme) = ls

/-- What follows a lexeme in a stream: nothing or a space. -/
def Spaced (rest : List Char) : Prop := ∀ c ∈ rest.head?, c = ' '

theorem Spaced.endsWord {rest : List Char} (h : Spaced rest) : EndsWord rest := by
  intro c hc
  rw [h c hc]
  decide

theorem wordLexeme_keyword (k : Keyword) : Piece.wordLexeme k.text.toList = .keyword k := by
  cases k <;> rfl

theorem scans_keyword (k : Keyword) : Scans k.text.toList [.keyword k] := by
  rw [← wordLexeme_keyword]
  apply scans_word
  cases k <;> rfl

/-- A mark is not taken for a part of a longer one, nor for the start of a comment. -/
theorem firstPiece_symbol (m : Symbol) {rest : List Char} (hrest : Spaced rest) :
    ∃ c cs, m.chars = c :: cs ∧ firstPiece c (cs ++ rest) = .ok (.symbol m, rest) := by
  cases rest with
  | nil => cases m <;> exact ⟨_, _, rfl, rfl⟩
  | cons b rest =>
    obtain rfl := hrest b rfl
    cases m <;> exact ⟨_, _, rfl, rfl⟩

/-- A lexeme that is written ends where a space or the end follows. -/
theorem lexemes?_written {l : Lexeme} (hl : l.Writable) {rest : List Char} (hrest : Spaced rest) :
    lexemes? (l.written.toList ++ rest) = (lexemes? rest).map (l :: ·) := by
  cases l with
  | ident name => exact scans_name hl rest hrest.endsWord
  | number numeral =>
    simpa [Lexeme.written, Lexeme.spelling] using scans_numeral hl rest hrest.endsWord
  | text content => simpa [Lexeme.written, Text.quote] using scans_quote content rest hrest.endsWord
  | keyword k => exact scans_keyword k rest hrest.endsWord
  | symbol m =>
    obtain ⟨c, cs, hchars, hpiece⟩ := firstPiece_symbol m hrest
    have htext : (Lexeme.symbol m).written.toList = c :: cs := by
      rw [← hchars]
      exact String.toList_ofList
    rw [htext, List.cons_append, lexemes?_cons hpiece]
    rfl

/-- Lexemes one after the other: each is read up to the space after it. -/
theorem lexemes?_stream {ls : List Lexeme} (h : ∀ l ∈ ls, l.Writable) :
    lexemes? ([' '].intercalate (ls.map (·.written.toList))) = some ls := by
  have hnil : lexemes? [] = some [] := by simp [lexemes?, pieces]
  induction ls with
  | nil => exact hnil
  | cons l ls ih =>
    obtain ⟨hl, hls⟩ := List.forall_mem_cons.1 h
    cases ls with
    | nil =>
      have hend : Spaced [] := by
        intro c hc
        cases hc
      simpa [hnil] using lexemes?_written hl hend
    | cons l' ls =>
      have hspace : ∀ rest, Spaced (' ' :: rest) := by
        intro rest c hc
        exact (Option.some.inj hc).symm
      have hrest := ih hls
      rw [List.map_cons] at hrest
      rw [List.map_cons, List.map_cons, List.intercalate_cons_cons, List.append_assoc,
        List.singleton_append, lexemes?_written hl (hspace _), lexemes?_blank, hrest,
        Option.map_some]

theorem reads_of_lexemes? {source : String} {ls : List Lexeme}
    (h : lexemes? source.toList = some ls) : Reads source ls :=
  ⟨(ofSource_of_lexemes? h).1, (ofSource_of_lexemes? h).2⟩

/-- Lexemes that can be written, with single spaces between them, are scanned as these lexemes,
whichever stand side by side. In particular a text in quotes is scanned as that text, whatever
characters it has. -/
theorem scan_written :
    (∀ ls : List Lexeme, (∀ l ∈ ls, l.Writable) → Reads (Lexeme.stream ls) ls) ∧
      ∀ content : String, Reads (Text.quote content) [.text content] := by
  have hstream : ∀ ls : List Lexeme, (∀ l ∈ ls, l.Writable) → Reads (Lexeme.stream ls) ls := by
    intro ls h
    apply reads_of_lexemes?
    rw [Lexeme.stream, String.toList_intercalate, List.map_map]
    exact lexemes?_stream h
  refine ⟨hstream, ?_⟩
  intro content
  apply reads_of_lexemes?
  simpa [Text.quote] using (scans_quote content).lexemes?_eq

/-- Signs and points beside numerals, slashes side by side, and a text with a quote, a backslash, a
line feed and the start of a comment. -/
theorem scan_written_neighbours :
    let ls : List Lexeme := [.symbol .minus, .number "1.5E-07", .symbol .dot, .ident "e5",
      .symbol .slash, .symbol .slash, .text "\"\\\n/*é", .symbol .star, .keyword .selfTypeKw,
      .symbol .less, .symbol .assign]
    (∀ l ∈ ls, l.Writable) ∧
      Lexeme.stream ls = "- 1.5E-07 . e5 / / \"\\\"\\\\\n/*é\" * Self < =" ∧
      Reads "- 1.5E-07 . e5 / / \"\\\"\\\\\n/*é\" * Self < =" ls := by
  intro ls
  have hnumeral : Number.IsNumeral "1.5E-07".toList := by
    have hwhole : Number.IsDigits ['1'] := ⟨by decide, by decide⟩
    have hfraction : Number.IsDigits ['5'] := ⟨by decide, by decide⟩
    have hpower : Number.IsDigits ['0', '7'] := ⟨by decide, by decide⟩
    have hsign : ['-'] ∈ [[], ['+'], ['-']] := by simp
    exact .mk hwhole (.some hfraction) (.some (.inr rfl) hsign hpower)
  have hname : isName "e5" = true := by decide
  have hwritable : ∀ l ∈ ls, l.Writable := by
    simp only [ls, List.forall_mem_cons, Lexeme.Writable, true_and]
    exact ⟨hnumeral, hname, nofun⟩
  have hstream : Lexeme.stream ls = "- 1.5E-07 . e5 / / \"\\\"\\\\\n/*é\" * Self < =" := by
    decide +kernel
  exact ⟨hwritable, hstream, hstream ▸ scan_written.1 ls hwritable⟩

end Scan

end Rustlet
