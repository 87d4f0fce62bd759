import Mathlib.Data.List.TakeWhile
import Rustlet.Proofs.Scanning

/-! A script is made of whole pieces, with nothing between them and nothing left over. -/
namespace Rustlet

namespace Text

/-- The content that the characters between two quotes stand for. A quote stands there only behind a
backslash, and a backslash only with a character behind it. -/
inductive Resolves : List Char → List Char → Prop
  | nil : Resolves [] []
  | plain {c : Char} {raw content : List Char} (hquote : c ≠ '"') (hslash : c ≠ '\\')
    (h : Resolves raw content) : Resolves (c :: raw) (c :: content)
  | escape (c : Char) {raw content : List Char} (h : Resolves raw content) :
    Resolves ('\\' :: c :: raw) (unescapeChar c :: content)

theorem Resolves.unescape_eq {raw content : List Char} (h : Resolves raw content) :
    unescape raw = content := by
  induction h with
  | nil => rfl
  | plain hquote hslash h ih =>
    rw [unescape, ih]
    exact fun _ _ hc _ => hslash hc
  | escape c h ih => rw [unescape, ih]

end Text

/-- A text of a class to which nothing longer at the start of `cs ++ following` belongs. -/
def Longest (Class : List Char → Prop) (cs following : List Char) : Prop :=
  Class cs ∧ ∀ other, other <+: cs ++ following → Class other → other.length ≤ cs.length

theorem length_le_takeWhile {kind : Char → Bool} {run cs : List Char}
    (hrun : ∀ c ∈ run, kind c = true) (h : run <+: cs) :
    run.length ≤ (cs.takeWhile kind).length := by
  obtain ⟨rest, rfl⟩ := h
  rw [List.takeWhile_append_of_pos hrun, List.length_append]
  exact Nat.le_add_right _ _

namespace Number

open Scan

/-! What is cut off as a numeral is one. -/

theorem isDigits_cons_takeWhile {d : Char} (hd : d.isDigit = true) (cs : List Char) :
    IsDigits (d :: cs.takeWhile Char.isDigit) := by
  refine isDigits_of_forall (List.cons_ne_nil _ _) ?_
  exact List.forall_mem_cons.2 ⟨hd, fun _ => List.mem_takeWhile_imp⟩

theorem isFraction_splitFraction (cs : List Char) : IsFraction (splitFraction cs).1 := by
  fun_cases splitFraction cs with
  | case1 d rest hd => exact .some (isDigits_cons_takeWhile hd rest)
  | case2 d rest hd => exact .none
  | case3 cs h => exact .none

theorem splitSign_mem (cs : List Char) : (splitSign cs).1 ∈ [[], ['+'], ['-']] := by
  fun_cases splitSign cs with
  | case1 c rest hc =>
    simp only [Bool.or_eq_true, decide_eq_true_eq] at hc
    rcases hc with rfl | rfl <;> simp
  | case2 c rest hc => simp
  | case3 => simp

theorem isExponent_splitExponent {cs exponent rest : List Char}
    (h : splitExponent cs = some (exponent, rest)) : IsExponent exponent := by
  cases cs with
  | nil =>
    cases h
    exact .none
  | cons m cs =>
    simp only [splitExponent] at h
    split at h
    · rename_i hm
      split at h
      · rename_i d more hsign
        split at h
        · rename_i hd
          cases h
          have hmark : m = 'e' ∨ m = 'E' := by simpa using hm
          exact .some hmark (splitSign_mem cs) (isDigits_cons_takeWhile hd more)
        · cases h
      · cases h
    · cases h
      exact .none

theorem isNumeral_splitNumeral {c : Char} {cs digits rest : List Char} (hc : c.isDigit = true)
    (h : splitNumeral (c :: cs) = some (digits, rest)) : IsNumeral digits := by
  obtain ⟨⟨exponent, following⟩, hexponent, heq⟩ := Option.map_eq_some_iff.1 h
  cases heq
  rw [List.append_assoc, List.takeWhile_cons_of_pos hc]
  exact .mk (isDigits_cons_takeWhile hc cs) (isFraction_splitFraction _)
    (isExponent_splitExponent hexponent)

/-! No other numeral at the start of the text is longer: each part of it is at most as long as the
part that is cut off, and where it is shorter, no further part can follow. -/

theorem IsFraction.eq_nil {fraction rest : List Char} (hf : IsFraction fraction)
    (h : ∃ c ∈ (fraction ++ rest).head?, c.isDigit = true) : fraction = [] := by
  cases hf with
  | none => rfl
  | some hds =>
    obtain ⟨c, hc, hdigit⟩ := h
    obtain rfl := Option.some.inj hc
    cases hdigit

theorem IsExponent.eq_nil {exponent rest : List Char} (he : IsExponent exponent)
    (h : ∃ c ∈ (exponent ++ rest).head?, c.isDigit = true ∨ c = '.') : exponent = [] := by
  cases he with
  | none => rfl
  | some hmark hsign hds =>
    obtain ⟨c, hc, hother⟩ := h
    obtain rfl := Option.some.inj hc
    rcases hmark with rfl | rfl <;> rcases hother with h | h <;> cases h

theorem length_le_splitFraction {fraction : List Char} (hf : IsFraction fraction)
    (rest : List Char) : fraction.length ≤ (splitFraction (fraction ++ rest)).1.length := by
  cases hf with
  | none => exact Nat.zero_le _
  | some hds =>
    obtain ⟨d, ds, rfl, hd, hmore⟩ := hds.exists_cons
    have hlength := length_le_takeWhile hmore (List.prefix_append ds rest)
    simpa [splitFraction, hd] using hlength

theorem length_le_splitExponent {exponent rest other following : List Char}
    (he : IsExponent exponent) (h : splitExponent (exponent ++ rest) = some (other, following)) :
    exponent.length ≤ other.length := by
  cases he with
  | none => exact Nat.zero_le _
  | @some mark sign ds hmark hsign hds =>
    obtain ⟨d, ds, rfl, hd, hmore⟩ := hds.exists_cons
    have hsplit : splitSign (sign ++ d :: (ds ++ rest)) = (sign, d :: (ds ++ rest)) := by
      apply splitSign_append hsign
      intro c hc
      obtain rfl := Option.some.inj hc
      exact hd
    have hmark' : (mark = 'e' || mark = 'E') = true := by simpa using hmark
    have hlength := length_le_takeWhile hmore (List.prefix_append ds rest)
    simp [splitExponent, hmark', hsplit, hd] at h
    obtain ⟨rfl, -⟩ := h
    simpa using hlength

theorem length_le_splitNumeral {cs rest digits following : List Char} (h : IsNumeral cs)
    (hs : splitNumeral (cs ++ rest) = some (digits, following)) : cs.length ≤ digits.length := by
  obtain @⟨whole, fraction, exponent, hw, hf, he⟩ := h
  have hdigits := List.all_eq_true.1 hw.2
  obtain ⟨⟨other, following⟩, hexponent, heq⟩ := Option.map_eq_some_iff.1 hs
  cases heq
  rw [List.append_assoc, List.append_assoc] at hexponent
  rw [List.append_assoc whole, List.append_assoc fraction]
  by_cases hmore : ∃ c ∈ (fraction ++ (exponent ++ rest)).head?, c.isDigit = true
  · -- more digits follow, so the numeral ends in the middle of the digits
    obtain rfl := hf.eq_nil hmore
    obtain ⟨c, hc, hdigit⟩ := hmore
    obtain rfl := he.eq_nil ⟨c, hc, .inl hdigit⟩
    have hlength := length_le_takeWhile hdigits (List.prefix_append whole rest)
    simp only [List.nil_append, List.append_nil, List.length_append] at hlength ⊢
    omega
  · have hends : ∀ c ∈ (fraction ++ (exponent ++ rest)).head?, c.isDigit = false := by
      intro c hc
      exact Bool.eq_false_iff.2 fun hdigit => hmore ⟨c, hc, hdigit⟩
    obtain ⟨htake, hdrop⟩ := span_run hdigits hends
    rw [hdrop] at hexponent
    rw [htake, hdrop]
    by_cases hgoes : ∃ c ∈ (exponent ++ rest).head?, c.isDigit = true ∨ c = '.'
    · -- the fraction goes on, or starts only here, so no exponent follows
      obtain rfl := he.eq_nil hgoes
      have hlength := length_le_splitFraction hf ([] ++ rest)
      simp only [List.append_nil, List.length_append]
      omega
    · have hstops : ∀ c ∈ (exponent ++ rest).head?, c.isDigit = false ∧ c ≠ '.' := by
        intro c hc
        exact ⟨Bool.eq_false_iff.2 fun hdigit => hgoes ⟨c, hc, .inl hdigit⟩,
          fun hpoint => hgoes ⟨c, hc, .inr hpoint⟩⟩
      rw [splitFraction_append hf hstops] at hexponent ⊢
      have hlength := length_le_splitExponent he hexponent
      simp only [List.length_append]
      omega

end Number

namespace Symbol

theorem length_chars (m : Symbol) : m.chars.length = if m ∈ doubles then 2 else 1 := by
  cases m <;> rfl

theorem feed_not_mem_chars (m : Symbol) : '\n' ∉ m.chars := by
  cases m <;> simp [chars]

end Symbol

namespace Scan

theorem longest_numeral {c : Char} {cs digits rest : List Char} (hc : c.isDigit = true)
    (h : splitNumeral (c :: cs) = some (digits, rest)) : Longest Number.IsNumeral digits rest := by
  refine ⟨Number.isNumeral_splitNumeral hc h, ?_⟩
  intro other hother hnumeral
  rw [splitNumeral_chars h] at hother
  obtain ⟨following, heq⟩ := hother
  rw [← heq] at h
  exact Number.length_le_splitNumeral hnumeral h

theorem inWord_of_isWord {cs : List Char} (h : isWord cs = true) : ∀ c ∈ cs, inWord c = true := by
  cases cs with
  | nil => cases h
  | cons c cs =>
    obtain ⟨hc, hcs⟩ := Bool.and_eq_true_iff.1 h
    exact List.forall_mem_cons.2 ⟨inWord_of_startsWord hc, List.all_eq_true.1 hcs⟩

theorem longest_word {c : Char} (hc : startsWord c = true) (cs : List Char) :
    Longest (isWord · = true) (c :: cs.takeWhile inWord) (cs.dropWhile inWord) := by
  have hspan : c :: cs.takeWhile inWord = (c :: cs).takeWhile inWord := by
    simp [inWord_of_startsWord hc]
  refine ⟨?_, ?_⟩
  · exact Bool.and_eq_true_iff.2 ⟨hc, List.all_eq_true.2 fun _ => List.mem_takeWhile_imp⟩
  · intro other hother hword
    rw [List.cons_append, List.takeWhile_append_dropWhile] at hother
    rw [hspan]
    exact length_le_takeWhile (inWord_of_isWord hword) hother

/-- Marks of two characters are tried first. -/
theorem longest_symbol {cs : List Char} {m : Symbol} (h : Symbol.first? cs = some m) :
    Longest (fun cs => ∃ m : Symbol, m.chars = cs) m.chars (cs.drop m.chars.length) := by
  refine ⟨⟨m, rfl⟩, ?_⟩
  rintro _ hother ⟨m', rfl⟩
  rw [Symbol.chars_append_drop h] at hother
  rw [Symbol.length_chars, Symbol.length_chars]
  by_cases hdouble : m' ∈ Symbol.doubles
  · have hfound : (Symbol.doubles.find? fun s => s.chars.isPrefixOf cs).isSome :=
      List.find?_isSome.2 ⟨m', hdouble, List.isPrefixOf_iff_prefix.2 hother⟩
    obtain ⟨first, hfirst⟩ := Option.isSome_iff_exists.1 hfound
    rw [Symbol.first?, List.find?_append, hfirst] at h
    obtain rfl := Option.some.inj h
    rw [if_pos hdouble, if_pos (List.mem_of_find?_eq_some hfirst)]
  · rw [if_neg hdouble]
    split <;> omega

theorem not_infix_splitComment {cs body rest : List Char}
    (h : splitComment cs = some (body, rest)) : ¬['*', '/'] <:+: body := by
  fun_induction splitComment cs generalizing body rest with
  | case1 => cases h
  | case2 r =>
    cases h
    simp
  | case3 c r hnext ih =>
    obtain ⟨⟨body, rest⟩, hbody, heq⟩ := Option.map_eq_some_iff.1 h
    cases heq
    intro hend
    rcases List.infix_cons_iff.1 hend with hstart | hlater
    · obtain ⟨more, hmore⟩ := hstart
      obtain ⟨rfl, rfl⟩ : '*' = c ∧ '/' :: more = body := by simpa using hmore
      exact hnext _ rfl (splitComment_chars hbody).symm
    · exact ih hbody hlater

theorem resolves_splitRaw {cs raw rest : List Char} (h : splitRaw cs = some (raw, rest)) :
    ∃ content, Text.Resolves raw content := by
  fun_induction splitRaw cs generalizing raw rest with
  | case1 => cases h
  | case2 r =>
    cases h
    exact ⟨[], .nil⟩
  | case3 c r ih =>
    obtain ⟨⟨raw, rest⟩, hraw, heq⟩ := Option.map_eq_some_iff.1 h
    cases heq
    obtain ⟨content, hcontent⟩ := ih hraw
    exact ⟨_, .escape c hcontent⟩
  | case4 c r hquote hnext ih =>
    obtain ⟨⟨raw, rest⟩, hraw, heq⟩ := Option.map_eq_some_iff.1 h
    cases heq
    obtain ⟨content, hcontent⟩ := ih hraw
    -- a backslash at the end of the text escapes nothing, but then no quote follows, either
    have hslash : c ≠ '\\' := by
      rintro rfl
      cases r with
      | nil => cases hraw
      | cons c' r => exact hnext c' r rfl rfl
    exact ⟨_, .plain hquote hslash hcontent⟩

end Scan

namespace Piece

def OpensComment (cs : List Char) : Prop := ['/', '/'] <+: cs ∨ ['/', '*'] <+: cs

/-- What a piece must be like in front of what follows it. -/
def Whole (following : List Char) : Piece → Prop
  | blank c => Scan.isBlank c = true
  | lineComment body => '\n' ∉ body ∧ ∀ c ∈ following.head?, c = '\n'
  | blockComment body => ¬['*', '/'] <:+: body
  | numeral digits => Longest Number.IsNumeral digits following
  | text raw => ∃ content, Text.Resolves raw content
  | word letters => Longest (Scan.isWord · = true) letters following
  | symbol mark => Longest (fun cs => ∃ m : Symbol, m.chars = cs) mark.chars following ∧
    ¬OpensComment (mark.chars ++ following)

/-- What a piece says: all but texts say themselves, and reserved words are no identifiers. -/
inductive Says : Piece → Option Lexeme → Prop
  | blank (c : Char) : Says (.blank c) none
  | lineComment (body : List Char) : Says (.lineComment body) none
  | blockComment (body : List Char) : Says (.blockComment body) none
  | number (numeral : String) : Says (.numeral numeral.toList) (some (.number numeral))
  | text {raw : List Char} {content : String} (h : Text.Resolves raw content.toList) :
    Says (.text raw) (some (.text content))
  | ident {name : String} (h : ∀ k : Keyword, k.text ≠ name) :
    Says (.word name.toList) (some (.ident name))
  | keyword (k : Keyword) : Says (.word k.text.toList) (some (.keyword k))
  | symbol (m : Symbol) : Says (.symbol m) (some (.symbol m))

end Piece

namespace Scan

theorem whole_firstLexeme {c : Char} {cs rest : List Char} {p : Piece}
    (hopens : ¬Piece.OpensComment (c :: cs)) (h : firstLexeme c cs = .ok (p, rest)) :
    p.Whole rest := by
  unfold firstLexeme at h
  split at h
  · rename_i hc
    split at h
    · rename_i hs
      cases h
      exact longest_numeral hc hs
    · cases h
  · split at h
    · split at h
      · rename_i hs
        cases h
        exact resolves_splitRaw hs
      · cases h
    · split at h
      · rename_i hc
        cases h
        exact longest_word hc cs
      · split at h
        · rename_i hs
          cases h
          refine ⟨longest_symbol hs, ?_⟩
          rwa [Symbol.chars_append_drop hs]
        · cases h

/-- What is cut off a text is whole. -/
theorem whole_firstPiece {c : Char} {cs rest : List Char} {p : Piece}
    (h : firstPiece c cs = .ok (p, rest)) : p.Whole rest := by
  unfold firstPiece at h
  split at h
  · rename_i cs
    cases h
    refine ⟨fun hfeed => ?_, fun c hc => ?_⟩
    · simpa using List.mem_takeWhile_imp hfeed
    · have hdropped := List.head?_dropWhile_not (fun c => decide (c ≠ '\n')) cs
      rw [hc] at hdropped
      simpa using hdropped
  · split at h
    · rename_i hs
      cases h
      exact not_infix_splitComment hs
    · cases h
  · rename_i hline hblock
    split at h
    · rename_i hblank
      cases h
      exact hblank
    · refine whole_firstLexeme ?_ h
      rintro (⟨more, hmore⟩ | ⟨more, hmore⟩)
      · obtain ⟨rfl, rfl⟩ := List.cons.inj hmore
        exact hline more rfl rfl
      · obtain ⟨rfl, rfl⟩ := List.cons.inj hmore
        exact hblock more rfl rfl

theorem says_wordLexeme (letters : List Char) :
    (Piece.word letters).Says (some (Piece.wordLexeme letters)) := by
  rw [← String.toList_ofList (l := letters)]
  generalize String.ofList letters = word
  unfold Piece.wordLexeme
  rw [String.ofList_toList]
  cases hk : Keyword.ofText? word with
  | some k =>
    obtain rfl : k.text = word := by simpa using List.find?_some hk
    exact .keyword k
  | none =>
    refine .ident fun k htext => ?_
    have hmem : k ∈ Keyword.all := by cases k <;> simp [Keyword.all]
    simpa [htext] using List.find?_eq_none.1 hk k hmem

theorem says_lexeme? {p : Piece} {following : List Char} (h : p.Whole following) :
    p.Says p.lexeme? := by
  cases p with
  | blank c => exact .blank c
  | lineComment body => exact .lineComment body
  | blockComment body => exact .blockComment body
  | numeral digits =>
    have hmeans := Piece.Says.number (String.ofList digits)
    rwa [String.toList_ofList] at hmeans
  | text raw =>
    obtain ⟨content, hcontent⟩ := h
    refine .text ?_
    rw [String.toList_ofList, hcontent.unescape_eq]
    exact hcontent
  | word letters => exact says_wordLexeme letters
  | symbol mark => exact .symbol mark

/-- A text that whole pieces make up one after the other, and the lexemes among what they say. -/
inductive Tiled : List Char → List Lexeme → Prop
  | nil : Tiled [] []
  | cons {piece : Piece} {following : List Char} {l : Option Lexeme} {ls : List Lexeme}
    (hwhole : piece.Whole following) (hmeans : piece.Says l) (h : Tiled following ls) :
    Tiled (piece.chars ++ following) (l.toList ++ ls)

theorem tiled_pieces {cs : List Char} (h : (pieces cs).2 = none) :
    Tiled cs ((pieces cs).1.filterMap Piece.lexeme?) := by
  fun_induction pieces cs with
  | case1 => exact .nil
  | case2 c cs fault hfirst => cases h
  | case3 c cs piece rest hfirst ps fault hps ih =>
    rw [hps] at ih
    have hwhole := whole_firstPiece hfirst
    have htiled := Tiled.cons hwhole (says_lexeme? hwhole) (ih h)
    rw [firstPiece_chars hfirst] at htiled
    cases hl : piece.lexeme? with
    | none => simpa [hl] using htiled
    | some l => simpa [hl] using htiled

/-- What holds of all that a whole piece can say holds of the lexemes. -/
theorem Tiled.forall_lexemes {P : Lexeme → Prop}
    (hP : ∀ {piece : Piece} {following : List Char} {l : Lexeme}, piece.Whole following →
      piece.Says (some l) → P l)
    {cs : List Char} {ls : List Lexeme} (h : Tiled cs ls) : ∀ l ∈ ls, P l := by
  induction h with
  | nil =>
    intro l hl
    cases hl
  | cons hwhole hmeans _ ih =>
    intro l hl
    rcases List.mem_append.1 hl with hfirst | hlater
    · rw [Option.mem_toList] at hfirst
      subst hfirst
      exact hP hwhole hmeans
    · exact ih l hlater

theorem forall_tokens {P : Lexeme → Prop}
    (hP : ∀ {piece : Piece} {following : List Char} {l : Lexeme}, piece.Whole following →
      piece.Says (some l) → P l)
    {source : String} (h : (ofSource source).error? = none) :
    ∀ t ∈ (ofSource source).tokens, P t.lexeme := by
  intro t ht
  have htiled := tiled_pieces (Option.map_eq_none_iff.1 h)
  rw [← lexemes_place .start] at htiled
  exact htiled.forall_lexemes hP _ (List.mem_map_of_mem ht)

/-- A script that can be read to its end is made of blanks, whole comments and lexemes, one after
the other. Its tokens are these lexemes, each the longest of its class: numbers, words and marks
say themselves, and texts say their content. No mark starts where a comment does. -/
theorem ofSource_tiled (source : String) (h : (ofSource source).error? = none) :
    Tiled source.toList ((ofSource source).tokens.map (·.lexeme)) := by
  have hfault : (pieces source.toList).2 = none := Option.map_eq_none_iff.1 h
  have htokens : (ofSource source).tokens.map (·.lexeme) =
      (pieces source.toList).1.filterMap Piece.lexeme? :=
    lexemes_place .start _
  rw [htokens]
  exact tiled_pieces hfault

/-- A word may start with a reserved one, and a point belongs to a numeral only in front of a
digit. -/
theorem ofSource_tiled_marks :
    let source := "if1/2.e3<==/*/*/->\"\\\"\\q\"//x"
    let lexemes : List Lexeme := [.ident "if1", .symbol .slash, .number "2", .symbol .dot,
      .ident "e3", .symbol .lessEq, .symbol .assign, .symbol .arrow, .text "\"q"]
    (ofSource source).error? = none ∧ Tiled source.toList lexemes := by
  intro source lexemes
  have hnone : (ofSource source).error? = none := by decide +kernel
  have htokens : (ofSource source).tokens.map (·.lexeme) = lexemes := by decide +kernel
  exact ⟨hnone, htokens ▸ ofSource_tiled source hnone⟩

end Scan

end Rustlet
