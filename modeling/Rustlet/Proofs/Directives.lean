import Mathlib.Data.List.DropRight
import Rustlet.Pragma
import Rustlet.Proofs.Tiling

/-! Directives are looked for line by line, without cutting the script into pieces. -/
namespace Rustlet

namespace Text

variable {c : Char} {cs blanks core : List Char} {sep : Char} {line : List Char}

theorem strip_cons_of_isBlank (h : isBlank c = true) (cs : List Char) :
    strip (c :: cs) = strip cs := by
  simp [strip, h]

theorem strip_cons_of_not_isBlank (h : isBlank c = false) (cs : List Char) :
    strip (c :: cs) = c :: cs.rdropWhile isBlank := by
  simp only [strip, List.dropWhile_cons, h, Bool.false_eq_true, ↓reduceIte, List.reverse_cons,
    List.dropWhile_append, List.rdropWhile]
  split
  · rename_i hempty
    rw [List.isEmpty_iff.1 hempty]
    rfl
  · rw [List.reverse_append]
    rfl

/-- White space at the end makes no difference. -/
theorem strip_append_of_isBlank (h : ∀ c ∈ blanks, isBlank c = true) (cs : List Char) :
    strip (cs ++ blanks) = strip cs := by
  have hend : ∀ core : List Char, (core ++ blanks).reverse.dropWhile isBlank =
      core.reverse.dropWhile isBlank := by
    intro core
    rw [List.reverse_append, List.dropWhile_append_of_pos]
    intro c hc
    exact h c (List.mem_reverse.1 hc)
  unfold strip
  rw [List.dropWhile_append]
  split
  · rename_i hempty
    have hnil : cs.dropWhile isBlank = [] := List.isEmpty_iff.1 hempty
    have hblanks : blanks.dropWhile isBlank = [] := List.dropWhile_eq_nil_iff.2 h
    rw [hnil, hblanks]
  · rw [hend]

theorem strip_rdropWhile (cs : List Char) : strip (cs.rdropWhile isBlank) = strip cs := by
  conv_rhs => rw [← List.rdropWhile_append_rtakeWhile (p := isBlank) (l := cs)]
  exact (strip_append_of_isBlank (fun _ hc => List.mem_rtakeWhile_imp hc) _).symm

/-- What is left of a text is what stands between white space. -/
theorem strip_eq_iff (hhead : ∀ c ∈ core.head?, isBlank c = false)
    (hlast : ∀ c ∈ core.getLast?, isBlank c = false) :
    strip cs = core ↔ ∃ before after, cs = before ++ core ++ after ∧
      (∀ c ∈ before, isBlank c = true) ∧ ∀ c ∈ after, isBlank c = true := by
  constructor
  · intro h
    refine ⟨cs.takeWhile isBlank, (cs.dropWhile isBlank).rtakeWhile isBlank, ?_, ?_, ?_⟩
    · subst h
      change cs = cs.takeWhile isBlank ++ (cs.dropWhile isBlank).rdropWhile isBlank ++ _
      rw [List.append_assoc, List.rdropWhile_append_rtakeWhile, List.takeWhile_append_dropWhile]
    · exact fun _ hc => List.mem_takeWhile_imp hc
    · exact fun _ hc => List.mem_rtakeWhile_imp hc
  · rintro ⟨before, after, rfl, hbefore, hafter⟩
    rw [strip_append_of_isBlank hafter, strip, List.dropWhile_append_of_pos hbefore]
    have hfront : core.dropWhile isBlank = core := by
      cases core with
      | nil => rfl
      | cons c rest => rw [List.dropWhile_cons, hhead c rfl]; rfl
    rw [hfront]
    change core.rdropWhile isBlank = core
    cases core using List.reverseRecOn with
    | nil => rfl
    | append_singleton front c =>
      rw [List.rdropWhile_concat_neg]
      rw [hlast c (by simp)]
      exact Bool.false_ne_true

theorem splitOn_of_not_mem (h : sep ∉ line) : splitOn sep line = [line] := by
  induction line with
  | nil => rfl
  | cons c line ih =>
    obtain ⟨hc, hline⟩ := not_or.1 (mt List.mem_cons.2 h)
    rw [splitOn, if_neg (Ne.symm hc), ih hline]

theorem splitOn_append (h : sep ∉ line) (rest : List Char) :
    splitOn sep (line ++ sep :: rest) = line :: splitOn sep rest := by
  induction line with
  | nil => rw [List.nil_append, splitOn, if_pos rfl]
  | cons c line ih =>
    obtain ⟨hc, hline⟩ := not_or.1 (mt List.mem_cons.2 h)
    rw [List.cons_append, splitOn, if_neg (Ne.symm hc), ih hline]

/-- Every text has a first line, which the text begins with. -/
theorem exists_splitOn (sep : Char) (cs : List Char) :
    ∃ line rest, splitOn sep cs = line :: rest ∧ line <+: cs := by
  induction cs with
  | nil => exact ⟨[], [], rfl, List.nil_prefix⟩
  | cons c cs ih =>
    obtain ⟨line, rest, hlines, hprefix⟩ := ih
    by_cases hc : c = sep
    · exact ⟨[], splitOn sep cs, by rw [splitOn, if_pos hc], List.nil_prefix⟩
    · refine ⟨c :: line, rest, ?_, List.cons_prefix_cons.2 ⟨rfl, hprefix⟩⟩
      rw [splitOn, if_neg hc, hlines]

end Text

namespace Scan

theorem not_isBlank_of_inWord {c : Char} (h : inWord c = true) : Text.isBlank c = false := by
  by_contra hblank
  change (((decide (c.val ≥ 'A'.val ∧ c.val ≤ 'Z'.val) ||
    decide (c.val ≥ 'a'.val) && decide (c.val ≤ 'z'.val)) ||
      decide (c.val ≥ '0'.val) && decide (c.val ≤ '9'.val)) || decide (c = '_')) = true at h
  simp only [Text.isBlank, Bool.or_eq_true, Bool.and_eq_true, decide_eq_true_eq,
    Bool.not_eq_false, ge_iff_le, UInt32.le_iff_toNat_le, beq_iff_eq, Char.toNat] at h hblank
  have hupper : 'A'.val.toNat = 65 ∧ 'Z'.val.toNat = 90 := ⟨rfl, rfl⟩
  have hlower : 'a'.val.toNat = 97 ∧ 'z'.val.toNat = 122 := ⟨rfl, rfl⟩
  have hdigit : '0'.val.toNat = 48 ∧ '9'.val.toNat = 57 := ⟨rfl, rfl⟩
  rcases h with h | rfl
  · omega
  · have hscore : '_'.val.toNat = 95 := rfl
    omega

theorem isBlank_of_isBlank {c : Char} (h : isBlank c = true) : Text.isBlank c = true := by
  simp only [isBlank, Bool.or_eq_true, decide_eq_true_eq] at h
  rcases h with ((rfl | rfl) | rfl) | rfl <;> rfl

theorem Symbol.not_isBlank_head (m : Symbol) : ∀ c ∈ m.chars.head?, Text.isBlank c = false := by
  cases m <;> rintro c ⟨⟩ <;> rfl

/-- No lexeme starts with white space. -/
theorem not_isBlank_of_firstLexeme {c : Char} {cs rest : List Char} {p : Piece}
    (h : firstLexeme c cs = .ok (p, rest)) : Text.isBlank c = false := by
  unfold firstLexeme at h
  split at h
  · rename_i hdigit
    exact not_isBlank_of_inWord (inWord_of_isDigit hdigit)
  · split at h
    · rename_i hquote
      rw [hquote]
      rfl
    · split at h
      · rename_i hword
        exact not_isBlank_of_inWord (inWord_of_startsWord hword)
      · split at h
        · rename_i mark hmark
          have hchars := Symbol.chars_append_drop hmark
          cases hm : mark.chars with
          | nil => cases mark <;> cases hm
          | cons a as =>
            rw [hm] at hchars
            obtain ⟨rfl, -⟩ := List.cons.inj hchars
            exact Symbol.not_isBlank_head mark a (by rw [hm]; rfl)
        · cases h

/-- What is neither blank nor a line comment starts with something that is no white space. -/
theorem not_isBlank_of_firstPiece {c : Char} {cs rest : List Char} {p : Piece}
    (h : firstPiece c cs = .ok (p, rest)) (hblank : ∀ b, p ≠ .blank b)
    (hline : ∀ body, p ≠ .lineComment body) :
    Text.isBlank c = false ∧ ¬['/', '/'] <+: c :: cs := by
  unfold firstPiece at h
  split at h
  · cases h
    exact absurd rfl (hline _)
  · exact ⟨rfl, by simp⟩
  · rename_i hslashes hstar
    split at h
    · cases h
      exact absurd rfl (hblank _)
    · refine ⟨not_isBlank_of_firstLexeme h, ?_⟩
      rintro ⟨more, hmore⟩
      obtain ⟨rfl, rfl⟩ := List.cons.inj hmore
      exact hslashes more rfl rfl

end Scan

namespace Pragma

open Scan

/-- The bodies of the line comments among pieces that come before the first token and the first
block comment. -/
def headComments : List Piece → List (List Char)
  | .blank _ :: rest => headComments rest
  | .lineComment body :: rest => body :: headComments rest
  | _ => []

/-- A piece that is no token and no block comment. -/
def Quiet (p : Piece) : Prop := p.lexeme? = none ∧ ∀ body, p ≠ .blockComment body

theorem quiet_blank (c : Char) : Quiet (.blank c) := ⟨rfl, fun _ h => by cases h⟩

theorem quiet_lineComment (body : List Char) : Quiet (.lineComment body) :=
  ⟨rfl, fun _ h => by cases h⟩

theorem Quiet.cases {p : Piece} (h : Quiet p) :
    (∃ c, p = .blank c) ∨ ∃ body, p = .lineComment body := by
  cases p with
  | blank c => exact .inl ⟨c, rfl⟩
  | lineComment body => exact .inr ⟨body, rfl⟩
  | blockComment body => exact absurd rfl (h.2 body)
  | _ => cases h.1

theorem leadingComments_of_nil (lines : List (List Char)) :
    leadingComments ([] :: lines) = leadingComments lines := rfl

theorem leadingComments_of_isBlank {c : Char} (h : Text.isBlank c = true) (line : List Char)
    (lines : List (List Char)) :
    leadingComments ((c :: line) :: lines) = leadingComments (line :: lines) := by
  rw [leadingComments, leadingComments, Text.strip_cons_of_isBlank h]

theorem leadingComments_comment (body : List Char) (lines : List (List Char)) :
    leadingComments (('/' :: '/' :: body) :: lines) = Text.strip body :: leadingComments lines := by
  have hline : Text.strip ('/' :: '/' :: body) = '/' :: '/' :: body.rdropWhile Text.isBlank := by
    rw [Text.strip_cons_of_not_isBlank rfl]
    -- the second slash is kept, since it is not blank
    have hslash := Text.strip_cons_of_not_isBlank (c := '/') rfl body
    exact congrArg _ hslash
  rw [leadingComments, hline]
  exact congrArg (· :: leadingComments lines) (Text.strip_rdropWhile body)

/-- A line with anything else ends the search. -/
theorem leadingComments_other {c : Char} {line : List Char} (hblank : Text.isBlank c = false)
    (hslash : ¬['/', '/'] <+: c :: line) (lines : List (List Char)) :
    leadingComments ((c :: line) :: lines) = [] := by
  rw [leadingComments, Text.strip_cons_of_not_isBlank hblank]
  split
  · rename_i heq
    cases heq
  · rename_i body heq
    obtain ⟨rfl, hrest⟩ := List.cons.inj heq
    have hprefix := List.rdropWhile_prefix Text.isBlank (l := line)
    rw [hrest] at hprefix
    have hline : ['/'] <+: line := (List.prefix_append ['/'] body).trans hprefix
    exact absurd (List.cons_prefix_cons.2 ⟨rfl, hline⟩) hslash
  · rfl

theorem leadingComments_splitOn {cs : List Char} (h : (pieces cs).2 = none) :
    leadingComments (Text.splitOn '\n' cs) = (headComments (pieces cs).1).map Text.strip := by
  fun_induction pieces cs with
  | case1 => rfl
  | case2 c cs fault hfirst => cases h
  | case3 c cs piece rest hfirst ps fault hps ih =>
    rw [hps] at ih
    have hrest := ih h
    have hwhole := whole_firstPiece hfirst
    have hchars := firstPiece_chars hfirst
    cases piece with
    | blank b =>
      obtain ⟨rfl, rfl⟩ : b = c ∧ rest = cs := List.cons.inj hchars
      rw [headComments, ← hrest]
      by_cases hfeed : b = '\n'
      · rw [Text.splitOn, if_pos hfeed, leadingComments_of_nil]
      · obtain ⟨line, lines, hlines, -⟩ := Text.exists_splitOn '\n' rest
        rw [Text.splitOn, if_neg hfeed, hlines]
        exact leadingComments_of_isBlank (isBlank_of_isBlank hwhole) line lines
    | lineComment body =>
      obtain ⟨hbody, hhead⟩ := hwhole
      rw [← hchars, headComments, List.map_cons, ← hrest]
      have hline : '\n' ∉ '/' :: '/' :: body := by simp [hbody]
      cases rest with
      | nil =>
        rw [List.append_nil]
        change leadingComments (Text.splitOn '\n' ('/' :: '/' :: body)) = _
        rw [Text.splitOn_of_not_mem hline, leadingComments_comment]
        rfl
      | cons feed rest =>
        obtain rfl := hhead feed rfl
        change leadingComments (Text.splitOn '\n' ('/' :: '/' :: body ++ '\n' :: rest)) = _
        rw [Text.splitOn_append hline, leadingComments_comment, Text.splitOn, if_pos rfl,
          leadingComments_of_nil]
    | _ =>
      obtain ⟨hblank, hslash⟩ := not_isBlank_of_firstPiece hfirst (fun _ h => by cases h)
        (fun _ h => by cases h)
      obtain ⟨line, lines, hlines, hprefix⟩ := Text.exists_splitOn '\n' cs
      have hfeed : c ≠ '\n' := by
        rintro rfl
        cases hblank
      rw [Text.splitOn, if_neg hfeed, hlines]
      exact leadingComments_other hblank
        (fun h => hslash (h.trans (List.cons_prefix_cons.2 ⟨rfl, hprefix⟩))) lines

theorem mem_headComments_iff {ps : List Piece} {body : List Char} :
    body ∈ headComments ps ↔ ∃ before after, ps = before ++ .lineComment body :: after ∧
      ∀ p ∈ before, Quiet p := by
  constructor
  · intro h
    fun_induction headComments ps with
    | case1 b rest ih =>
      obtain ⟨before, after, rfl, hquiet⟩ := ih h
      exact ⟨.blank b :: before, after, rfl, List.forall_mem_cons.2 ⟨quiet_blank b, hquiet⟩⟩
    | case2 first rest ih =>
      rcases List.mem_cons.1 h with rfl | h
      · exact ⟨[], rest, rfl, by simp⟩
      · obtain ⟨before, after, rfl, hquiet⟩ := ih h
        exact ⟨.lineComment first :: before, after, rfl,
          List.forall_mem_cons.2 ⟨quiet_lineComment first, hquiet⟩⟩
    | case3 => cases h
  · rintro ⟨before, after, rfl, hquiet⟩
    induction before with
    | nil => exact List.mem_cons_self
    | cons p before ih =>
      obtain ⟨hp, hbefore⟩ := List.forall_mem_cons.1 hquiet
      rcases hp.cases with ⟨b, rfl⟩ | ⟨first, rfl⟩
      · exact ih hbefore
      · exact List.mem_cons_of_mem _ (ih hbefore)

/-- Some text, from its last line feed on, is white space. -/
def AtMargin (cs : List Char) : Prop :=
  ∃ lines margin, cs = lines ++ margin ∧ (lines = [] ∨ lines.getLast? = some '\n') ∧
    ∀ c ∈ margin, Text.isBlank c = true

theorem AtMargin.cons_of_isBlank {c : Char} {cs : List Char} (hc : Text.isBlank c = true)
    (h : AtMargin cs) : AtMargin (c :: cs) := by
  obtain ⟨lines, margin, rfl, rfl | hlast, hmargin⟩ := h
  · exact ⟨[], c :: margin, rfl, .inl rfl, List.forall_mem_cons.2 ⟨hc, hmargin⟩⟩
  · refine ⟨c :: lines, margin, rfl, .inr ?_, hmargin⟩
    rw [List.getLast?_cons, hlast]
    rfl

/-- What stands in earlier lines does not matter. -/
theorem AtMargin.append_feed {cs : List Char} (line : List Char) (h : AtMargin ('\n' :: cs)) :
    AtMargin (line ++ '\n' :: cs) := by
  obtain ⟨lines, margin, hsplit, rfl | hlast, hmargin⟩ := h
  · obtain rfl : '\n' :: cs = margin := hsplit
    refine ⟨line ++ ['\n'], cs, by simp, .inr (by simp), ?_⟩
    exact (List.forall_mem_cons.1 hmargin).2
  · refine ⟨line ++ lines, margin, by rw [hsplit, List.append_assoc], .inr ?_, hmargin⟩
    rw [List.getLast?_append, hlast]
    rfl

/-- A line comment with nothing but blanks and line comments before it starts its line. -/
theorem atMargin_of_quiet {cs body : List Char} {before after : List Piece}
    (h : (pieces cs).2 = none) (hsplit : (pieces cs).1 = before ++ .lineComment body :: after)
    (hquiet : ∀ p ∈ before, Quiet p) : AtMargin (before.flatMap Piece.chars) := by
  fun_induction pieces cs generalizing before with
  | case1 => simp at hsplit
  | case2 c cs fault hfirst => cases h
  | case3 c cs piece rest hfirst ps fault hps ih =>
    rw [hps] at ih
    cases before with
    | nil => exact ⟨[], [], rfl, .inl rfl, by simp⟩
    | cons p before =>
      obtain ⟨rfl, hrest⟩ : piece = p ∧ ps = before ++ .lineComment body :: after :=
        List.cons.inj hsplit
      obtain ⟨hp, hbefore⟩ := List.forall_mem_cons.1 hquiet
      have hmargin := ih h hrest hbefore
      have hwhole := whole_firstPiece hfirst
      rw [List.flatMap_cons]
      rcases hp.cases with ⟨b, rfl⟩ | ⟨first, rfl⟩
      · exact hmargin.cons_of_isBlank (isBlank_of_isBlank hwhole)
      · -- Only a line feed can follow a line comment, so it is the next piece.
        cases rest with
        | nil =>
          rw [pieces] at hps
          cases hps
          simp at hrest
        | cons feed rest =>
          obtain rfl := hwhole.2 feed rfl
          have hfeed : firstPiece '\n' rest = .ok (.blank '\n', rest) := rfl
          rw [pieces_cons hfeed] at hps
          obtain ⟨rfl, rfl⟩ := Prod.mk.inj hps
          cases before with
          | nil => cases hrest
          | cons q before =>
            obtain ⟨rfl, -⟩ := List.cons.inj hrest
            exact hmargin.append_feed ('/' :: '/' :: first)

theorem head_strictMovesDirective : ∀ c ∈ strictMovesDirective.head?, Text.isBlank c = false := by
  intro c hc
  obtain rfl : 'p' = c := Option.some.inj hc
  rfl

theorem getLast_strictMovesDirective :
    ∀ c ∈ strictMovesDirective.getLast?, Text.isBlank c = false := by
  intro c hc
  obtain rfl : 's' = c := Option.some.inj hc
  rfl

/-- In a script that can be read as tokens, strict moves are asked for just if the script has a
line comment with no token and no block comment before it and only white space before it in its
line, and the text of that comment, without the white space around it, is the directive. -/
theorem strictMoves_iff (source : String) (h : (Scan.ofSource source).error? = none) :
    strictMoves source = true ↔
      ∃ before body after, (pieces source.toList).1 = before ++ .lineComment body :: after ∧
        (∀ p ∈ before, p.lexeme? = none ∧ ∀ b, p ≠ .blockComment b) ∧
        AtMargin (before.flatMap Piece.chars) ∧
        ∃ left right, body = left ++ "pragma strict-moves".toList ++ right ∧
          (∀ c ∈ left, Text.isBlank c = true) ∧ ∀ c ∈ right, Text.isBlank c = true := by
  have hnone : (pieces source.toList).2 = none := Option.map_eq_none_iff.1 h
  have hdirective : ∀ body, Text.strip body = strictMovesDirective ↔
      ∃ left right, body = left ++ "pragma strict-moves".toList ++ right ∧
        (∀ c ∈ left, Text.isBlank c = true) ∧ ∀ c ∈ right, Text.isBlank c = true :=
    fun body => Text.strip_eq_iff head_strictMovesDirective getLast_strictMovesDirective
  unfold strictMoves
  rw [decide_eq_true_iff, leadingComments_splitOn hnone, List.mem_map]
  simp only [mem_headComments_iff, hdirective]
  constructor
  · rintro ⟨body, ⟨before, after, hsplit, hquiet⟩, hbody⟩
    exact ⟨before, body, after, hsplit, hquiet, atMargin_of_quiet hnone hsplit hquiet, hbody⟩
  · rintro ⟨before, body, after, hsplit, hquiet, -, hbody⟩
    exact ⟨body, ⟨before, after, hsplit, hquiet⟩, hbody⟩

/-- A comment of another kind may come first, and so may white space of any kind around the
directive. -/
theorem strictMoves_iff_second_comment :
    let source := "// moves\n\t //\u00a0pragma strict-moves\u2003\r\nlet x = 1; // y"
    (Scan.ofSource source).error? = none ∧ strictMoves source = true ∧
      ∃ before body after, (pieces source.toList).1 = before ++ .lineComment body :: after ∧
        (∀ p ∈ before, p.lexeme? = none ∧ ∀ b, p ≠ .blockComment b) ∧
        AtMargin (before.flatMap Piece.chars) ∧
        ∃ left right, body = left ++ "pragma strict-moves".toList ++ right ∧
          (∀ c ∈ left, Text.isBlank c = true) ∧ ∀ c ∈ right, Text.isBlank c = true := by
  intro source
  have hnone : (Scan.ofSource source).error? = none := by decide +kernel
  have hstrict : strictMoves source = true := by decide +kernel
  exact ⟨hnone, hstrict, (strictMoves_iff source hnone).1 hstrict⟩

/-- A block comment in front ends the search. -/
example : strictMoves "/* */\n// pragma strict-moves" = false := by decide +kernel

end Pragma

end Rustlet
