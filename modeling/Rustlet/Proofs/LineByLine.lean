import Rustlet.Proofs.TruePlaces

/-! A line feed ends whatever the end of a text would end. -/
namespace Rustlet

namespace Scan

variable (t : List Char)

theorem span_feed (kind : Char → Bool) (hkind : kind '\n' = false) (cs : List Char) :
    (cs ++ '\n' :: t).takeWhile kind = cs.takeWhile kind ∧
      (cs ++ '\n' :: t).dropWhile kind = cs.dropWhile kind ++ '\n' :: t := by
  induction cs with
  | nil => simp [hkind]
  | cons c cs ih =>
    by_cases hc : kind c = true
    · simp [hc, ih]
    · simp [hc]

theorem splitComment_append_right {cs body rest : List Char}
    (h : splitComment cs = some (body, rest)) :
    splitComment (cs ++ t) = some (body, rest ++ t) := by
  fun_induction splitComment cs generalizing body rest with
  | case1 => cases h
  | case2 r =>
    cases h
    rfl
  | case3 c r hnext ih =>
    obtain ⟨⟨body, rest⟩, hbody, heq⟩ := Option.map_eq_some_iff.1 h
    cases heq
    rw [List.cons_append, splitComment, ih hbody]
    · rfl
    · rintro r' rfl happend
      cases r with
      | nil => cases hbody
      | cons c r =>
        obtain ⟨rfl, -⟩ := List.cons.inj happend
        exact hnext r rfl rfl

theorem splitRaw_append_right {cs raw rest : List Char} (h : splitRaw cs = some (raw, rest)) :
    splitRaw (cs ++ t) = some (raw, rest ++ t) := by
  fun_induction splitRaw cs generalizing raw rest with
  | case1 => cases h
  | case2 r =>
    cases h
    rfl
  | case3 c r ih =>
    obtain ⟨⟨raw, rest⟩, hraw, heq⟩ := Option.map_eq_some_iff.1 h
    cases heq
    rw [List.cons_append, List.cons_append, splitRaw, ih hraw]
    rfl
  | case4 c r hquote hnext ih =>
    obtain ⟨⟨raw, rest⟩, hraw, heq⟩ := Option.map_eq_some_iff.1 h
    cases heq
    rw [List.cons_append, splitRaw, ih hraw]
    · rfl
    · exact hquote
    · rintro c' r' rfl happend
      cases r with
      | nil => cases hraw
      | cons c r => exact hnext c r rfl rfl

theorem splitFraction_feed (cs : List Char) :
    splitFraction (cs ++ '\n' :: t) =
      ((splitFraction cs).1, (splitFraction cs).2 ++ '\n' :: t) := by
  fun_cases splitFraction cs with
  | case1 d rest hd =>
    obtain ⟨htake, hdrop⟩ := span_feed t Char.isDigit rfl rest
    simp [splitFraction, hd, htake, hdrop]
  | case2 d rest hd => simp [splitFraction, hd]
  | case3 cs hnext =>
    cases cs with
    | nil => rfl
    | cons c cs =>
      by_cases hc : c = '.'
      · subst hc
        cases cs with
        | nil => rfl
        | cons d cs => exact (hnext d cs rfl).elim
      · simp [splitFraction, hc]

theorem splitSign_feed (cs : List Char) :
    splitSign (cs ++ '\n' :: t) = ((splitSign cs).1, (splitSign cs).2 ++ '\n' :: t) := by
  fun_cases splitSign cs with
  | case1 c rest hc => simp [splitSign, hc]
  | case2 c rest hc => simp [splitSign, hc]
  | case3 => rfl

theorem splitExponent_feed {cs exponent rest : List Char}
    (h : splitExponent cs = some (exponent, rest)) :
    splitExponent (cs ++ '\n' :: t) = some (exponent, rest ++ '\n' :: t) := by
  cases cs with
  | nil =>
    cases h
    rfl
  | cons m cs =>
    simp only [splitExponent] at h
    simp only [List.cons_append, splitExponent, splitSign_feed]
    split at h
    · rename_i hm
      rw [if_pos hm]
      split at h
      · rename_i d more hsign
        simp only [hsign, List.cons_append]
        split at h
        · rename_i hd
          cases h
          obtain ⟨htake, hdrop⟩ := span_feed t Char.isDigit rfl more
          rw [if_pos hd, htake, hdrop]
        · cases h
      · cases h
    · rename_i hm
      cases h
      rw [if_neg hm]
      rfl

theorem splitNumeral_feed {cs digits rest : List Char}
    (h : splitNumeral cs = some (digits, rest)) :
    splitNumeral (cs ++ '\n' :: t) = some (digits, rest ++ '\n' :: t) := by
  obtain ⟨⟨exponent, following⟩, hexponent, heq⟩ := Option.map_eq_some_iff.1 h
  cases heq
  obtain ⟨htake, hdrop⟩ := span_feed t Char.isDigit rfl cs
  have hfeed := splitExponent_feed t hexponent
  simp only [splitNumeral, htake, hdrop, splitFraction_feed, hfeed, Option.map_some]

theorem isPrefixOf_feed {mark : List Char} (hmark : '\n' ∉ mark) (cs : List Char) :
    mark.isPrefixOf (cs ++ '\n' :: t) = mark.isPrefixOf cs := by
  induction mark generalizing cs with
  | nil => rfl
  | cons m mark ih =>
    have hm : m ≠ '\n' := fun hm => hmark (hm ▸ List.mem_cons_self)
    have hmore : '\n' ∉ mark := fun hmore => hmark (List.mem_cons_of_mem m hmore)
    cases cs with
    | nil => simp [List.isPrefixOf, hm]
    | cons c cs => simp only [List.cons_append, List.isPrefixOf_cons_cons, ih hmore]

theorem first?_feed (cs : List Char) : Symbol.first? (cs ++ '\n' :: t) = Symbol.first? cs := by
  unfold Symbol.first?
  congr 1
  funext m
  exact isPrefixOf_feed t m.feed_not_mem_chars cs

theorem firstLexeme_feed {c : Char} {cs rest : List Char} {p : Piece}
    (h : firstLexeme c cs = .ok (p, rest)) :
    firstLexeme c (cs ++ '\n' :: t) = .ok (p, rest ++ '\n' :: t) := by
  unfold firstLexeme at h ⊢
  split at h
  · rename_i hc
    rw [if_pos hc]
    split at h
    · rename_i hs
      cases h
      rw [← List.cons_append, splitNumeral_feed t hs]
    · cases h
  · rename_i hc
    rw [if_neg hc]
    split at h
    · rename_i hquote
      rw [if_pos hquote]
      split at h
      · rename_i hs
        cases h
        rw [splitRaw_append_right _ hs]
      · cases h
    · rename_i hquote
      rw [if_neg hquote]
      split at h
      · rename_i hword
        cases h
        obtain ⟨htake, hdrop⟩ := span_feed t inWord rfl cs
        rw [if_pos hword, htake, hdrop]
      · rename_i hword
        rw [if_neg hword, ← List.cons_append, first?_feed]
        split at h
        · rename_i mark hs
          cases h
          have hchars := congrArg List.length (Symbol.chars_append_drop hs)
          rw [List.length_append] at hchars
          rw [List.drop_append_of_le_length (by omega)]
        · cases h

/-- In front of a line feed the first piece is cut off as at the end of the text. -/
theorem firstPiece_feed {c : Char} {cs rest : List Char} {p : Piece}
    (h : firstPiece c cs = .ok (p, rest)) :
    firstPiece c (cs ++ '\n' :: t) = .ok (p, rest ++ '\n' :: t) := by
  unfold firstPiece at h
  split at h
  · rename_i cs
    cases h
    obtain ⟨htake, hdrop⟩ := span_feed t (· ≠ '\n') rfl cs
    rw [List.cons_append, firstPiece, htake, hdrop]
  · rename_i cs
    split at h
    · rename_i hs
      cases h
      rw [List.cons_append, firstPiece, splitComment_append_right _ hs]
    · cases h
  · rename_i hline hblock
    have hsame : ∀ {d : Char} {more : List Char}, d ≠ '\n' → cs ++ '\n' :: t = d :: more →
        ∃ more, cs = d :: more := by
      intro d more hd happend
      cases cs with
      | nil => exact absurd (List.cons.inj happend).1.symm hd
      | cons c' cs => exact ⟨cs, by rw [(List.cons.inj happend).1]⟩
    have hother : firstPiece c (cs ++ '\n' :: t) =
        if isBlank c then .ok (.blank c, cs ++ '\n' :: t)
        else firstLexeme c (cs ++ '\n' :: t) := by
      rw [firstPiece]
      · intro more hc happend
        obtain ⟨cs', hcs⟩ := hsame (by decide) happend
        exact hline cs' hc hcs
      · intro more hc happend
        obtain ⟨cs', hcs⟩ := hsame (by decide) happend
        exact hblock cs' hc hcs
    rw [hother]
    split at h
    · rename_i hblank
      cases h
      rw [if_pos hblank]
    · rename_i hblank
      rw [if_neg hblank]
      exact firstLexeme_feed t h

/-- The pieces of a text stay the same in front of a line feed, and those of what follows it are
cut off on their own. -/
theorem pieces_feed {cs : List Char} (h : (pieces cs).2 = none) :
    pieces (cs ++ '\n' :: t) =
      ((pieces cs).1 ++ .blank '\n' :: (pieces t).1, (pieces t).2) := by
  fun_induction pieces cs with
  | case1 => exact pieces_cons rfl
  | case2 c cs fault hfirst => cases h
  | case3 c cs piece rest hfirst ps fault hps ih =>
    rw [hps] at ih
    rw [List.cons_append, pieces_cons (firstPiece_feed t hfirst), ih h]
    rfl

end Scan

namespace Pos

/-- The same column, `k` lines further down. -/
def down (k : Nat) (p : Pos) : Pos := ⟨p.line + k, p.column⟩

variable (k : Nat) (p : Pos)

theorem next_down (c : Char) : (p.down k).next c = (p.next c).down k := by
  unfold next
  split
  · simp only [nextLine, down, Nat.add_right_comm]
  · rfl

theorem nextAll_down (cs : List Char) : (p.down k).nextAll cs = (p.nextAll cs).down k := by
  induction cs generalizing p with
  | nil => rfl
  | cons c cs ih => rw [nextAll_cons, nextAll_cons, next_down, ih]

end Pos

namespace Piece

variable (k : Nat) (p : Pos)

theorem pastRaw_down (raw : List Char) : pastRaw (p.down k) raw = (pastRaw p raw).down k := by
  fun_induction pastRaw p raw with
  | case1 p => rfl
  | case2 p c rest ih => exact ih
  | case3 p c rest hc ih =>
    rw [pastRaw, Pos.next_down, ih]
    exact hc

/-- A piece goes over as many lines and columns wherever it stands in the line. -/
theorem after_down (piece : Piece) : piece.after (p.down k) = (piece.after p).down k := by
  cases piece with
  | blank c => exact p.next_down k c
  | blockComment body => exact congrArg (Pos.right · 2) ((p.right 2).nextAll_down k body)
  | text raw => exact congrArg (Pos.right · 1) (pastRaw_down k (p.right 1) raw)
  | _ => rfl

end Piece

/-- The same token, `k` lines further down. -/
def Token.down (k : Nat) (t : Token) : Token := ⟨t.lexeme, t.pos.down k⟩

namespace Scan

theorem place_down (k : Nat) (p : Pos) (ps : List Piece) :
    place (p.down k) ps = ((place p ps).1.map (Token.down k), (place p ps).2.down k) := by
  induction ps generalizing p with
  | nil => rfl
  | cons piece rest ih =>
    rw [place_cons, place_cons, Piece.after_down, ih]
    cases piece.lexeme? with
    | none => rfl
    | some l => rfl

/-- A text that can be read to its end, a line feed and any other text have the tokens of the first
and then those of the second, further down by the lines of the first. Reading ends where the second
text ends, or fails as it does. -/
theorem ofSource_lines (s t : String) (h : (ofSource s).error? = none) :
    let k := (ofSource s).stop.line
    ofSource (s ++ "\n" ++ t) = ⟨(ofSource s).tokens ++ (ofSource t).tokens.map (Token.down k),
        (ofSource t).stop.down k, (ofSource t).fault?⟩ ∧
      (ofSource (s ++ "\n" ++ t)).error? =
        (ofSource t).error?.map fun e => ⟨e.fault, e.pos.down k⟩ := by
  intro k
  have hnone : (pieces s.toList).2 = none := Option.map_eq_none_iff.1 h
  have htext : (s ++ "\n" ++ t).toList = s.toList ++ '\n' :: t.toList := by simp
  have hnext : (Piece.blank '\n').after (ofSource s).stop = Pos.start.down k := by
    simp only [Piece.after, Pos.next, if_true, Pos.nextLine, Pos.down, Pos.start, Nat.add_comm 1]
    rfl
  have hsource : ofSource (s ++ "\n" ++ t) =
      ⟨(ofSource s).tokens ++ (ofSource t).tokens.map (Token.down k),
        (ofSource t).stop.down k, (ofSource t).fault?⟩ := by
    have hplace : place .start ((pieces s.toList).1 ++ .blank '\n' :: (pieces t.toList).1) =
        ((ofSource s).tokens ++ (ofSource t).tokens.map (Token.down k),
          (ofSource t).stop.down k) := by
      rw [place_append, place_cons]
      change (_ ++ (place ((Piece.blank '\n').after (ofSource s).stop) _).1,
        (place ((Piece.blank '\n').after (ofSource s).stop) _).2) = _
      rw [hnext, place_down]
      rfl
    simp only [ofSource, htext, pieces_feed t.toList hnone, hplace]
  refine ⟨hsource, ?_⟩
  rw [hsource, error?, error?, Option.map_map]
  rfl

/-- A numeral does not go on in the next line, a line comment ends there, and a text that is not
closed is told in its own line. -/
theorem ofSource_lines_comment :
    let s := "1. // a"
    let t := "5\n \"b"
    (ofSource s).error? = none ∧
      (ofSource (s ++ "\n" ++ t)).tokens =
        [⟨.number "1", ⟨1, 1⟩⟩, ⟨.symbol .dot, ⟨1, 2⟩⟩, ⟨.number "5", ⟨2, 1⟩⟩] ∧
      (ofSource (s ++ "\n" ++ t)).error? = some ⟨.unclosedText, ⟨3, 2⟩⟩ := by
  intro s t
  have hnone : (ofSource s).error? = none := by decide +kernel
  obtain ⟨hsource, herror⟩ := ofSource_lines s t hnone
  refine ⟨hnone, ?_, ?_⟩
  · rw [hsource]
    decide +kernel
  · rw [herror]
    decide +kernel

end Scan

end Rustlet
