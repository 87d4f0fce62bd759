import Mathlib.Data.List.Induction
import Rustlet.Proofs.Places
import Rustlet.Proofs.Tiling

/-! A line feed behind a backslash in a text starts no line, and a line comment has no width. -/
namespace Rustlet

namespace Pos

/-- The true place of an offset in a text. The line is one more than the line feeds before the
offset, and the column one more than the characters after the last of them. -/
def ofOffset (cs : List Char) (offset : Nat) : Pos :=
  ⟨1 + (cs.take offset).count '\n', 1 + ((cs.take offset).reverse.takeWhile (· ≠ '\n')).length⟩

theorem nextAll_append (p : Pos) (cs ds : List Char) :
    p.nextAll (cs ++ ds) = (p.nextAll cs).nextAll ds :=
  List.foldl_append

theorem nextAll_cons (p : Pos) (c : Char) (cs : List Char) :
    p.nextAll (c :: cs) = (p.next c).nextAll cs :=
  rfl

theorem next_of_ne {c : Char} (h : c ≠ '\n') (p : Pos) : p.next c = p.right 1 := if_neg h

theorem right_right (p : Pos) (n k : Nat) : (p.right n).right k = p.right (n + k) := by
  simp only [right, Nat.add_assoc]

/-- Reading characters one by one leads to the true place. -/
theorem nextAll_start (cs : List Char) :
    start.nextAll cs =
      ⟨1 + cs.count '\n', 1 + (cs.reverse.takeWhile (· ≠ '\n')).length⟩ := by
  induction cs using List.reverseRecOn with
  | nil => rfl
  | append_singleton cs c ih =>
    rw [nextAll_append, ih]
    by_cases hc : c = '\n'
    · subst hc
      simp [nextAll, next, nextLine, Nat.add_assoc]
    · simp [nextAll, next, right, hc, Nat.add_assoc]

theorem ofOffset_append (cs following : List Char) :
    ofOffset (cs ++ following) cs.length = start.nextAll cs := by
  rw [nextAll_start, ofOffset, List.take_left]

theorem nextAll_of_not_mem {cs : List Char} (h : '\n' ∉ cs) (p : Pos) :
    p.nextAll cs = p.right cs.length := by
  induction cs generalizing p with
  | nil => rfl
  | cons c cs ih =>
    have hc : c ≠ '\n' := fun hc => h (hc ▸ List.mem_cons_self)
    have hcs : '\n' ∉ cs := fun hcs => h (List.mem_cons_of_mem c hcs)
    rw [nextAll_cons, next_of_ne hc, ih hcs, right_right, List.length_cons, Nat.add_comm]

theorem line_nextAll (p : Pos) (cs : List Char) :
    (p.nextAll cs).line = p.line + cs.count '\n' := by
  induction cs generalizing p with
  | nil => rfl
  | cons c cs ih =>
    rw [nextAll_cons, ih]
    by_cases hc : c = '\n'
    · subst hc
      rw [List.count_cons_self, next, if_pos rfl, nextLine]
      dsimp only
      omega
    · rw [next_of_ne hc, List.count_cons_of_ne hc]
      rfl

end Pos

namespace Number

theorem feed_not_mem_of_isDigits {ds : List Char} (h : IsDigits ds) : '\n' ∉ ds := by
  intro hfeed
  cases List.all_eq_true.1 h.2 _ hfeed

theorem feed_not_mem_of_isNumeral {cs : List Char} (h : IsNumeral cs) : '\n' ∉ cs := by
  obtain ⟨hw, hf, he⟩ := h
  simp only [List.mem_append, not_or]
  refine ⟨feed_not_mem_of_isDigits hw, ?_, ?_⟩
  · cases hf with
    | none => exact List.not_mem_nil
    | some hds => simp [feed_not_mem_of_isDigits hds]
  · cases he with
    | none => exact List.not_mem_nil
    | some hmark hsign hds =>
      have hdigits := feed_not_mem_of_isDigits hds
      simp only [List.mem_cons, List.not_mem_nil, or_false] at hsign
      rcases hmark with rfl | rfl <;> rcases hsign with rfl | rfl | rfl <;> simp [hdigits]

end Number

theorem Scan.feed_not_mem_of_isWord {cs : List Char} (h : isWord cs = true) : '\n' ∉ cs := by
  intro hfeed
  cases inWord_of_isWord h _ hfeed

namespace Piece

/-- How many line feeds stand behind a backslash in the raw content of a text. -/
def hiddenIn : List Char → Nat
  | [] => 0
  | '\\' :: c :: rest => hiddenIn rest + [c].count '\n'
  | _ :: rest => hiddenIn rest

/-- How many line feeds of a piece start no line. -/
def hidden : Piece → Nat
  | text raw => hiddenIn raw
  | blank _ | lineComment _ | blockComment _ | numeral _ | word _ | symbol _ => 0

/-- How many characters pieces cover. -/
def extent (ps : List Piece) : Nat := (ps.flatMap chars).length

variable {piece : Piece} {following : List Char}

theorem count_cons_eq (c : Char) (cs : List Char) :
    (c :: cs).count '\n' = cs.count '\n' + [c].count '\n' := by
  simp only [List.count_cons, List.count_nil, Nat.zero_add]

theorem line_pastRaw (p : Pos) (raw : List Char) :
    (pastRaw p raw).line + hiddenIn raw = p.line + raw.count '\n' := by
  fun_induction pastRaw p raw with
  | case1 p => rfl
  | case2 p c rest ih =>
    have hslash : ('\\' :: c :: rest).count '\n' = (c :: rest).count '\n' := rfl
    have hcount := count_cons_eq c rest
    have hline : (p.right 2).line = p.line := rfl
    rw [hiddenIn, hslash]
    omega
  | case3 p c rest hc ih =>
    have hhidden : hiddenIn (c :: rest) = hiddenIn rest := by rw [hiddenIn]; exact hc
    have hline : (p.next c).line = p.line + [c].count '\n' := p.line_nextAll [c]
    have hcount := count_cons_eq c rest
    rw [hhidden]
    omega

theorem pastRaw_eq {raw : List Char} (h : hiddenIn raw = 0) (p : Pos) :
    pastRaw p raw = p.nextAll raw := by
  fun_induction pastRaw p raw with
  | case1 p => rfl
  | case2 p c rest ih =>
    rw [hiddenIn, Nat.add_eq_zero_iff, List.count_eq_zero] at h
    have hc : c ≠ '\n' := by simpa [eq_comm] using h.2
    have hslash : p.next '\\' = p.right 1 := Pos.next_of_ne (by decide) p
    rw [ih h.1, Pos.nextAll_cons, Pos.nextAll_cons, hslash, Pos.next_of_ne hc, Pos.right_right]
  | case3 p c rest hc ih =>
    have hhidden : hiddenIn (c :: rest) = hiddenIn rest := by rw [hiddenIn]; exact hc
    rw [ih (hhidden ▸ h), Pos.nextAll_cons]

/-- A piece that hides nothing ends where its characters do, unless it is a line comment. -/
theorem Whole.after_eq (h : piece.Whole following) (hhidden : piece.hidden = 0)
    (hcomment : ∀ body, piece ≠ .lineComment body) (p : Pos) :
    piece.after p = p.nextAll piece.chars := by
  cases piece with
  | blank c => rfl
  | lineComment body => exact absurd rfl (hcomment body)
  | blockComment body =>
    have hopen : p.nextAll ['/', '*'] = p.right 2 := Pos.nextAll_of_not_mem (by decide) p
    have hclose := Pos.nextAll_of_not_mem (show '\n' ∉ ['*', '/'] by decide)
    change _ = p.nextAll (['/', '*'] ++ (body ++ ['*', '/']))
    rw [Pos.nextAll_append, hopen, Pos.nextAll_append, hclose]
    rfl
  | numeral digits =>
    exact (Pos.nextAll_of_not_mem (Number.feed_not_mem_of_isNumeral h.1) p).symm
  | text raw =>
    have hquote := Pos.nextAll_of_not_mem (show '\n' ∉ ['"'] by decide)
    change (pastRaw (p.right 1) raw).right 1 = p.nextAll (['"'] ++ (raw ++ ['"']))
    rw [pastRaw_eq hhidden, Pos.nextAll_append, hquote, Pos.nextAll_append, hquote]
    rfl
  | word letters => exact (Pos.nextAll_of_not_mem (Scan.feed_not_mem_of_isWord h.1) p).symm
  | symbol mark => exact (Pos.nextAll_of_not_mem mark.feed_not_mem_chars p).symm

/-- The lines that a piece adds are its line feeds that are not hidden. -/
theorem Whole.line_after (h : piece.Whole following) (p : Pos) :
    (piece.after p).line + piece.hidden = p.line + piece.chars.count '\n' := by
  cases piece with
  | lineComment body =>
    have hfeeds : (lineComment body).chars.count '\n' = 0 := by
      rw [List.count_eq_zero]
      simpa [chars] using h.1
    rw [hfeeds]
    rfl
  | text raw =>
    have hfeeds : (text raw).chars.count '\n' = raw.count '\n' := by simp [chars]
    rw [hfeeds]
    exact line_pastRaw (p.right 1) raw
  | _ =>
    rw [h.after_eq rfl fun body hcomment => by cases hcomment]
    exact p.line_nextAll _

theorem Whole.chars_ne_nil (h : piece.Whole following) : piece.chars ≠ [] := by
  cases piece with
  | numeral digits =>
    obtain ⟨d, ds, rfl, -⟩ := h.1.exists_cons
    exact List.cons_ne_nil d ds
  | word letters =>
    rintro rfl
    cases h.1
  | symbol mark => cases mark <;> exact List.cons_ne_nil _ _
  | _ => exact List.cons_ne_nil _ _

/-- Where a text goes on with a line feed, the next piece is this line feed. -/
theorem Whole.eq_blank (h : piece.Whole following)
    (hfeed : ∀ c ∈ (piece.chars ++ following).head?, c = '\n') : piece = .blank '\n' := by
  obtain ⟨c, cs, hchars⟩ := List.exists_cons_of_ne_nil h.chars_ne_nil
  rw [hchars] at hfeed
  obtain rfl : c = '\n' := hfeed c rfl
  have hmem : '\n' ∈ piece.chars := hchars ▸ List.mem_cons_self
  cases piece with
  | blank c =>
    obtain ⟨rfl, -⟩ := List.cons.inj hchars
    rfl
  | lineComment body => cases hchars
  | blockComment body => cases hchars
  | text raw => cases hchars
  | numeral digits => exact absurd hmem (Number.feed_not_mem_of_isNumeral h.1)
  | word letters => exact absurd hmem (Scan.feed_not_mem_of_isWord h.1)
  | symbol mark => exact absurd hmem mark.feed_not_mem_chars

end Piece

namespace Scan

/-- Pieces that have been cut off a text one by one, and what is left. -/
inductive Cut (cs : List Char) : List Piece → List Char → Prop
  | start : Cut cs [] cs
  | step {before : List Piece} {piece : Piece} {following : List Char}
    (h : Cut cs before (piece.chars ++ following)) (hwhole : piece.Whole following) :
    Cut cs (before ++ [piece]) following

variable {cs following : List Char} {before : List Piece}

theorem Cut.chars_eq (h : Cut cs before following) :
    before.flatMap Piece.chars ++ following = cs := by
  induction h with
  | start => rfl
  | step h hwhole ih => simpa using ih

/-- The place that is counted for what follows pieces. -/
def counted (before : List Piece) : Pos := (place .start before).2

theorem counted_step (before : List Piece) (piece : Piece) :
    counted (before ++ [piece]) = piece.after (counted before) := by
  unfold counted
  rw [place_append, place_cons]
  rfl

/-- The true place of what follows pieces. -/
def actual (before : List Piece) : Pos := Pos.start.nextAll (before.flatMap Piece.chars)

theorem actual_step (before : List Piece) (piece : Piece) :
    actual (before ++ [piece]) = (actual before).nextAll piece.chars := by
  unfold actual
  rw [List.flatMap_append, Pos.nextAll_append]
  simp

theorem Cut.ofOffset_eq (h : Cut cs before following) :
    Pos.ofOffset cs (Piece.extent before) = actual before := by
  rw [← h.chars_eq]
  exact Pos.ofOffset_append _ _

theorem Cut.line_counted (h : Cut cs before following) :
    (counted before).line + (before.map Piece.hidden).sum = (actual before).line := by
  induction h with
  | start => rfl
  | @step before piece following h hwhole ih =>
    have hline := hwhole.line_after (counted before)
    rw [counted_step, actual_step, Pos.line_nextAll, List.map_append, List.sum_append_nat]
    simp only [List.map_cons, List.map_nil, List.sum_cons, List.sum_nil]
    omega

/-- Behind a line comment the text is at its end or at a line feed. -/
theorem Cut.head_of_lineComment (h : Cut cs before following) {body : List Char}
    (hlast : before.getLast? = some (.lineComment body)) : ∀ c ∈ following.head?, c = '\n' := by
  cases h with
  | start => cases hlast
  | step h hwhole =>
    rw [List.getLast?_concat] at hlast
    obtain rfl := Option.some.inj hlast
    exact hwhole.2

/-- While no line feed is hidden, the counted place stays behind only by a line comment, and the
line feed after it makes up for that. -/
theorem Cut.actual_eq (h : Cut cs before following)
    (hhidden : ∀ piece ∈ before, piece.hidden = 0) :
    (∃ body, before.getLast? = some (.lineComment body) ∧
        actual before = (counted before).right (body.length + 2)) ∨
      (∀ body, before.getLast? ≠ some (.lineComment body)) ∧ actual before = counted before := by
  induction h with
  | start => exact .inr ⟨fun body hlast => (by cases hlast), rfl⟩
  | @step before piece following h hwhole ih =>
    have hbefore := ih fun q hq => hhidden q (List.mem_append_left _ hq)
    have hpiece := hhidden piece (List.mem_append_right _ List.mem_cons_self)
    rw [counted_step, actual_step, List.getLast?_concat]
    rcases hbefore with ⟨body, hlast, hactual⟩ | ⟨-, hactual⟩
    · obtain rfl := hwhole.eq_blank (h.head_of_lineComment hlast)
      rw [hactual]
      exact .inr ⟨fun body hlast => (by cases hlast), rfl⟩
    · rw [hactual]
      by_cases hcomment : ∃ body, piece = .lineComment body
      · obtain ⟨body, rfl⟩ := hcomment
        have hfeed : '\n' ∉ (Piece.lineComment body).chars := by simpa [Piece.chars] using hwhole.1
        exact .inl ⟨body, rfl, Pos.nextAll_of_not_mem hfeed _⟩
      · have hother : ∀ body, piece ≠ .lineComment body := fun body hb => hcomment ⟨body, hb⟩
        refine .inr ⟨fun body hlast => hother body (Option.some.inj hlast), ?_⟩
        rw [hwhole.after_eq hpiece hother]

/-- The counted place is true if no line feed is hidden before it and no line comment ends there. -/
theorem Cut.counted_true_iff (h : Cut cs before following) :
    counted before = .ofOffset cs (Piece.extent before) ↔
      (∀ piece ∈ before, piece.hidden = 0) ∧
        ∀ body, before.getLast? ≠ some (.lineComment body) := by
  rw [h.ofOffset_eq]
  constructor
  · intro htrue
    have hline := h.line_counted
    rw [htrue] at hline
    have hsum : (before.map Piece.hidden).sum = 0 := by omega
    have hhidden : ∀ piece ∈ before, piece.hidden = 0 := by
      intro piece hpiece
      exact List.sum_eq_zero_iff_forall_eq_nat.1 hsum _ (List.mem_map_of_mem hpiece)
    refine ⟨hhidden, fun body hlast => ?_⟩
    rcases h.actual_eq hhidden with ⟨body, -, hactual⟩ | ⟨hnone, -⟩
    · rw [htrue] at hactual
      have hcolumn := congrArg Pos.column hactual
      simp only [Pos.right] at hcolumn
      omega
    · exact hnone body hlast
  · rintro ⟨hhidden, hnone⟩
    rcases h.actual_eq hhidden with ⟨body, hlast, -⟩ | ⟨-, hactual⟩
    · exact absurd hlast (hnone body)
    · exact hactual.symm

/-- What goes on with anything but a line feed does not follow a line comment. -/
theorem Cut.counted_true_iff_of_head (h : Cut cs before following) {c : Char}
    (hhead : following.head? = some c) (hc : c ≠ '\n') :
    counted before = .ofOffset cs (Piece.extent before) ↔ ∀ piece ∈ before, piece.hidden = 0 := by
  rw [h.counted_true_iff]
  refine ⟨fun htrue => htrue.1, fun hhidden => ⟨hhidden, fun body hlast => ?_⟩⟩
  exact hc (h.head_of_lineComment hlast c hhead)

/-- The pieces before each of the pieces that stand for tokens, given those before all of them. -/
def starts (before : List Piece) : List Piece → List (List Piece)
  | [] => []
  | piece :: rest => (piece.lexeme?.map fun _ => before).toList ++ starts (before ++ [piece]) rest

theorem Cut.token_true_iff {piece : Piece} {l : Lexeme}
    (h : Cut cs before (piece.chars ++ following)) (hwhole : piece.Whole following)
    (hl : piece.lexeme? = some l) :
    counted before = .ofOffset cs (Piece.extent before) ↔ ∀ piece ∈ before, piece.hidden = 0 := by
  obtain ⟨c, more, hchars⟩ := List.exists_cons_of_ne_nil hwhole.chars_ne_nil
  have hhead : (piece.chars ++ following).head? = some c := by rw [hchars]; rfl
  refine h.counted_true_iff_of_head hhead ?_
  rintro rfl
  have hblank := hwhole.eq_blank fun c hc => Option.some.inj (hc.symm.trans hhead)
  rw [hblank] at hl
  cases hl

/-- Each token of what follows pieces that have been cut off. -/
theorem Cut.tokens_true_iff (h : Cut cs before following) :
    List.Forall₂ (fun t earlier => t.pos = .ofOffset cs (Piece.extent earlier) ↔
        ∀ piece ∈ earlier, piece.hidden = 0)
      (place (counted before) (pieces following).1).1 (starts before (pieces following).1) := by
  fun_induction pieces following generalizing before with
  | case1 => exact .nil
  | case2 c cs fault hfirst => exact .nil
  | case3 c rest piece following hfirst ps fault hps ih =>
    have hwhole := whole_firstPiece hfirst
    rw [← firstPiece_chars hfirst] at h
    have hlater := ih (h.step hwhole)
    rw [hps, counted_step] at hlater
    rw [place_cons, starts]
    cases hl : piece.lexeme? with
    | none => exact hlater
    | some l => exact .cons (h.token_true_iff hwhole hl) hlater

/-- All pieces can be cut off, up to the end of the text or to a fault. -/
theorem Cut.to_stop (h : Cut cs before following) :
    ∃ rest, Cut cs (before ++ (pieces following).1) rest ∧
      ((pieces following).2 = none ∧ rest = [] ∨
        (pieces following).2 ≠ none ∧ ∃ c, rest.head? = some c ∧ c ≠ '\n') := by
  fun_induction pieces following generalizing before with
  | case1 => exact ⟨[], by simpa using h, .inl ⟨rfl, rfl⟩⟩
  | case2 c rest fault hfirst =>
    refine ⟨c :: rest, by simpa using h, .inr ⟨Option.some_ne_none fault, c, rfl, ?_⟩⟩
    rintro rfl
    cases hfirst
  | case3 c rest piece following hfirst ps fault hps ih =>
    rw [← firstPiece_chars hfirst] at h
    obtain ⟨rest, hcut, hstop⟩ := ih (h.step (whole_firstPiece hfirst))
    rw [hps] at hcut hstop
    exact ⟨rest, by simpa using hcut, hstop⟩

/-- The place of a token, and the place of a fault, is the true one if and only if no line feed
stands behind a backslash in a text before it. The place of the end is the true one if and only if
besides no line comment stands last. -/
theorem places_true_iff (source : String) :
    List.Forall₂ (fun t before => t.pos = .ofOffset source.toList (Piece.extent before) ↔
        ∀ piece ∈ before, piece.hidden = 0)
      (ofSource source).tokens (starts [] (pieces source.toList).1) ∧
    (∀ e, (ofSource source).error? = some e →
      (e.pos = .ofOffset source.toList (Piece.extent (pieces source.toList).1) ↔
        ∀ piece ∈ (pieces source.toList).1, piece.hidden = 0)) ∧
    ((ofSource source).error? = none →
      Piece.extent (pieces source.toList).1 = source.toList.length ∧
      ((ofSource source).stop = .ofOffset source.toList source.toList.length ↔
        (∀ piece ∈ (pieces source.toList).1, piece.hidden = 0) ∧
          ∀ body, (pieces source.toList).1.getLast? ≠ some (.lineComment body))) := by
  have hstart : Cut source.toList [] source.toList := .start
  obtain ⟨rest, hcut, hstop⟩ := hstart.to_stop
  rw [List.nil_append] at hcut
  refine ⟨hstart.tokens_true_iff, ?_, ?_⟩
  · intro e he
    obtain ⟨fault, hfault, rfl⟩ := Option.map_eq_some_iff.1 he
    rcases hstop with ⟨hnone, -⟩ | ⟨-, c, hhead, hc⟩
    · cases hnone.symm.trans hfault
    · exact hcut.counted_true_iff_of_head hhead hc
  · intro he
    have hnone : (pieces source.toList).2 = none := Option.map_eq_none_iff.1 he
    rcases hstop with ⟨-, rfl⟩ | ⟨hfault, -⟩
    · have hextent : Piece.extent (pieces source.toList).1 = source.toList.length := by
        unfold Piece.extent
        rw [← List.append_nil (List.flatMap _ _), hcut.chars_eq]
      exact ⟨hextent, hextent ▸ hcut.counted_true_iff⟩
    · exact absurd hnone hfault

/-- A line comment and a line feed in a text do no harm, neither to the end nor to a fault. -/
theorem places_true_iff_comment :
    let source := "a // b\n\"c\nd\" e"
    let faulty := "a // b\n\"c\nd"
    (ofSource source).error? = none ∧
      (ofSource source).stop = .ofOffset source.toList source.toList.length ∧
      (ofSource faulty).error? = some ⟨.unclosedText, ⟨2, 1⟩⟩ ∧
      (⟨2, 1⟩ : Pos) = .ofOffset faulty.toList (Piece.extent (pieces faulty.toList).1) := by
  intro source faulty
  have hnone : (ofSource source).error? = none := by decide +kernel
  have herror : (ofSource faulty).error? = some ⟨.unclosedText, ⟨2, 1⟩⟩ := by decide +kernel
  have hlast : (pieces source.toList).1.getLast? = some (.word ['e']) := by decide +kernel
  have hhidden : ∀ piece ∈ (pieces source.toList).1, piece.hidden = 0 := by decide +kernel
  have hhidden' : ∀ piece ∈ (pieces faulty.toList).1, piece.hidden = 0 := by decide +kernel
  refine ⟨hnone, ?_, herror, ((places_true_iff faulty).2.1 _ herror).2 hhidden'⟩
  refine ((places_true_iff source).2.2 hnone).2.2 ⟨hhidden, fun body hcomment => ?_⟩
  cases hlast.symm.trans hcomment

/-- The end of a line comment is told at its start, and what follows an escaped line feed in the
line before. -/
theorem places_untrue :
    let comment := "// c"
    let escape := "\"\\\n\" x"
    (ofSource comment).error? = none ∧ (ofSource comment).stop = ⟨1, 1⟩ ∧
      Pos.ofOffset comment.toList comment.toList.length = ⟨1, 5⟩ ∧
      (ofSource escape).tokens = [⟨.text "\n", ⟨1, 1⟩⟩, ⟨.ident "x", ⟨1, 6⟩⟩] ∧
      (escape.toList.drop 5 = ['x'] ∧ Pos.ofOffset escape.toList 5 = ⟨2, 3⟩) := by
  decide +kernel

end Scan

end Rustlet
