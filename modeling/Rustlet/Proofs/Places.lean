import Rustlet.Grammar.Cursor

/-! Where the tokens of a script stand. -/
namespace Rustlet

namespace Pos

/-- The place comes before another: in an earlier line, or further left in the same line. -/
def Before (p q : Pos) : Prop := p.line < q.line ∨ p.line = q.line ∧ p.column < q.column

/-- The place is another one or comes before it. -/
def UpTo (p q : Pos) : Prop := p.line < q.line ∨ p.line = q.line ∧ p.column ≤ q.column

variable {p q r : Pos}

theorem UpTo.refl (p : Pos) : p.UpTo p := .inr ⟨rfl, Nat.le_refl _⟩

theorem UpTo.trans (h : p.UpTo q) (h' : q.UpTo r) : p.UpTo r := by
  unfold UpTo at *
  omega

theorem Before.trans_upTo (h : p.Before q) (h' : q.UpTo r) : p.Before r := by
  unfold Before UpTo at *
  omega

theorem Before.ne (h : p.Before q) : p ≠ q := by
  rintro rfl
  unfold Before at h
  omega

theorem upTo_right (p : Pos) (n : Nat) : p.UpTo (p.right n) := by
  unfold UpTo right
  dsimp only
  omega

theorem before_right (p : Pos) {n : Nat} (h : 0 < n) : p.Before (p.right n) := by
  unfold Before right
  dsimp only
  omega

theorem upTo_next (p : Pos) (c : Char) : p.UpTo (p.next c) := by
  unfold next
  split
  · exact .inl (Nat.lt_succ_self _)
  · exact upTo_right p 1

theorem upTo_nextAll (p : Pos) (cs : List Char) : p.UpTo (p.nextAll cs) := by
  induction cs generalizing p with
  | nil => exact .refl p
  | cons c cs ih => exact (upTo_next p c).trans (ih (p.next c))

end Pos

namespace Piece

theorem upTo_pastRaw (p : Pos) (raw : List Char) : p.UpTo (pastRaw p raw) := by
  fun_induction pastRaw p raw with
  | case1 p => exact .refl p
  | case2 p c rest ih => exact (p.upTo_right 2).trans ih
  | case3 p c rest _ ih => exact (p.upTo_next c).trans ih

theorem upTo_after (piece : Piece) (p : Pos) : p.UpTo (piece.after p) := by
  cases piece with
  | blank c => exact p.upTo_next c
  | lineComment body => exact .refl p
  | blockComment body =>
    exact ((p.upTo_right 2).trans (Pos.upTo_nextAll _ body)).trans (Pos.upTo_right _ 2)
  | numeral digits => exact p.upTo_right _
  | text raw => exact ((p.upTo_right 1).trans (upTo_pastRaw _ raw)).trans (Pos.upTo_right _ 1)
  | word letters => exact p.upTo_right _
  | symbol mark => exact p.upTo_right _

/-- A piece that stands for a token ends behind the place where it starts. -/
theorem before_after {piece : Piece} (hchars : piece.chars ≠ []) {l : Lexeme}
    (hl : piece.lexeme? = some l) (p : Pos) : p.Before (piece.after p) := by
  have hlength := List.length_pos_iff.2 hchars
  cases piece with
  | blank c => cases hl
  | lineComment body => cases hl
  | blockComment body => cases hl
  | numeral digits => exact p.before_right hlength
  | text raw =>
    have hquote : p.Before (p.right 1) := p.before_right Nat.one_pos
    exact (hquote.trans_upTo (upTo_pastRaw _ raw)).trans_upTo (Pos.upTo_right _ 1)
  | word letters => exact p.before_right hlength
  | symbol mark => exact p.before_right hlength

end Piece

namespace Scan

/-- The places of the tokens, and last the place where reading ends: at the end of the text, or at
the fault that keeps it from being read. -/
def places (s : Scan) : List Pos := s.tokens.map (·.pos) ++ [s.stop]

theorem chars_ne_nil_of_mem_pieces {cs : List Char} {piece : Piece} (h : piece ∈ (pieces cs).1) :
    piece.chars ≠ [] := by
  fun_induction pieces cs with
  | case1 => cases h
  | case2 c cs fault hfirst => cases h
  | case3 c cs p rest hfirst ps fault hps ih =>
    rcases List.mem_cons.1 h with rfl | hrest
    · exact piece_chars_ne_nil hfirst
    · exact ih (by rwa [hps])

/-- Pieces that start at `p` have their tokens one after the other, from `p` on. -/
theorem place_increasing (p : Pos) {ps : List Piece} (h : ∀ piece ∈ ps, piece.chars ≠ []) :
    ((place p ps).1.map (·.pos) ++ [(place p ps).2]).Pairwise Pos.Before ∧
      ∀ q ∈ (place p ps).1.map (·.pos) ++ [(place p ps).2], p.UpTo q := by
  induction ps generalizing p with
  | nil => simp [place, Pos.UpTo.refl]
  | cons piece rest ih =>
    obtain ⟨hsorted, hfrom⟩ := ih (piece.after p) fun q hq => h q (List.mem_cons_of_mem _ hq)
    have hafter := piece.upTo_after p
    unfold place
    dsimp only
    split
    · rename_i l hl
      have hstrict := Piece.before_after (h piece List.mem_cons_self) hl p
      refine ⟨List.pairwise_cons.2 ⟨fun q hq => hstrict.trans_upTo (hfrom q hq), hsorted⟩, ?_⟩
      intro q hq
      rcases List.mem_cons.1 hq with rfl | hq
      · exact .refl _
      · exact hafter.trans (hfrom q hq)
    · exact ⟨hsorted, fun q hq => hafter.trans (hfrom q hq)⟩

/-- The tokens of a text stand one after the other, and reading ends behind the last. -/
theorem places_increasing (source : String) :
    (Scan.ofSource source).places.Pairwise Pos.Before :=
  (place_increasing .start fun _ => chars_ne_nil_of_mem_pieces).1

end Scan

end Rustlet
