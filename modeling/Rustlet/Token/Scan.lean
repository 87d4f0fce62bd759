import Rustlet.Token.Piece

/-! Cutting into pieces knows nothing of places: a script is cut first, and then each piece gets the
place at which the pieces before it end. -/
namespace Rustlet

/-- A fault and the place of the piece that could not be cut. -/
structure LexError where
  fault : LexFault
  pos : Pos
deriving DecidableEq

namespace Scan

theorem piece_chars_ne_nil {c : Char} {cs rest : List Char} {p : Piece}
    (h : firstPiece c cs = .ok (p, rest)) : p.chars ≠ [] := by
  cases p with
  | numeral digits =>
    intro hn
    have hd : digits = [] := hn
    subst hd
    unfold firstPiece at h
    split at h
    · cases h
    · split at h <;> cases h
    · split at h
      · cases h
      · unfold firstLexeme at h
        split at h
        · rename_i hc
          split at h
          · rename_i hs
            cases h
            obtain ⟨_, _, he⟩ := Option.map_eq_some_iff.1 hs
            simp [hc] at he
          · cases h
        · repeat' split at h
          all_goals cases h
  | word letters =>
    intro hn
    have hd : letters = [] := hn
    subst hd
    unfold firstPiece at h
    split at h
    · cases h
    · split at h <;> cases h
    · split at h
      · cases h
      · unfold firstLexeme at h
        repeat' split at h
        all_goals cases h
  | symbol mark => cases mark <;> simp [Piece.chars, Symbol.chars]
  | _ => simp [Piece.chars]

/-- What follows the first piece of a text is shorter than the text. -/
theorem firstPiece_length {c : Char} {cs rest : List Char} {p : Piece}
    (h : firstPiece c cs = .ok (p, rest)) : rest.length < (c :: cs).length := by
  have hl := congrArg List.length (firstPiece_chars h)
  have hp := List.length_pos_iff.2 (piece_chars_ne_nil h)
  rw [List.length_append] at hl
  omega

/-- All pieces of a text from the start up to its end, or up to the first fault. -/
def pieces : List Char → List Piece × Option LexFault
  | [] => ([], none)
  | c :: cs =>
    match _h : firstPiece c cs with
    | .error fault => ([], some fault)
    | .ok (p, rest) =>
      let (ps, fault) := pieces rest
      (p :: ps, fault)
termination_by cs => cs.length
decreasing_by exact firstPiece_length _h

/-- The tokens among pieces that start at `p`, and the place where the pieces end. -/
def place (p : Pos) : List Piece → List Token × Pos
  | [] => ([], p)
  | piece :: rest =>
    let (tokens, stop) := place (piece.after p) rest
    match piece.lexeme? with
    | some lexeme => (⟨lexeme, p⟩ :: tokens, stop)
    | none => (tokens, stop)

end Scan

/-- What reading a script as tokens gives: the tokens, the place after the last piece, and the fault
there if reading could not go on. -/
structure Scan where
  tokens : List Token
  stop : Pos
  fault? : Option LexFault

namespace Scan

/-- Reads a script as tokens as far as possible. -/
def ofSource (source : String) : Scan :=
  let (ps, fault) := pieces source.toList
  let (tokens, stop) := place .start ps
  ⟨tokens, stop, fault⟩

/-- The error that ended the reading. -/
def error? (s : Scan) : Option LexError := s.fault?.map (⟨·, s.stop⟩)

end Scan

end Rustlet
