import Rustlet.Grammar
import Rustlet.Proofs.Scanning

/-! The texts of numbers, read back. -/
namespace Rustlet

open Grammar

namespace Scan

/-- A numeral with nothing around it is one piece. -/
theorem pieces_numeral {cs : List Char} (h : Number.IsNumeral cs) :
    pieces cs = ([.numeral cs], none) := by
  have hend : Number.EndsNumeral [] := by
    intro c hc
    cases hc
  obtain ⟨d, ds, rfl, hpiece⟩ := firstPiece_numeral h hend
  rw [List.append_nil] at hpiece
  rw [pieces_cons hpiece]
  simp [pieces]

theorem ofSource_numeral {numeral : String} (h : Number.IsNumeral numeral.toList) :
    ∃ stop, ofSource numeral = ⟨[⟨.number numeral, .start⟩], stop, none⟩ := by
  refine ⟨(Piece.numeral numeral.toList).after .start, ?_⟩
  unfold ofSource
  rw [pieces_numeral h]
  simp [place, Piece.lexeme?]

end Scan

/-- A numeral alone is read as a number, wherever it stands. -/
theorem Grammar.parse_numeral (depth : Nat) (numeral : String) (pos stop : Pos) :
    parse (depth + 9) (.expr true) ⟨[⟨.number numeral, pos⟩], stop⟩ =
      .ok (.number pos (.ofNumeral numeral), ⟨[], stop⟩) := rfl

namespace Number

/-- The number with its sign bit cleared. -/
def unsigned (n : Number) : Number := ⟨n.bits &&& 0x7FFFFFFFFFFFFFFF⟩

theorem toNat_unsigned (n : Number) : n.unsigned.bits.toNat = n.magnitude := by
  have hmask : (0x7FFFFFFFFFFFFFFF : UInt64).toNat = 2 ^ 63 - 1 := by decide
  rw [unsigned, UInt64.toNat_and, hmask, Nat.and_two_pow_sub_one_eq_mod]
  rfl

theorem magnitude_lt (n : Number) : n.magnitude < 2 ^ 63 := Nat.mod_lt _ (by decide)

@[simp] theorem magnitude_unsigned (n : Number) : n.unsigned.magnitude = n.magnitude := by
  have hlt := n.magnitude_lt
  rw [magnitude, toNat_unsigned]
  exact Nat.mod_eq_of_lt hlt

@[simp] theorem isNegative_unsigned (n : Number) : n.unsigned.isNegative = false := by
  have hlt := n.magnitude_lt
  rw [isNegative, toNat_unsigned]
  exact decide_eq_false (Nat.not_le.2 hlt)

variable {n : Number}

theorem text_of_not_negative (h : n.isFinite = true) (hsign : n.isNegative = false) :
    n.text = String.ofList (magnitudeText n.magnitude) := by
  apply String.toList_inj.1
  rw [text_of_isFinite h, hsign, String.toList_ofList]
  rfl

/-- A sign stands in front of the text of the number without it. -/
theorem text_of_negative (h : n.isFinite = true) (hsign : n.isNegative = true) :
    n.text = "-" ++ n.unsigned.text := by
  have hfinite : n.unsigned.isFinite = true := by simpa [isFinite] using h
  apply String.toList_inj.1
  rw [text_of_isFinite h, hsign, text_of_not_negative hfinite n.isNegative_unsigned]
  simp

/-- A number without a sign is read from its own text. -/
theorem ofNumeral_text (h : n.isFinite = true) (hsign : n.isNegative = false) :
    Number.ofNumeral n.text = n := by
  have hlt : n.magnitude < infinite := of_decide_eq_true h
  rw [text_of_not_negative h hsign, ofNumeral_magnitudeText hlt, ofMagnitude_of_not_negative hsign]

theorem isNumeral_text (h : n.isFinite = true) (hsign : n.isNegative = false) :
    IsNumeral n.text.toList := by
  obtain ⟨num, hchars, -⟩ := magnitudeText_numeral (of_decide_eq_true h : n.magnitude < infinite)
  rw [text_of_not_negative h hsign, String.toList_ofList, hchars]
  exact num.isNumeral_chars

/-- The text of a finite number whose sign bit is clear is scanned as a single numeral, and reading
this numeral gives the number with the same bits. If the sign bit is set, as it is in negative zero,
the text is a sign and the text of the number with the bit cleared. -/
theorem text_reads_back {n : Number} (h : n.isFinite = true) :
    (n.isNegative = false →
      Number.ofNumeral n.text = n ∧
      ∃ stop, Scan.ofSource n.text = ⟨[⟨.number n.text, .start⟩], stop, none⟩ ∧
        ∀ depth, parse (depth + 9) (.expr true) ⟨[⟨.number n.text, .start⟩], stop⟩ =
          .ok (.number .start n, ⟨[], stop⟩)) ∧
    (n.isNegative = true → n.text = "-" ++ n.unsigned.text) := by
  refine ⟨fun hsign => ?_, fun hsign => text_of_negative h hsign⟩
  have hnumber := ofNumeral_text h hsign
  obtain ⟨stop, hscan⟩ := Scan.ofSource_numeral (isNumeral_text h hsign)
  refine ⟨hnumber, stop, hscan, fun depth => ?_⟩
  rw [parse_numeral, hnumber]

/-- The least number above zero, the numbers on both sides of the bound for whole numbers, and a
negative zero. -/
theorem text_reads_back_bounds :
    let least : Number := ⟨1⟩
    let below : Number := ⟨0x444B1AE4D6E2EF4F⟩
    let bound : Number := ⟨0x444B1AE4D6E2EF50⟩
    let negativeZero : Number := ⟨0x8000000000000000⟩
    (least.text = "5e-324" ∧ Number.ofNumeral "5e-324" = least) ∧
    (below.text = "999999999999999868928" ∧ Number.ofNumeral "999999999999999868928" = below) ∧
    (bound.text = "1e+21" ∧ Number.ofNumeral "1e+21" = bound ∧
      ∃ stop, Scan.ofSource "1e+21" = ⟨[⟨.number "1e+21", .start⟩], stop, none⟩) ∧
    negativeZero.isFinite = true ∧ negativeZero.isNegative = true ∧
      "-0" = "-" ++ negativeZero.unsigned.text := by
  intro least below bound negativeZero
  have hleast : least.text = "5e-324" := by decide +kernel
  have hbelow : below.text = "999999999999999868928" := by decide +kernel
  have hbound : bound.text = "1e+21" := by decide +kernel
  have hzero : negativeZero.text = "-0" := by decide +kernel
  have hnumber := (text_reads_back (n := least) (by decide)).1 (by decide)
  have hwhole := (text_reads_back (n := below) (by decide)).1 (by decide)
  obtain ⟨hpower, stop, hscan, -⟩ := (text_reads_back (n := bound) (by decide)).1 (by decide)
  have hsigned := (text_reads_back (n := negativeZero) (by decide)).2 (by decide)
  rw [hleast] at hnumber
  rw [hbelow] at hwhole
  rw [hbound] at hpower hscan
  rw [hzero] at hsigned
  exact ⟨⟨hleast, hnumber.1⟩, ⟨hbelow, hwhole.1⟩, ⟨hbound, hpower, stop, hscan⟩,
    by decide, by decide, hsigned⟩

end Number

end Rustlet
