import Mathlib.Tactic.Ring
import Rustlet.Number.Written
import Rustlet.Token.Piece

/-! A finite number is a whole number of units, so it is the number nearest to itself. -/
namespace Rustlet

/-- A run of characters of one kind ends where a character of another kind starts. -/
theorem span_run {kind : Char → Bool} {run rest : List Char} (hrun : ∀ c ∈ run, kind c = true)
    (hrest : ∀ c ∈ rest.head?, kind c = false) :
    (run ++ rest).takeWhile kind = run ∧ (run ++ rest).dropWhile kind = rest := by
  rw [List.takeWhile_append_of_pos hrun, List.dropWhile_append_of_pos hrun]
  cases rest with
  | nil => simp
  | cons c rest =>
    have hc := hrest c rfl
    simp [hc]

namespace Number

/-! Rounding. -/

theorem roundDiv_mul_right (n d : Nat) {k : Nat} (hk : 0 < k) :
    roundDiv (n * k) (d * k) = roundDiv n d := by
  have hless : 2 * (n % d * k) < d * k ↔ 2 * (n % d) < d := by
    rw [← Nat.mul_assoc]
    exact Nat.mul_lt_mul_right hk
  have hmore : d * k < 2 * (n % d * k) ↔ d < 2 * (n % d) := by
    rw [← Nat.mul_assoc]
    exact Nat.mul_lt_mul_right hk
  simp only [roundDiv, Nat.mul_div_mul_right _ _ hk, Nat.mul_mod_mul_right, hless, hmore]

/-- What is nearest does not depend on how a fraction is written. -/
theorem nearest_mul_right (n d : Nat) {k : Nat} (hk : 0 < k) :
    nearest (n * k) (d * k) = nearest n d := by
  simp only [nearest, Nat.mul_div_mul_right _ _ hk, Nat.mul_right_comm d k,
    roundDiv_mul_right n _ hk]

theorem roundDiv_one (n : Nat) : roundDiv n 1 = n := by
  simp [roundDiv, Nat.mod_one]

theorem roundDiv_exact (n : Nat) {d : Nat} (hd : 0 < d) : roundDiv (n * d) d = n := by
  have h := roundDiv_mul_right n 1 hd
  rwa [Nat.one_mul, roundDiv_one] at h

theorem nearest_le (n d : Nat) : nearest n d ≤ infinite := Nat.min_le_left ..

theorem one_eq {e : Nat} (h : 1074 = e) : one = 2 ^ e := by
  unfold one
  rw [h]
  exact Nat.pow_eq

/-- A size with 53 significant bits. -/
theorem nearest_shifted {c s : Nat} (hlow : exponentStep ≤ c) (hhigh : c < 2 * exponentStep) :
    nearest (c * Nat.pow 2 s) 1 = min infinite (s * exponentStep + c) := by
  have hpow : 0 < 2 ^ s := Nat.two_pow_pos s
  have hlog : Nat.log2 (c * 2 ^ s) = 52 + s := by
    have hstep : exponentStep = 2 ^ 52 := rfl
    have hnext : 2 ^ (52 + s + 1) = 2 * exponentStep * 2 ^ s := by
      rw [hstep]
      ring
    rw [Nat.log2_eq_iff (Nat.mul_ne_zero (by omega) hpow.ne'), hnext, Nat.pow_add]
    exact ⟨Nat.mul_le_mul_right _ hlow, (Nat.mul_lt_mul_right hpow).2 hhigh⟩
  unfold nearest excessBits
  simp only [Nat.pow_eq, Nat.div_one, Nat.one_mul, hlog, Nat.add_sub_cancel_left,
    roundDiv_exact c hpow]

/-- A size below 2^53 units. -/
theorem nearest_small {m : Nat} (h : m < 2 * exponentStep) : nearest m 1 = m := by
  have hstep : exponentStep = 2 ^ 52 := rfl
  have hlog : Nat.log2 m ≤ 52 := by
    rcases Nat.eq_zero_or_pos m with rfl | hm
    · decide
    · have hlt := (Nat.log2_lt hm.ne').2 (show m < 2 ^ 53 by omega)
      omega
  have hexcess : excessBits m = 0 := Nat.sub_eq_zero_of_le hlog
  have hle : m ≤ infinite := by
    unfold infinite
    omega
  simp [nearest, hexcess, roundDiv_one, Nat.min_eq_right hle]

/-- A finite number is the one nearest to its size. -/
theorem nearest_units {m : Nat} (h : m < infinite) : nearest (units m) 1 = m := by
  have hpos : 0 < exponentStep := by decide
  by_cases hsmall : m < 2 * exponentStep
  · have hshift : shift m = 0 := by
      have hdiv : m / exponentStep < 2 := (Nat.div_lt_iff_lt_mul hpos).2 hsmall
      unfold shift
      omega
    have hsig : significand m = m := by
      unfold significand
      split
      · rfl
      · rename_i hlow
        rw [Nat.mod_eq_sub_mod (by omega), Nat.mod_eq_of_lt (by omega)]
        omega
    unfold units
    rw [hshift, hsig]
    simpa using nearest_small hsmall
  · have hsig : significand m = exponentStep + m % exponentStep := by
      unfold significand
      rw [if_neg (by omega)]
    have hmod := Nat.mod_lt m hpos
    have hdiv : 2 ≤ m / exponentStep := (Nat.le_div_iff_mul_le hpos).2 (by omega)
    have hsum : shift m * exponentStep + (exponentStep + m % exponentStep) = m := by
      have hm := Nat.div_add_mod m exponentStep
      have hs : m / exponentStep = shift m + 1 := by
        unfold shift
        omega
      rw [hs, Nat.mul_comm, Nat.add_mul] at hm
      omega
    unfold units
    rw [hsig, nearest_shifted (by omega) (by omega), hsum]
    exact Nat.min_eq_right h.le

end Number

namespace Decimal

open Number

theorem readDigits_eq (n : Nat) (ds : List Char) : readDigits n ds = Nat.ofDigitChars 10 ds n :=
  Nat.ofDigitChars_eq_foldl.symm

theorem magnitude_le (d : Decimal) : d.magnitude ≤ infinite := by
  unfold magnitude
  split
  · exact Nat.zero_le _
  · split
    · split
      · exact Nat.le_refl _
      · exact nearest_le ..
    · split
      · exact Nat.zero_le _
      · exact nearest_le ..

/-- A decimal without places after the point. -/
theorem magnitude_power {n k : Nat} (hk : k ≤ range) :
    magnitude ⟨n, (k : Int)⟩ = nearest (n * 10 ^ k * one) 1 := by
  unfold magnitude
  split
  · rename_i hn
    obtain rfl : n = 0 := hn
    rw [Nat.zero_mul, Nat.zero_mul, nearest_small (by decide)]
  · change (if range < k then infinite else nearest (n * Nat.pow 10 k * one) 1) = _
    rw [if_neg (Nat.not_lt.2 hk), Nat.pow_eq]

theorem magnitude_whole (n : Nat) : magnitude ⟨n, 0⟩ = nearest (n * one) 1 := by
  simpa using magnitude_power (n := n) (Nat.zero_le range)

/-- A whole number of units with some places after the point. The guard against small decimals does
not reach down to the least number. -/
theorem magnitude_fraction {n k : Nat} (hk : k ≤ 1074) (hn : 5 ^ k ≤ n) :
    magnitude ⟨n, -(k : Int)⟩ = nearest (n * one) (10 ^ k) := by
  have hpos : 0 < n := Nat.lt_of_lt_of_le (Nat.pow_pos (by decide)) hn
  cases k with
  | zero => simpa using magnitude_whole n
  | succ k =>
    have hlen : ¬(digitChars n).length + range < k + 1 := by
      intro hlt
      have hn' : n < 10 ^ (digitChars n).length :=
        (Nat.length_toDigits_le_iff (by decide) Nat.length_toDigits_pos).1 (Nat.le_refl _)
      have hpow : 5 ^ (k + 1) * 10 ^ range < 5 ^ (k + 1) * 2 ^ (k + 1) :=
        calc 5 ^ (k + 1) * 10 ^ range < 10 ^ (digitChars n).length * 10 ^ range :=
              (Nat.mul_lt_mul_right (Nat.pow_pos (by decide))).2 (Nat.lt_of_le_of_lt hn hn')
          _ = 10 ^ ((digitChars n).length + range) := (Nat.pow_add ..).symm
          _ ≤ 10 ^ (k + 1) := Nat.pow_le_pow_right (by decide) hlt.le
          _ = 5 ^ (k + 1) * 2 ^ (k + 1) := by rw [← Nat.mul_pow]
      have hrange : k + 1 ≤ 3 * range := by
        unfold range
        omega
      have htop : 2 ^ (k + 1) ≤ 10 ^ range :=
        calc 2 ^ (k + 1) ≤ 2 ^ (3 * range) := Nat.pow_le_pow_right (by decide) hrange
          _ = (2 ^ 3) ^ range := Nat.pow_mul ..
          _ ≤ 10 ^ range := Nat.pow_le_pow_left (by decide) range
      exact Nat.lt_irrefl _ ((Nat.lt_of_mul_lt_mul_left hpow).trans_le htop)
    have hexp : -((k + 1 : Nat) : Int) = .negSucc k := rfl
    unfold magnitude
    rw [if_neg hpos.ne', hexp]
    simp only [hlen, if_false, Nat.pow_eq]

/-- A finite number is the one nearest to itself as a decimal. -/
theorem magnitude_exact {m : Nat} (h : m < infinite) : (exact m).magnitude = m := by
  rcases Nat.eq_zero_or_pos m with rfl | hm
  · have hzero : significand 0 = 0 := by decide
    have hdigits : (exact 0).digits = 0 := by
      unfold exact
      rw [hzero]
      dsimp only
      split <;> exact Nat.zero_mul _
    simp only [magnitude, hdigits, if_true]
  have hsig : 0 < significand m := by
    have hpos : 0 < exponentStep := by decide
    unfold significand
    split <;> omega
  unfold exact
  dsimp only
  split
  · rename_i hs
    have hunits : significand m * 5 ^ (1074 - shift m) * one =
        units m * 10 ^ (1074 - shift m) := by
      have hten : 10 ^ (1074 - shift m) = 2 ^ (1074 - shift m) * 5 ^ (1074 - shift m) := by
        rw [← Nat.mul_pow]
      rw [one_eq (Nat.add_sub_cancel' hs).symm, hten]
      unfold units
      simp only [Nat.pow_eq]
      ring
    have hscale :=
      nearest_mul_right (units m) 1 (Nat.pow_pos (n := 1074 - shift m) (by decide : 0 < 10))
    simp only [Nat.pow_eq]
    rw [magnitude_fraction (by omega) (Nat.le_mul_of_pos_left _ hsig), hunits]
    rw [Nat.one_mul, nearest_units h] at hscale
    exact hscale
  · rename_i hs
    have hunits : significand m * 2 ^ (shift m - 1074) * one = units m := by
      have hone : ∀ e, 1074 = e → e ≤ shift m → 2 ^ shift m = 2 ^ (shift m - e) * one := by
        intro e he hle
        rw [one_eq he, ← Nat.pow_add, Nat.sub_add_cancel hle]
      unfold units
      rw [Nat.pow_eq, hone 1074 rfl (by omega), Nat.mul_assoc]
    simp only [Nat.pow_eq]
    rw [magnitude_whole, hunits, nearest_units h]

/-- The decimal that is written for a finite number rounds to the number. -/
theorem magnitude_shortest {m : Nat} (h : m < infinite) : (shortest m).magnitude = m := by
  unfold shortest
  dsimp only
  cases hfind : (List.range' 1 17).findSome?
      (shortened m (exact m) (digitChars (exact m).digits).length) with
  | none => exact magnitude_exact h
  | some d =>
    obtain ⟨k, _, hk⟩ := List.exists_of_findSome?_eq_some hfind
    unfold shortened at hk
    dsimp only at hk
    split at hk
    · rename_i hlow
      cases hk
      exact of_decide_eq_true (Bool.and_eq_true_iff.1 hlow).1
    · split at hk
      · rename_i hhigh
        cases hk
        exact hhigh
      · cases hk

end Decimal

/-! Numerals. -/

namespace Number

open Decimal

/-- A point and the digits after it, unless there are none. -/
def fractionText : List Char → List Char
  | [] => []
  | d :: ds => '.' :: d :: ds

/-- A power of ten, unless there is none. -/
def powerText : Option Int → List Char
  | none => []
  | some e => exponentText e

/-- A numeral: digits, digits after the point and a power of ten. -/
structure Numeral where
  whole : List Char
  fraction : List Char
  power : Option Int
  whole_ne_nil : whole ≠ []
  isDigit_whole : ∀ c ∈ whole, c.isDigit = true
  isDigit_fraction : ∀ c ∈ fraction, c.isDigit = true

namespace Numeral

/-- How a numeral is written. -/
def chars (n : Numeral) : List Char := n.whole ++ (fractionText n.fraction ++ powerText n.power)

/-- The decimal that a numeral stands for. -/
def decimal (n : Numeral) : Decimal :=
  ⟨Nat.ofDigitChars 10 (n.whole ++ n.fraction) 0, n.power.getD 0 - n.fraction.length⟩

end Numeral

/-- A character that can go on with a numeral. -/
def inNumeral (c : Char) : Bool := c.isDigit || c = '.' || c = 'e' || c = 'E'

/-- What can follow a numeral. -/
def EndsNumeral (rest : List Char) : Prop := ∀ c ∈ rest.head?, inNumeral c = false

/-- One or more digits. -/
def IsDigits (cs : List Char) : Prop := cs ≠ [] ∧ cs.all Char.isDigit = true

/-- Nothing, or a point and digits. -/
inductive IsFraction : List Char → Prop
  | none : IsFraction []
  | some {ds : List Char} (h : IsDigits ds) : IsFraction ('.' :: ds)

/-- Nothing, or an `e` in either case and digits, between which a sign may stand. -/
inductive IsExponent : List Char → Prop
  | none : IsExponent []
  | some {mark : Char} {sign ds : List Char} (hmark : mark = 'e' ∨ mark = 'E')
    (hsign : sign ∈ [[], ['+'], ['-']]) (h : IsDigits ds) : IsExponent (mark :: (sign ++ ds))

/-- What is read as a number: digits, then a fraction and an exponent, each of which may be missing.
-/
inductive IsNumeral : List Char → Prop
  | mk {whole fraction exponent : List Char} (hw : IsDigits whole) (hf : IsFraction fraction)
    (he : IsExponent exponent) : IsNumeral (whole ++ (fraction ++ exponent))

theorem isDigit_digitChars (n : Nat) : ∀ c ∈ digitChars n, c.isDigit = true :=
  fun _ hc => Nat.isDigit_of_mem_toDigits (by decide) (by decide) hc

theorem isDigit_replicate_zero (k : Nat) : ∀ c ∈ List.replicate k '0', c.isDigit = true := by
  intro c hc
  rw [List.eq_of_mem_replicate hc]
  decide

/-- The digits of a power of ten. -/
def powerDigits (e : Int) : List Char :=
  List.replicate (2 - (digitChars e.natAbs).length) '0' ++ digitChars e.natAbs

theorem isDigit_powerDigits (e : Int) : ∀ c ∈ powerDigits e, c.isDigit = true := by
  intro c hc
  rcases List.mem_append.1 hc with hc | hc
  · exact isDigit_replicate_zero _ c hc
  · exact isDigit_digitChars _ c hc

theorem exponentText_eq (e : Int) :
    exponentText e = 'e' :: (if e < 0 then '-' else '+') :: powerDigits e := rfl

theorem readExponent_exponentText (e : Int) : readExponent (exponentText e) = e := by
  have hdigits : readDigits 0 (powerDigits e) = e.natAbs := by
    unfold powerDigits
    rw [readDigits_eq, Nat.ofDigitChars_append, Nat.ofDigitChars_replicate_zero, Nat.mul_zero]
    exact Nat.ofDigitChars_ten_toDigits
  rw [exponentText_eq]
  split
  · simp only [readExponent, hdigits, decide_true, Bool.true_or, if_true]
    omega
  · simp only [readExponent, hdigits, decide_true, Bool.true_or, if_true]
    omega

theorem isDigits_of_forall {cs : List Char} (hne : cs ≠ []) (h : ∀ c ∈ cs, c.isDigit = true) :
    IsDigits cs :=
  ⟨hne, List.all_eq_true.2 h⟩

theorem IsDigits.exists_cons {cs : List Char} (h : IsDigits cs) :
    ∃ d ds, cs = d :: ds ∧ d.isDigit = true ∧ ∀ c ∈ ds, c.isDigit = true := by
  obtain ⟨hne, hdigits⟩ := h
  cases cs with
  | nil => exact absurd rfl hne
  | cons d ds => exact ⟨d, ds, rfl, List.forall_mem_cons.1 (List.all_eq_true.1 hdigits)⟩

/-- What follows the digits of a numeral does not go on with them. -/
theorem head_exponent {exponent rest : List Char} (he : IsExponent exponent)
    (hrest : EndsNumeral rest) :
    ∀ c ∈ (exponent ++ rest).head?, c.isDigit = false ∧ c ≠ '.' := by
  intro c hc
  cases he with
  | none =>
    have hend := hrest c hc
    simp only [inNumeral, Bool.or_eq_false_iff, decide_eq_false_iff_not] at hend
    exact ⟨hend.1.1.1, hend.1.1.2⟩
  | some hmark hsign hds =>
    obtain rfl := Option.some.inj hc
    rcases hmark with rfl | rfl <;> decide

theorem splitFraction_append {fraction rest : List Char} (hf : IsFraction fraction)
    (hrest : ∀ c ∈ rest.head?, c.isDigit = false ∧ c ≠ '.') :
    Scan.splitFraction (fraction ++ rest) = (fraction, rest) := by
  cases hf with
  | none =>
    cases rest with
    | nil => rfl
    | cons c rest =>
      have hc := (hrest c rfl).2
      simp [Scan.splitFraction, hc]
  | some hds =>
    obtain ⟨d, ds, rfl, hd, hmore⟩ := hds.exists_cons
    obtain ⟨htake, hdrop⟩ := span_run hmore fun c hc => (hrest c hc).1
    simp [Scan.splitFraction, hd, htake, hdrop]

/-- A sign is told from the digits after it. -/
theorem splitSign_append {sign ds : List Char} (hsign : sign ∈ [[], ['+'], ['-']])
    (hds : ∀ c ∈ ds.head?, c.isDigit = true) : Scan.splitSign (sign ++ ds) = (sign, ds) := by
  simp only [List.mem_cons, List.not_mem_nil, or_false] at hsign
  rcases hsign with rfl | rfl | rfl
  · cases ds with
    | nil => rfl
    | cons d ds =>
      have hd := hds d rfl
      have hplus : d ≠ '+' := by
        rintro rfl
        cases hd
      have hminus : d ≠ '-' := by
        rintro rfl
        cases hd
      simp [Scan.splitSign, hplus, hminus]
  · rfl
  · rfl

theorem splitExponent_append {exponent rest : List Char} (he : IsExponent exponent)
    (hrest : EndsNumeral rest) :
    Scan.splitExponent (exponent ++ rest) = some (exponent, rest) := by
  cases he with
  | none =>
    cases rest with
    | nil => rfl
    | cons c rest =>
      have hend := hrest c rfl
      simp only [inNumeral, Bool.or_eq_false_iff] at hend
      simp [Scan.splitExponent, hend.1.2, hend.2]
  | @some mark sign ds hmark hsign hds =>
    obtain ⟨d, ds, rfl, hd, hmore⟩ := hds.exists_cons
    have hdigit : ∀ c ∈ rest.head?, c.isDigit = false := by
      intro c hc
      have hend := hrest c hc
      simp only [inNumeral, Bool.or_eq_false_iff] at hend
      exact hend.1.1.1
    have hsplit : Scan.splitSign (sign ++ (d :: (ds ++ rest))) = (sign, d :: (ds ++ rest)) := by
      apply splitSign_append hsign
      intro c hc
      obtain rfl := Option.some.inj hc
      exact hd
    obtain ⟨htake, hdrop⟩ := span_run hmore hdigit
    have hmark' : (mark = 'e' || mark = 'E') = true := by simpa using hmark
    simp [Scan.splitExponent, hmark', hsplit, hd, htake, hdrop]

/-- The digits in front of a numeral end where its fraction or its exponent starts. -/
theorem span_whole {whole fraction exponent rest : List Char} (hw : IsDigits whole)
    (hf : IsFraction fraction) (he : IsExponent exponent) (hrest : EndsNumeral rest) :
    (whole ++ (fraction ++ (exponent ++ rest))).takeWhile Char.isDigit = whole ∧
      (whole ++ (fraction ++ (exponent ++ rest))).dropWhile Char.isDigit =
        fraction ++ (exponent ++ rest) := by
  apply span_run (List.all_eq_true.1 hw.2)
  intro c hc
  cases hf with
  | none => exact (head_exponent he hrest c hc).1
  | some hds =>
    obtain rfl := Option.some.inj hc
    rfl

/-- A numeral is read up to its end. -/
theorem splitNumeral_append {cs rest : List Char} (h : IsNumeral cs) (hrest : EndsNumeral rest) :
    Scan.splitNumeral (cs ++ rest) = some (cs, rest) := by
  obtain ⟨hw, hf, he⟩ := h
  obtain ⟨htake, hdrop⟩ := span_whole hw hf he hrest
  have hfraction := splitFraction_append hf (head_exponent he hrest)
  have hexponent := splitExponent_append he hrest
  rw [List.append_assoc, List.append_assoc]
  simp only [Scan.splitNumeral, htake, hdrop, hfraction, hexponent, Option.map_some,
    List.append_assoc]

/-- A numeral starts with a digit. -/
theorem IsNumeral.exists_cons {cs : List Char} (h : IsNumeral cs) :
    ∃ d ds, cs = d :: ds ∧ d.isDigit = true := by
  obtain ⟨hw, -, -⟩ := h
  obtain ⟨d, ds, rfl, hd, -⟩ := hw.exists_cons
  exact ⟨d, _, rfl, hd⟩

theorem isFraction_fractionText {ds : List Char} (hds : ∀ c ∈ ds, c.isDigit = true) :
    IsFraction (fractionText ds) := by
  cases ds with
  | nil => exact .none
  | cons d ds => exact .some (isDigits_of_forall (List.cons_ne_nil d ds) hds)

theorem isExponent_powerText (power : Option Int) : IsExponent (powerText power) := by
  cases power with
  | none => exact .none
  | some e =>
    have hdigits : IsDigits (powerDigits e) := by
      refine isDigits_of_forall ?_ (isDigit_powerDigits e)
      simp [powerDigits, digitChars]
    have hsign : [if e < 0 then '-' else '+'] ∈ [[], ['+'], ['-']] := by
      split <;> simp
    exact .some (.inl rfl) hsign hdigits

namespace Numeral

variable (n : Numeral)

theorem isDigits_whole : IsDigits n.whole := isDigits_of_forall n.whole_ne_nil n.isDigit_whole

theorem isNumeral_chars : IsNumeral n.chars :=
  .mk n.isDigits_whole (isFraction_fractionText n.isDigit_fraction) (isExponent_powerText n.power)

/-- A numeral says its decimal. -/
theorem ofNumeral_chars : Decimal.ofNumeral n.chars = n.decimal := by
  have hnil : EndsNumeral [] := by
    intro c hc
    cases hc
  have hfraction := isFraction_fractionText n.isDigit_fraction
  have hexponent := isExponent_powerText n.power
  obtain ⟨htake, hdrop⟩ := span_whole n.isDigits_whole hfraction hexponent hnil
  have hpower : readExponent (powerText n.power) = n.power.getD 0 := by
    cases n.power with
    | none => rfl
    | some e => exact readExponent_exponentText e
  have hdigits : fractionDigits (fractionText n.fraction ++ powerText n.power) = n.fraction ∧
      afterFraction (fractionText n.fraction ++ powerText n.power) = powerText n.power := by
    cases hf : n.fraction with
    | nil =>
      cases n.power with
      | none => exact ⟨rfl, rfl⟩
      | some e => exact ⟨rfl, rfl⟩
    | cons d ds =>
      have hhead := head_exponent hexponent hnil
      rw [List.append_nil] at hhead
      exact span_run (hf ▸ n.isDigit_fraction) fun c hc => (hhead c hc).1
  rw [List.append_nil] at htake hdrop
  simp only [Decimal.ofNumeral, decimal, chars, htake, hdrop, hdigits, hpower, readDigits_eq,
    Nat.ofDigitChars_append]

end Numeral

/-! The numerals that are written. -/

/-- The digits of a whole number. -/
def wholeNumeral (n : Nat) : Numeral where
  whole := digitChars n
  fraction := []
  power := none
  whole_ne_nil := Nat.toDigits_ne_nil
  isDigit_whole := isDigit_digitChars n
  isDigit_fraction := by simp

theorem decimal_wholeNumeral (n : Nat) : (wholeNumeral n).decimal = ⟨n, 0⟩ := by
  simp [wholeNumeral, Numeral.decimal, digitChars]

theorem fractionText_of_ne_nil {ds : List Char} (h : ds ≠ []) : fractionText ds = '.' :: ds := by
  cases ds with
  | nil => exact absurd rfl h
  | cons d ds => rfl

theorem ofDigitChars_digitChars (n : Nat) : Nat.ofDigitChars 10 (digitChars n) 0 = n :=
  Nat.ofDigitChars_ten_toDigits

/-- A decimal in scientific notation. -/
theorem scientific_numeral (n : Nat) (e : Int) :
    ∃ num : Numeral, scientific (digitChars n) e = num.chars ∧
      num.decimal = ⟨n, e + 1 - (digitChars n).length⟩ := by
  have hdigits := isDigit_digitChars n
  have hvalue := ofDigitChars_digitChars n
  cases hc : digitChars n with
  | nil => exact absurd hc Nat.toDigits_ne_nil
  | cons d rest =>
    rw [hc] at hdigits hvalue
    refine ⟨⟨[d], rest, some e, by simp, fun c hm => ?_, fun c hm => ?_⟩, ?_, ?_⟩
    · exact hdigits c (by simp_all)
    · exact hdigits c (List.mem_cons_of_mem d hm)
    · cases rest with
      | nil => rfl
      | cons d' rest => simp [scientific, Numeral.chars, fractionText, powerText]
    · simp only [Numeral.decimal, List.singleton_append, hvalue, Option.getD_some, List.length_cons,
        Decimal.mk.injEq, true_and]
      omega

/-- A whole number whose places are written up to one after the point. -/
theorem magnitude_tenfold {n k : Nat} (hn : n ≠ 0) (hk : k ≤ range) :
    Decimal.magnitude ⟨10 * (10 ^ k * n), -1⟩ = Decimal.magnitude ⟨n, (k : Int)⟩ := by
  have hpos : 0 < 10 ^ k * n := Nat.mul_pos (Nat.pow_pos (by decide)) (Nat.pos_of_ne_zero hn)
  have htenth := magnitude_fraction (n := 10 * (10 ^ k * n)) (k := 1) (by decide) (by omega)
  have hscale := nearest_mul_right (n * 10 ^ k * one) 1 (k := 10) (by decide)
  have hunits : 10 * (10 ^ k * n) * one = n * 10 ^ k * one * 10 := by ring
  have hexponent : -((1 : Nat) : Int) = -1 := rfl
  rw [hexponent, hunits, Nat.pow_one] at htenth
  rw [htenth, magnitude_power hk, ← hscale, Nat.one_mul]

/-- A decimal with its digits in their places. -/
theorem positional_numeral {n : Nat} (hn : n ≠ 0) {p : Int} (hp : p ≤ topPlace + 1) :
    ∃ num : Numeral, positional (digitChars n) p = num.chars ∧
      num.decimal.magnitude = Decimal.magnitude ⟨n, p - (digitChars n).length⟩ := by
  have hdigits := isDigit_digitChars n
  have hvalue := ofDigitChars_digitChars n
  have hne : digitChars n ≠ [] := Nat.toDigits_ne_nil
  match p with
  | .negSucc p =>
    -- Zeros after the point.
    refine ⟨⟨['0'], List.replicate (p + 1) '0' ++ digitChars n, none, by simp,
      isDigit_replicate_zero 1, fun c hm => ?_⟩, ?_, congrArg Decimal.magnitude ?_⟩
    · rcases List.mem_append.1 hm with hm | hm
      · exact isDigit_replicate_zero _ c hm
      · exact hdigits c hm
    · simp [positional, Numeral.chars, List.replicate_succ, fractionText, powerText]
    · have hzeros :
          Nat.ofDigitChars 10 (['0'] ++ (List.replicate (p + 1) '0' ++ digitChars n)) 0 = n := by
        rw [Nat.ofDigitChars_append, Nat.ofDigitChars_append, Nat.ofDigitChars_replicate_zero]
        exact hvalue
      simp only [Numeral.decimal, hzeros, Option.getD_none, List.length_append,
        List.length_replicate, Decimal.mk.injEq, true_and]
      omega
  | .ofNat 0 =>
    refine ⟨⟨['0'], digitChars n, none, by simp, isDigit_replicate_zero 1, hdigits⟩, ?_,
      congrArg Decimal.magnitude ?_⟩
    · change '0' :: '.' :: digitChars n = _
      simp [Numeral.chars, fractionText_of_ne_nil hne, powerText]
    · have hzero : Nat.ofDigitChars 10 (['0'] ++ digitChars n) 0 = n := hvalue
      simp only [Numeral.decimal, hzero, Option.getD_none, Decimal.mk.injEq, true_and]
      rfl
  | .ofNat (p + 1) =>
    have hplaces : positional (digitChars n) (.ofNat (p + 1)) =
        if p + 1 < (digitChars n).length then
          (digitChars n).take (p + 1) ++ '.' :: (digitChars n).drop (p + 1)
        else digitChars n ++ List.replicate (p + 1 - (digitChars n).length) '0' ++ ['.', '0'] := rfl
    rw [hplaces, Int.ofNat_eq_natCast]
    rw [Int.ofNat_eq_natCast] at hp
    by_cases hlt : p + 1 < (digitChars n).length
    · -- The point stands between the digits.
      have hdrop : (digitChars n).drop (p + 1) ≠ [] := by simpa using hlt
      refine ⟨⟨(digitChars n).take (p + 1), (digitChars n).drop (p + 1), none, ?_,
        fun c hm => hdigits c (List.mem_of_mem_take hm),
        fun c hm => hdigits c (List.mem_of_mem_drop hm)⟩, ?_, congrArg Decimal.magnitude ?_⟩
      · simpa using hne
      · simp [hlt, Numeral.chars, fractionText_of_ne_nil hdrop, powerText]
      · simp only [Numeral.decimal, List.take_append_drop, hvalue, Option.getD_none,
          List.length_drop, Decimal.mk.injEq, true_and]
        omega
    · -- Zeros before the point, and one after it.
      refine ⟨⟨digitChars n ++ List.replicate (p + 1 - (digitChars n).length) '0', ['0'], none, ?_,
        fun c hm => ?_, isDigit_replicate_zero 1⟩, ?_, ?_⟩
      · simp [hne]
      · rcases List.mem_append.1 hm with hm | hm
        · exact hdigits c hm
        · exact isDigit_replicate_zero _ c hm
      · simp [hlt, Numeral.chars, fractionText, powerText]
      · have hk : p + 1 - (digitChars n).length ≤ range := by
          unfold topPlace at hp
          unfold range
          omega
        have hexp : ((p + 1 : Nat) : Int) - (digitChars n).length =
            ((p + 1 - (digitChars n).length : Nat) : Int) := by
          omega
        rw [hexp, ← magnitude_tenfold hn hk]
        simp [Numeral.decimal, Nat.ofDigitChars_append, Nat.ofDigitChars_replicate_zero, hvalue,
          Nat.ofDigitChars_cons]

theorem decimalText_numeral {d : Decimal} (hd : d.digits ≠ 0) :
    ∃ n : Numeral, decimalText d = n.chars ∧ n.decimal.magnitude = d.magnitude := by
  unfold decimalText
  dsimp only
  split
  · rename_i hplace
    simp only [Bool.and_eq_true, decide_eq_true_eq] at hplace
    obtain ⟨n, hchars, hn⟩ := positional_numeral hd
      (p := d.exponent + (digitChars d.digits).length - 1 + 1) (by omega)
    have hexponent : d.exponent + (digitChars d.digits).length - 1 + 1 -
        ((digitChars d.digits).length : Int) = d.exponent := by
      omega
    rw [hexponent] at hn
    exact ⟨n, hchars, hn⟩
  · obtain ⟨n, hchars, hn⟩ :=
      scientific_numeral d.digits (d.exponent + (digitChars d.digits).length - 1)
    have hexponent : d.exponent + (digitChars d.digits).length - 1 + 1 -
        ((digitChars d.digits).length : Int) = d.exponent := by
      omega
    rw [hexponent] at hn
    exact ⟨n, hchars, congrArg Decimal.magnitude hn⟩

/-- What is written for a finite magnitude is a numeral that says it. -/
theorem magnitudeText_numeral {m : Nat} (h : m < infinite) :
    ∃ n : Numeral, magnitudeText m = n.chars ∧ n.decimal.magnitude = m := by
  unfold magnitudeText
  dsimp only
  split
  · rename_i hwhole
    simp only [Bool.and_eq_true, decide_eq_true_eq] at hwhole
    have hsize : units m / one * one = units m :=
      Nat.div_mul_cancel (Nat.dvd_of_mod_eq_zero hwhole.1)
    refine ⟨wholeNumeral (units m / one), ?_, ?_⟩
    · simp [wholeNumeral, Numeral.chars, fractionText, powerText]
    · rw [decimal_wholeNumeral, magnitude_whole, hsize, nearest_units h]
  · rename_i hwhole
    have hm : m ≠ 0 := by
      rintro rfl
      have hunits : units 0 = 0 := by decide
      have hbound : 0 < wholeBound := by decide
      simp [hunits, hbound] at hwhole
    have hshortest := magnitude_shortest h
    have hdigits : (shortest m).digits ≠ 0 := by
      intro hzero
      rw [Decimal.magnitude, if_pos hzero] at hshortest
      exact hm hshortest.symm
    obtain ⟨n, hchars, hn⟩ := decimalText_numeral hdigits
    exact ⟨n, hchars, hn.trans hshortest⟩

/-! Signs. -/

theorem xor_signBit {r : Nat} (h : r < 2 ^ 63) : r ^^^ 2 ^ 63 = 2 ^ 63 + r := by
  have hlow : (r ^^^ 2 ^ 63) % 2 ^ 63 = r := by
    rw [Nat.xor_mod_two_pow, Nat.mod_eq_of_lt h, Nat.mod_self, Nat.xor_zero]
  have hhigh : (r ^^^ 2 ^ 63) / 2 ^ 63 = 1 := by
    rw [Nat.xor_div_two_pow, Nat.div_eq_of_lt h, Nat.div_self (by decide), Nat.zero_xor]
  have hsum := Nat.div_add_mod (r ^^^ 2 ^ 63) (2 ^ 63)
  rw [hlow, hhigh] at hsum
  omega

theorem ofMagnitude_magnitude (n : Number) :
    ofMagnitude false n.magnitude = ⟨UInt64.ofNat (n.bits.toNat % 2 ^ 63)⟩ := by
  simp [ofMagnitude, magnitude]

/-- A number that is not negative is its magnitude. -/
theorem ofMagnitude_of_not_negative {n : Number} (h : n.isNegative = false) :
    ofMagnitude false n.magnitude = n := by
  have hlt : n.bits.toNat < 2 ^ 63 := by simpa [isNegative] using h
  rw [ofMagnitude_magnitude, Nat.mod_eq_of_lt hlt, UInt64.ofNat_toNat]

/-- A negative number is its magnitude with the other sign. -/
theorem neg_ofMagnitude_of_negative {n : Number} (h : n.isNegative = true) :
    (ofMagnitude false n.magnitude).neg = n := by
  have hle : 2 ^ 63 ≤ n.bits.toNat := by simpa [isNegative] using h
  have hlt : n.bits.toNat < 2 ^ 64 := n.bits.toNat_lt
  have hmod : n.bits.toNat % 2 ^ 63 = n.bits.toNat - 2 ^ 63 := by
    rw [Nat.mod_eq_sub_mod hle, Nat.mod_eq_of_lt (by omega)]
  have hbits : UInt64.ofNat (n.bits.toNat % 2 ^ 63) ^^^ 0x8000000000000000 = n.bits := by
    apply UInt64.toNat_inj.1
    have hsign : (0x8000000000000000 : UInt64).toNat = 2 ^ 63 := by decide
    rw [UInt64.toNat_xor, UInt64.toNat_ofNat_of_lt' (by change _ < 2 ^ 64; omega), hsign,
      xor_signBit (Nat.mod_lt _ (by decide)), hmod]
    omega
  rw [ofMagnitude_magnitude, neg, hbits]

theorem magnitude_ofMagnitude {m : Nat} (h : m ≤ infinite) :
    (ofMagnitude false m).magnitude = m := by
  have hlt : m < 2 ^ 63 := h.trans_lt (by decide)
  simp only [ofMagnitude, magnitude, Nat.pow_eq, Bool.false_eq_true, if_false, Nat.zero_add,
    Nat.mod_eq_of_lt hlt]
  rw [UInt64.toNat_ofNat_of_lt' (by change _ < 2 ^ 64; omega), Nat.mod_eq_of_lt hlt]

/-- A finite number is written as its magnitude after its sign. -/
theorem text_of_isFinite {n : Number} (h : n.isFinite = true) :
    n.text.toList =
      if n.isNegative then '-' :: magnitudeText n.magnitude else magnitudeText n.magnitude := by
  have hlt : n.magnitude < infinite := of_decide_eq_true h
  have hnan : n.isNaN = false := by simp [isNaN, hlt.le]
  have hinf : n.isInfinite = false := by simp [isInfinite, hlt.ne]
  simp only [text, hnan, hinf, Bool.false_eq_true, if_false, String.toList_ofList]

/-- What is written for a finite magnitude is read as the number with this magnitude. -/
theorem ofNumeral_magnitudeText {m : Nat} (h : m < infinite) :
    Number.ofNumeral (String.ofList (magnitudeText m)) = ofMagnitude false m := by
  obtain ⟨num, hchars, hnum⟩ := magnitudeText_numeral h
  rw [hchars, Number.ofNumeral, String.toList_ofList, num.ofNumeral_chars, hnum]

end Number

end Rustlet
