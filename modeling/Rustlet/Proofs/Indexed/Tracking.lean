import Mathlib.Data.List.Find
import Rustlet.Proofs.Indexed
import Rustlet.Proofs.Scanning

/-! Reading by index under several limits at once, next to a reader that works from the front. -/
namespace Rustlet

/-- Whether a lexeme is a word or a mark of the language. -/
def Lexeme.isFixed : Lexeme → Bool
  | .keyword _ | .symbol _ => true
  | _ => false

/-- A lexeme that is not mistaken for a word or a mark of the language because of its text. -/
def Lexeme.Plain : Lexeme → Prop
  | .ident name | .number name => (∀ k : Keyword, name ≠ k.text) ∧ ∀ s : Symbol, name ≠ s.text
  | _ => True

theorem Keyword.ofText?_text (k : Keyword) : ofText? k.text = some k := by
  cases k <;> rfl

theorem Keyword.text_inj {k k' : Keyword} (h : k.text = k'.text) : k = k' := by
  have hof := congrArg ofText? h
  rw [ofText?_text, ofText?_text] at hof
  exact Option.some.inj hof

theorem Symbol.first?_chars (m : Symbol) : first? m.chars = some m := by
  cases m <;> rfl

theorem Symbol.text_inj {m m' : Symbol} (h : m.text = m'.text) : m = m' := by
  have hfirst := congrArg first? (String.ofList_injective h)
  rw [first?_chars, first?_chars] at hfirst
  exact Option.some.inj hfirst

theorem Keyword.isWord_text (k : Keyword) : Scan.isWord k.text.toList = true := by
  cases k <;> rfl

theorem Symbol.isWord_text (m : Symbol) : Scan.isWord m.text.toList = false := by
  cases m <;> rfl

theorem Keyword.text_ne_symbol (k : Keyword) (m : Symbol) : k.text ≠ m.text := by
  intro h
  have hword := k.isWord_text
  rw [h, m.isWord_text] at hword
  cases hword

/-- Words and marks are told apart by their texts. -/
theorem Lexeme.spelling_inj {l l' : Lexeme} (hl : l.isFixed = true) (hl' : l'.isFixed = true)
    (h : l.spelling = l'.spelling) : l = l' := by
  cases l with
  | keyword k =>
    cases l' with
    | keyword k' => rw [Keyword.text_inj h]
    | symbol s => exact absurd h (k.text_ne_symbol s)
    | _ => cases hl'
  | symbol s =>
    cases l' with
    | keyword k => exact absurd h.symm (k.text_ne_symbol s)
    | symbol s' => rw [Symbol.text_inj h]
    | _ => cases hl'
  | _ => cases hl

/-- A plain token is told by its text. -/
theorem Token.shows_iff {t : Token} {l : Lexeme} (hl : l.isFixed = true) (ht : t.lexeme.Plain) :
    t.shows l = true ↔ t.lexeme = l := by
  obtain ⟨m, pos⟩ := t
  -- The text of a plain identifier or numeral is not that of `l`.
  have hother : ∀ name, ((∀ k : Keyword, name ≠ k.text) ∧ ∀ s : Symbol, name ≠ s.text) →
      (name == l.spelling) = false := by
    rintro name ⟨hk, hs⟩
    rw [beq_eq_false_iff_ne]
    cases l with
    | keyword k => exact hk k
    | symbol s => exact hs s
    | _ => cases hl
  have hfixed : m.isFixed = true → ((m.spelling == l.spelling) = true ↔ m = l) := by
    intro hm
    rw [beq_iff_eq]
    exact ⟨Lexeme.spelling_inj hm hl, congrArg _⟩
  cases m with
  | ident name =>
    refine iff_of_false ?_ ?_
    · exact ne_true_of_eq_false (hother name ht)
    · rintro rfl
      cases hl
  | number name =>
    refine iff_of_false ?_ ?_
    · exact ne_true_of_eq_false (hother name ht)
    · rintro rfl
      cases hl
  | text content =>
    refine iff_of_false Bool.false_ne_true ?_
    rintro rfl
    cases hl
  | keyword k => exact hfixed rfl
  | symbol s => exact hfixed rfl

namespace Indexed

section Monad

variable {σ ε α β : Type} {x : StateT σ (Except ε) α} {f : α → StateT σ (Except ε) β} {s : σ}

theorem bind_of_ok {a : α} {s' : σ} (h : x s = .ok (a, s')) : (x >>= f) s = f a s' := by
  change StateT.bind x f s = _
  unfold StateT.bind
  rw [h]
  rfl

theorem bind_of_error {e : ε} (h : x s = .error e) : (x >>= f) s = .error e := by
  change StateT.bind x f s = _
  unfold StateT.bind
  rw [h]
  rfl

end Monad

namespace State

/-- The state with another index. -/
def seek (s : State) (j : Nat) : State := { s with index := j }

/-- The state with struct literals allowed or not. -/
def allow (s : State) (literals : Bool) : State := { s with literals := literals }

/-- What is left from an index on. -/
def cursor (s : State) (j : Nat) : Cursor := ⟨s.tokens.drop j, s.stop⟩

/-- Whether the token at an index is a given word or mark. -/
def shows (s : State) (j : Nat) (l : Lexeme) : Bool := s.tokens[j]?.any (·.shows l)

/-- No token is mistaken for another. -/
def Plain (s : State) : Prop := ∀ t ∈ s.tokens, t.lexeme.Plain

variable {s : State} {j k : Nat} {l : Lexeme}

theorem lexeme?_cursor (s : State) (j k : Nat) :
    (s.cursor j).lexeme? k = s.tokens[j + k]?.map (·.lexeme) := by
  unfold cursor Cursor.lexeme?
  rw [List.getElem?_drop]

theorem lt_of_shows (h : s.shows j l = true) : j < s.tokens.length := by
  rcases Nat.lt_or_ge j s.tokens.length with hlt | hge
  · exact hlt
  · rw [shows, List.getElem?_eq_none hge] at h
    cases h

/-- What a plain token is taken for is what it is. -/
theorem shows_eq (hs : s.Plain) (hl : l.isFixed = true) :
    s.shows j l = decide ((s.cursor j).lexeme? 0 = some l) := by
  rw [lexeme?_cursor, Nat.add_zero, shows]
  cases ht : s.tokens[j]? with
  | none => rfl
  | some t =>
    have hiff := Token.shows_iff hl (hs t (List.mem_of_getElem? ht))
    rw [Option.any_some, Option.map_some, Bool.eq_iff_iff, hiff, decide_eq_true_iff,
      Option.some_inj]

theorem lexeme?_ne (hs : s.Plain) (hl : l.isFixed = true) (h : ¬ s.shows j l = true) :
    (s.cursor j).lexeme? 0 ≠ some l := by
  rw [shows_eq hs hl, decide_eq_true_iff] at h
  exact h

theorem pos_cursor (s : State) (j : Nat) :
    (s.cursor j).pos = (s.tokens[j]?.map (·.pos)).getD s.stop := by
  unfold Cursor.pos cursor
  rw [← List.head?_drop]
  cases s.tokens.drop j <;> rfl

theorem found_cursor (s : State) (j : Nat) :
    (s.cursor j).found = (s.tokens[j]?.map (·.lexeme.spelling)).getD "end of input" := by
  unfold Cursor.found cursor
  rw [← List.head?_drop]
  cases s.tokens.drop j <;> rfl

theorem advance_cursor (s : State) (j : Nat) : (s.cursor j).advance = s.cursor (j + 1) := by
  unfold Cursor.advance cursor
  rw [List.tail_drop]

theorem length_cursor (s : State) (j : Nat) : (s.cursor j).rest.length = s.tokens.length - j :=
  List.length_drop

end State

/-- Under every one of several limits, an action that starts at an index either fails with one and
the same error in the tokens, or gives one and the same result, stays within the tokens and leaves
the flag as it was. If `F` holds, a reader that takes what is left ends alike. -/
structure Tracks {ι α : Type} (F : Prop) (s : State) (j : Nat) (Q : α → Nat → Prop)
    (x : ι → Action α) (y : ι → Parse α) : Prop where
  outcome : j ≤ s.tokens.length →
    (∃ e : ParseError, ¬ e.TooDeep ∧ ∀ i, x i (s.seek j) = .error (.refused e) ∧
      (F → y i (s.cursor j) = .error e)) ∨
    ∃ a k, k ≤ s.tokens.length ∧ Q a k ∧ ∀ i, x i (s.seek j) = .ok (a, s.seek k) ∧
      (F → y i (s.cursor j) = .ok (a, s.cursor k))

/-- At a later index. -/
abbrev Past {α : Type} (j : Nat) : α → Nat → Prop := fun _ k => j < k

/-- At the same or a later index. -/
abbrev From {α : Type} (j : Nat) : α → Nat → Prop := fun _ k => j ≤ k

variable {ι α β : Type} {F F' : Prop} {s : State} {j j' : Nat} {l : Lexeme}
  {Q Q' : α → Nat → Prop} {R : β → Nat → Prop} {x : ι → Action α} {y y' : ι → Parse α}
  {f : ι → α → Action β} {g : ι → α → Parse β}

namespace Tracks

protected theorem pure {a : α} (h : Q a j) : Tracks F s j Q (fun _ : ι => pure a) fun _ => pure a :=
  ⟨fun hj => .inr ⟨a, j, hj, h, fun _ => ⟨rfl, fun _ => rfl⟩⟩⟩

protected theorem bind (hx : Tracks F s j Q x y)
    (hf : ∀ a k, Q a k → Tracks F s k R (fun i => f i a) fun i => g i a) :
    Tracks F s j R (fun i => x i >>= f i) fun i => y i >>= g i := by
  refine ⟨fun hj => ?_⟩
  rcases hx.outcome hj with ⟨e, he, hxe⟩ | ⟨a, k, hk, hq, hxa⟩
  · exact .inl ⟨e, he, fun i => ⟨bind_of_error (hxe i).1, fun hF => bind_of_error ((hxe i).2 hF)⟩⟩
  · rcases (hf a k hq).outcome hk with ⟨e, he, hfe⟩ | ⟨b, m, hm, hr, hfb⟩
    · refine .inl ⟨e, he, fun i => ⟨?_, fun hF => ?_⟩⟩
      · rw [bind_of_ok (hxa i).1, (hfe i).1]
      · rw [bind_of_ok ((hxa i).2 hF), (hfe i).2 hF]
    · refine .inr ⟨b, m, hm, hr, fun i => ⟨?_, fun hF => ?_⟩⟩
      · rw [bind_of_ok (hxa i).1, (hfb i).1]
      · rw [bind_of_ok ((hxa i).2 hF), (hfb i).2 hF]

protected theorem map (φ : α → β) (hx : Tracks F s j Q x y) (hφ : ∀ a k, Q a k → R (φ a) k) :
    Tracks F s j R (fun i => φ <$> x i) fun i => φ <$> y i :=
  hx.bind fun a k hq => .pure (hφ a k hq)

theorem mono (hx : Tracks F s j Q x y) (hQ : ∀ a k, Q a k → Q' a k) : Tracks F s j Q' x y := by
  refine ⟨fun hj => ?_⟩
  rcases hx.outcome hj with hfail | ⟨a, k, hk, hq, hxa⟩
  · exact .inl hfail
  · exact .inr ⟨a, k, hk, hQ a k hq, hxa⟩

/-- Only what the reader does at this place matters. -/
theorem congr (hx : Tracks F s j Q x y)
    (hy : F' → F ∧ ∀ i, y' i (s.cursor j) = y i (s.cursor j)) : Tracks F' s j Q x y' := by
  refine ⟨fun hj => ?_⟩
  rcases hx.outcome hj with ⟨e, he, hxe⟩ | ⟨a, k, hk, hq, hxa⟩
  · refine .inl ⟨e, he, fun i => ⟨(hxe i).1, fun hF => ?_⟩⟩
    rw [(hy hF).2 i, (hxe i).2 (hy hF).1]
  · refine .inr ⟨a, k, hk, hq, fun i => ⟨(hxa i).1, fun hF => ?_⟩⟩
    rw [(hy hF).2 i, (hxa i).2 (hy hF).1]

/-- What the reader depends on may be replaced if it is the same under `F`. -/
theorem subst {γ : Type} {w : γ} {y : ι → γ → Parse α} (hx : Tracks F s j Q x fun i => y i w) :
    ∀ v, (F → v = w) → Tracks F s j Q x fun i => y i v :=
  fun _ hvw => hx.congr fun hF => ⟨hF, fun i => by rw [hvw hF]⟩

/-- A choice that both sides make alike. -/
protected theorem ite {c : Prop} [Decidable c] {x₁ x₂ : ι → Action α} {y₁ y₂ : ι → Parse α}
    (hyes : c → Tracks F s j Q x₁ y₁) (hno : ¬ c → Tracks F s j Q x₂ y₂) :
    Tracks F s j Q (fun i => if c then x₁ i else x₂ i) fun i => if c then y₁ i else y₂ i := by
  by_cases hc : c
  · simp only [if_pos hc]
    exact hyes hc
  · simp only [if_neg hc]
    exact hno hc

/-- A choice after which both sides go on alike. -/
theorem join {c : Prop} [Decidable c] {x₁ x₂ : ι → Action α} {y₁ y₂ : ι → Parse α}
    (hyes : c → Tracks F s j Q x₁ y₁) (hno : ¬ c → Tracks F s j Q x₂ y₂)
    (hf : ∀ a k, Q a k → Tracks F s k R (fun i => f i a) fun i => g i a) :
    Tracks F s j R (fun i => if c then x₁ i >>= f i else x₂ i >>= f i)
      fun i => if c then y₁ i >>= g i else y₂ i >>= g i :=
  .ite (fun hc => (hyes hc).bind hf) fun hc => (hno hc).bind hf

/-- A step that may be left out. -/
theorem joinUnit {c : Prop} [Decidable c] {Q : Unit → Nat → Prop} {x : ι → Action Unit}
    {y : ι → Parse Unit} {f : ι → Unit → Action β} {g : ι → Unit → Parse β}
    (hyes : c → Tracks F s j Q x y) (hno : ¬ c → Q () j)
    (hf : ∀ k, Q () k → Tracks F s k R (fun i => f i ()) fun i => g i ()) :
    Tracks F s j R (fun i => if c then x i >>= f i else f i ())
      fun i => if c then y i >>= g i else g i () :=
  .ite (fun hc => (hyes hc).bind fun _ => hf) fun hc => hf j (hno hc)

/-- A choice made by index only, with the other side still to be looked at. -/
theorem iteLeft {c : Prop} [Decidable c] {x₁ x₂ : ι → Action α} (hyes : c → Tracks F s j Q x₁ y)
    (hno : ¬ c → Tracks F s j Q x₂ y) : Tracks F s j Q (fun i => if c then x₁ i else x₂ i) y := by
  by_cases hc : c
  · simp only [if_pos hc]
    exact hyes hc
  · simp only [if_neg hc]
    exact hno hc

/-- A question by index that changes nothing. -/
theorem ask {x₀ : Action α} {v : α} {y : ι → Parse β}
    (hx : j ≤ s.tokens.length → x₀ (s.seek j) = .ok (v, s.seek j))
    (h : Tracks F s j R (fun i => f i v) y) : Tracks F s j R (fun i => x₀ >>= f i) y := by
  refine ⟨fun hj => ?_⟩
  rcases h.outcome hj with ⟨e, he, hfe⟩ | ⟨b, k, hk, hr, hfb⟩
  · refine .inl ⟨e, he, fun i => ⟨?_, (hfe i).2⟩⟩
    rw [bind_of_ok (hx hj), (hfe i).1]
  · refine .inr ⟨b, k, hk, hr, fun i => ⟨?_, (hfb i).2⟩⟩
    rw [bind_of_ok (hx hj), (hfb i).1]

/-- A question that only the reader asks. -/
theorem answer {y₀ : Parse α} {v : α} {x : ι → Action β}
    (hy : F → y₀ (s.cursor j) = .ok (v, s.cursor j)) (h : Tracks F s j R x fun i => g i v) :
    Tracks F s j R x fun i => y₀ >>= g i :=
  h.congr fun hF => ⟨hF, fun _ => bind_of_ok (hy hF)⟩

/-- A question that both sides ask. -/
theorem query {x₀ : Action α} {y₀ : Parse α} {v : α}
    (hx : j ≤ s.tokens.length → x₀ (s.seek j) = .ok (v, s.seek j))
    (hy : F → y₀ (s.cursor j) = .ok (v, s.cursor j))
    (h : Tracks F s j R (fun i => f i v) fun i => g i v) :
    Tracks F s j R (fun i => x₀ >>= f i) fun i => y₀ >>= g i :=
  ask hx (answer hy h)

end Tracks

theorem token_seek (hj : j ≤ s.tokens.length) :
    token (s.seek j) = .ok (s.tokens[j]?, s.seek j) :=
  if_pos hj

theorem current_seek (hj : j ≤ s.tokens.length) :
    current (s.seek j) = .ok ((s.cursor j).lexeme? 0, s.seek j) := by
  rw [current, bind_of_ok (token_seek hj), s.lexeme?_cursor]
  rfl

theorem here_seek (hj : j ≤ s.tokens.length) :
    here (s.seek j) = .ok ((s.cursor j).pos, s.seek j) := by
  rw [here, bind_of_ok (token_seek hj), s.pos_cursor]
  rfl

theorem value_seek (hj : j ≤ s.tokens.length) :
    value (s.seek j) =
      .ok ((((s.cursor j).lexeme? 0).map (·.spelling)).getD "", s.seek j) := by
  rw [value, bind_of_ok (current_seek hj)]
  rfl

theorem atEnd_seek (hj : j ≤ s.tokens.length) :
    atEnd (s.seek j) = .ok ((s.cursor j).rest.isEmpty, s.seek j) := by
  rw [atEnd, bind_of_ok (token_seek hj)]
  unfold State.cursor
  rw [← List.head?_drop]
  cases s.tokens.drop j <;> rfl

theorem spells_seek {m : Nat} {spelling : String} (_ : j ≤ s.tokens.length) :
    spells m spelling (s.seek j) = .ok ((s.cursor j).spells m spelling, s.seek j) := by
  rw [Cursor.spells, s.lexeme?_cursor, Option.any_map]
  rfl

theorem sees_seek (hj : j ≤ s.tokens.length) : sees l (s.seek j) = .ok (s.shows j l, s.seek j) := by
  rw [sees, bind_of_ok (token_seek hj)]
  rfl

theorem advance_seek (hj : j < s.tokens.length) :
    advance (s.seek j) = .ok ((), s.seek (j + 1)) := by
  rw [advance, bind_of_ok (token_seek (Nat.le_of_lt hj)), List.getElem?_eq_getElem hj]
  rfl

/-- Giving up is the same on both sides. -/
theorem tracks_fail (expected : Expectation) (h : expected ≠ .shallowerNesting) :
    Tracks F s j Q (fun _ : ι => fail expected) fun _ => Parse.unexpected expected := by
  refine ⟨fun hj => .inl ⟨.unexpected expected (s.cursor j).found (s.cursor j).pos, h, ?_⟩⟩
  refine fun _ => ⟨?_, fun _ => rfl⟩
  rw [fail, bind_of_ok (current_seek hj), bind_of_ok (here_seek hj), s.lexeme?_cursor,
    s.found_cursor, Option.map_map]
  rfl

/-- An error of its own ends both sides. -/
theorem tracks_throw {e : ParseError} (he : ¬ e.TooDeep) :
    Tracks F s j Q (fun _ : ι => (throw (.refused e) : Action α)) fun _ => throw e :=
  ⟨fun _ => .inl ⟨e, he, fun _ => ⟨rfl, fun _ => rfl⟩⟩⟩

/-- Going on takes a token if there is one. -/
theorem tracks_advance : Tracks F s j (fun _ k => j ≤ k ∧ (j < s.tokens.length → j < k))
    (fun _ : ι => advance) fun _ => Parse.advance := by
  refine ⟨fun hj => .inr ?_⟩
  by_cases hlt : j < s.tokens.length
  · have hlater : j ≤ j + 1 ∧ (j < s.tokens.length → j < j + 1) :=
      ⟨Nat.le_succ j, fun _ => Nat.lt_succ_self j⟩
    refine ⟨(), j + 1, hlt, hlater, fun _ => ⟨?_, fun _ => ?_⟩⟩
    · exact advance_seek hlt
    · rw [← s.advance_cursor]
      rfl
  · refine ⟨(), j, hj, ⟨Nat.le_refl j, fun h => absurd h hlt⟩, fun _ => ⟨?_, fun _ => ?_⟩⟩
    · rw [advance, bind_of_ok (token_seek hj), List.getElem?_eq_none (Nat.le_of_not_lt hlt)]
      rfl
    · have hnil : s.cursor (j + 1) = s.cursor j := by
        unfold State.cursor
        rw [List.drop_eq_nil_of_le (Nat.le_of_not_lt hlt),
          List.drop_eq_nil_of_le (Nat.le_succ_of_le (Nat.le_of_not_lt hlt))]
      change Except.ok ((), (s.cursor j).advance) = _
      rw [s.advance_cursor, hnil]

namespace Tracks

/-- A look at the next lexeme by the reader only. -/
theorem look {x : ι → Action β} {g : ι → Option Lexeme → Parse β}
    (h : Tracks F s j R x fun i => g i ((s.cursor j).lexeme? 0)) :
    Tracks F s j R x fun i => Parse.current >>= g i :=
  answer (fun _ => rfl) h

/-- A look by the reader at a lexeme that has been seen by index. -/
theorem seen {x : ι → Action β} {g : ι → Option Lexeme → Parse β} (hs : F → s.Plain)
    (hl : l.isFixed = true) (hseen : s.shows j l = true)
    (h : Tracks F s j R x fun i => g i (some l)) :
    Tracks F s j R x fun i => Parse.current >>= g i := by
  refine look (h.congr fun hF => ⟨hF, fun i => ?_⟩)
  rw [State.shows_eq (hs hF) hl, decide_eq_true_iff] at hseen
  rw [hseen]

theorem here {f : ι → Pos → Action β} {g : ι → Pos → Parse β}
    (h : Tracks F s j R (fun i => f i (s.cursor j).pos) fun i => g i (s.cursor j).pos) :
    Tracks F s j R (fun i => Indexed.here >>= f i) fun i => Parse.here >>= g i :=
  query here_seek (fun _ => rfl) h

theorem atEnd {f : ι → Bool → Action β} {g : ι → Bool → Parse β}
    (h : Tracks F s j R (fun i => f i (s.cursor j).rest.isEmpty)
      fun i => g i (s.cursor j).rest.isEmpty) :
    Tracks F s j R (fun i => Indexed.atEnd >>= f i) fun i => Parse.atEnd >>= g i :=
  query atEnd_seek (fun _ => rfl) h

theorem spells {m : Nat} {spelling : String} {f : ι → Bool → Action β} {g : ι → Bool → Parse β}
    (h : Tracks F s j R (fun i => f i ((s.cursor j).spells m spelling))
      fun i => g i ((s.cursor j).spells m spelling)) :
    Tracks F s j R (fun i => Indexed.spells m spelling >>= f i)
      fun i => Parse.spells m spelling >>= g i :=
  query spells_seek (fun _ => rfl) h

theorem sees {f : ι → Bool → Action β} {g : ι → Bool → Parse β} (hs : F → s.Plain)
    (hl : l.isFixed = true)
    (h : Tracks F s j R (fun i => f i (s.shows j l)) fun i => g i (s.shows j l)) :
    Tracks F s j R (fun i => Indexed.sees l >>= f i) fun i => Parse.sees l >>= g i := by
  refine query sees_seek (fun hF => ?_) h
  rw [State.shows_eq (hs hF) hl]
  rfl

end Tracks

/-- A word or mark is passed if it is next. -/
theorem tracks_skip (hs : F → s.Plain) (hl : l.isFixed = true) :
    Tracks F s j (fun seen k => j ≤ k ∧ (seen = true → j < k)) (fun _ : ι => skip l)
      fun _ => Parse.skip l := by
  refine .sees hs hl (.ite (fun hseen => ?_) fun _ => .pure ⟨Nat.le_refl j, fun h => by cases h⟩)
  refine .bind tracks_advance fun _ k hk => .pure ?_
  exact ⟨hk.1, fun _ => hk.2 (State.lt_of_shows hseen)⟩

/-- A word or mark that must be next is passed. -/
theorem tracks_expect (hs : F → s.Plain) (hl : l.isFixed = true) :
    Tracks F s j (Past j) (fun _ : ι => expect l) fun _ => Parse.expect l := by
  refine .sees hs hl (.ite (fun hseen => ?_) fun _ => tracks_fail _ (by nofun))
  exact tracks_advance.mono fun _ k hk => hk.2 (State.lt_of_shows hseen)

theorem atIdent_seek (hj : j ≤ s.tokens.length) :
    atIdent (s.seek j) = .ok (((s.cursor j).lexeme? 0).any (·.isIdent), s.seek j) := by
  rw [atIdent, bind_of_ok (current_seek hj)]
  rfl

theorem lt_of_lexeme? (h : (s.cursor j).lexeme? 0 = some l) : j < s.tokens.length := by
  rw [s.lexeme?_cursor, Option.map_eq_some_iff] at h
  obtain ⟨t, ht, -⟩ := h
  exact (List.getElem?_eq_some_iff.1 ht).1

/-- An identifier that must be next is passed. -/
theorem tracks_ident : Tracks F s j (Past j) (fun _ : ι => ident) fun _ => Parse.ident := by
  refine .look (.ask atIdent_seek ?_)
  cases hl : (s.cursor j).lexeme? 0 with
  | none => exact .iteLeft (fun h => by cases h) fun _ => tracks_fail _ (by nofun)
  | some l =>
    cases l with
    | ident name =>
      refine .iteLeft (fun _ => .ask value_seek ?_) fun h => absurd rfl h
      rw [hl]
      refine .bind tracks_advance fun _ k hk => .pure ?_
      exact hk.2 (lt_of_lexeme? hl)
    | _ => exact .iteLeft (fun h => by cases h) fun _ => tracks_fail _ (by nofun)

theorem allowing_seek (literals : Bool) (x : Action α) :
    allowing literals x (s.seek j) =
      (do let a ← x; modify (·.allow s.literals); pure a : Action α)
        ((s.allow literals).seek j) :=
  rfl

/-- The flag is what it was, whatever was allowed in between. -/
theorem tracks_allowing {literals : Bool} (h : Tracks F (s.allow literals) j Q x y) :
    Tracks F s j Q (fun i => allowing literals (x i)) y := by
  refine ⟨fun hj => ?_⟩
  rcases h.outcome hj with ⟨e, he, hxe⟩ | ⟨a, k, hk, hq, hxa⟩
  · refine .inl ⟨e, he, fun i => ⟨?_, (hxe i).2⟩⟩
    rw [allowing_seek, bind_of_error (hxe i).1]
  · refine .inr ⟨a, k, hk, hq, fun i => ⟨?_, (hxa i).2⟩⟩
    rw [allowing_seek, bind_of_ok (hxa i).1]
    rfl

/-- The entry of a table that belongs to the mark at an index. -/
def State.listed? (s : State) (j : Nat) (table : List (Symbol × α)) : Option α :=
  (table.find? fun entry => s.shows j (.symbol entry.1)).map (·.2)

theorem firstSeen_seek (table : List (Symbol × α)) (hj : j ≤ s.tokens.length) :
    firstSeen table (s.seek j) = .ok (s.listed? j table, s.seek j) := by
  unfold State.listed?
  induction table with
  | nil => rfl
  | cons entry rest ih =>
    obtain ⟨mark, a⟩ := entry
    rw [firstSeen, bind_of_ok (sees_seek hj), List.find?_cons]
    cases s.shows j (.symbol mark) with
    | true => rfl
    | false => exact ih

theorem lt_of_listed? {table : List (Symbol × α)} {a : α} (h : s.listed? j table = some a) :
    j < s.tokens.length := by
  unfold State.listed? at h
  rw [Option.map_eq_some_iff] at h
  obtain ⟨entry, hentry, -⟩ := h
  have hshows : s.shows j (.symbol entry.1) = true := by simpa using List.find?_some hentry
  exact State.lt_of_shows hshows

/-- A table that lists the marks that a function is defined for. -/
def Lists (table : List (Symbol × α)) (operator? : Lexeme → Option α) : Prop :=
  ∀ l, operator? l = (table.find? fun entry => decide (l = .symbol entry.1)).map (·.2)

theorem listed?_eq (hs : s.Plain) {table : List (Symbol × α)} {operator? : Lexeme → Option α}
    (h : Lists table operator?) :
    ((s.cursor j).lexeme? 0).bind operator? = s.listed? j table := by
  have hshows : ∀ entry ∈ table, s.shows j (.symbol entry.1) =
      decide ((s.cursor j).lexeme? 0 = some (.symbol entry.1)) :=
    fun entry _ => State.shows_eq hs rfl
  unfold State.listed?
  rw [List.find?_congr hshows]
  cases (s.cursor j).lexeme? 0 with
  | none =>
    rw [List.find?_eq_none.2 (fun entry _ => by simp)]
    rfl
  | some l =>
    rw [Option.bind_some, h]
    simp only [Option.some_inj]

/-- What a round of a repetition does to the index: it goes on, unless the repetition ends here. -/
def RoundFrom (S : Nat → Prop) (j : Nat) : Parse.Round α → Nat → Prop
  | .stop, k => j ≤ k ∧ S k
  | _, k => j < k

theorem exists_succ {n : ι → Nat} (h : ∀ i, j < n i) : ∃ n' : ι → Nat, n = fun i => n' i + 1 := by
  refine ⟨fun i => n i - 1, funext fun i => ?_⟩
  exact (Nat.sub_add_cancel (Nat.one_le_of_lt (h i))).symm

/-- Each round but the last takes a token, so a round for each token and one more is enough. -/
theorem tracks_rounds {S : Nat → Prop} {body : ι → Action (Parse.Round α)}
    {round : ι → Parse (Parse.Round α)}
    (hbody : ∀ k, j ≤ k → Tracks F s k (RoundFrom S k) body round)
    (fuel : List Token) (n : ι → Nat) (hfuel : s.tokens.length - j ≤ fuel.length)
    (hn : ∀ i, s.tokens.length - j ≤ n i) :
    Tracks F s j (fun _ k => j ≤ k ∧ S k) (fun i => loop (body i) (n i + 1))
      fun i => Parse.rounds (round i) fuel := by
  induction fuel generalizing j n with
  | nil =>
    refine .bind (hbody j (Nat.le_refl j)) fun r k hr => ?_
    -- No token is left here, so the round cannot have taken one.
    have hend : j < k → ¬ k ≤ s.tokens.length := by
      rw [List.length_nil] at hfuel
      omega
    cases r with
    | stop => exact .pure hr
    | pass => exact ⟨fun hk => absurd hk (hend hr)⟩
    | item a => exact ⟨fun hk => absurd hk (hend hr)⟩
  | cons t fuel ih =>
    refine .bind (hbody j (Nat.le_refl j)) fun r k hr => ?_
    have hrest : j < k → k ≤ s.tokens.length → Tracks F s k (fun _ m => j ≤ m ∧ S m)
        (fun i => loop (body i) (n i)) fun i => Parse.rounds (round i) fuel := by
      intro hlt hk
      rw [List.length_cons] at hfuel
      have hn' : ∀ i, s.tokens.length - k < n i := by
        intro i
        have hi := hn i
        omega
      obtain ⟨n, rfl⟩ := exists_succ hn'
      refine (ih (fun m hm => hbody m (by omega)) n (by omega) ?_).mono fun _ m hm => ?_
      · exact fun i => Nat.le_of_lt_succ (hn' i)
      · exact ⟨by omega, hm.2⟩
    cases r with
    | stop => exact .pure hr
    | pass => exact ⟨fun hk => (hrest hr hk).outcome hk⟩
    | item a => exact ⟨fun hk => ((hrest hr hk).bind fun as m hm => .pure hm).outcome hk⟩

/-- Rounds up to the first that stops. -/
theorem tracks_many {S : Nat → Prop} {body : ι → Action (Parse.Round α)}
    {round : ι → Parse (Parse.Round α)} {n : ι → Nat} (hn : ∀ i, s.tokens.length - j < n i)
    (hbody : ∀ k, j ≤ k → Tracks F s k (RoundFrom S k) body round) :
    Tracks F s j (fun _ k => j ≤ k ∧ S k) (fun i => loop (body i) (n i))
      fun i => Parse.many (round i) := by
  obtain ⟨n, rfl⟩ := exists_succ hn
  have hrounds := tracks_rounds hbody (s.cursor j).rest n (s.length_cursor j).ge
    fun i => Nat.le_of_lt_succ (hn i)
  exact hrounds.congr fun hF => ⟨hF, fun _ => rfl⟩

/-- What a round of extensions does to the index: it goes on, unless there is nothing to add. -/
def ExtendsFrom (j : Nat) : Option α → Nat → Prop
  | none, k => j ≤ k
  | some _, k => j < k

theorem tracks_extensions {extend : ι → α → Action (Option α)} {extend' : ι → α → Parse (Option α)}
    (hextend : ∀ a k, j ≤ k →
      Tracks F s k (ExtendsFrom k) (fun i => extend i a) fun i => extend' i a)
    (fuel : List Token) (n : ι → Nat) (hfuel : s.tokens.length - j ≤ fuel.length)
    (hn : ∀ i, s.tokens.length - j ≤ n i) (a : α) :
    Tracks F s j (From j) (fun i => grow (extend i) (n i + 1) a)
      fun i => Parse.extensions (extend' i) fuel a := by
  induction fuel generalizing j n a with
  | nil =>
    refine .bind (hextend a j (Nat.le_refl j)) fun b? k hb => ?_
    cases b? with
    | none => exact .pure hb
    | some b =>
      refine ⟨fun hk => ?_⟩
      have hlt : j < k := hb
      rw [List.length_nil] at hfuel
      omega
  | cons t fuel ih =>
    refine .bind (hextend a j (Nat.le_refl j)) fun b? k hb => ?_
    cases b? with
    | none => exact .pure hb
    | some b =>
      refine ⟨fun hk => ?_⟩
      have hlt : j < k := hb
      rw [List.length_cons] at hfuel
      have hn' : ∀ i, s.tokens.length - k < n i := by
        intro i
        have hi := hn i
        omega
      obtain ⟨n, rfl⟩ := exists_succ hn'
      have hrest := ih (fun c m hm => hextend c m (by omega)) n (by omega)
        (fun i => Nat.le_of_lt_succ (hn' i)) b
      exact (hrest.mono fun _ m hm => Nat.le_trans (Nat.le_of_lt hlt) hm).outcome hk

/-- Extensions as long as there is something to add. -/
theorem tracks_extended {extend : ι → α → Action (Option α)} {extend' : ι → α → Parse (Option α)}
    {n : ι → Nat} (hn : ∀ i, s.tokens.length - j < n i)
    (hextend : ∀ a k, j ≤ k →
      Tracks F s k (ExtendsFrom k) (fun i => extend i a) fun i => extend' i a) (a : α) :
    Tracks F s j (From j) (fun i => grow (extend i) (n i) a)
      fun i => Parse.extended (extend' i) a := by
  obtain ⟨n, rfl⟩ := exists_succ hn
  have hextensions := tracks_extensions hextend (s.cursor j).rest n (s.length_cursor j).ge
    (fun i => Nat.le_of_lt_succ (hn i)) a
  exact hextensions.congr fun hF => ⟨hF, fun _ => rfl⟩

/-- Items up to a closing mark, if each of them takes a token. -/
theorem tracks_listUntil (hs : F → s.Plain) {n : ι → Nat} (hn : ∀ i, s.tokens.length - j < n i)
    (close : Symbol) (hitem : ∀ k, j ≤ k → Tracks F s k (Past k) x y) :
    Tracks F s j (From j) (fun i => listUntil (n i) close (x i))
      fun i => Parse.listUntil close (y i) := by
  refine (tracks_many (S := fun _ => True) hn fun k hk => ?_).mono fun _ m hm => hm.1
  refine .sees hs rfl (.ite (fun _ => .pure ⟨Nat.le_refl k, trivial⟩) fun _ => ?_)
  refine .bind (hitem k hk) fun a m hm => ?_
  refine .sees hs rfl (.ite (fun _ => .pure hm) fun _ => ?_)
  exact .bind (tracks_expect hs rfl) fun _ m' hm' => .pure (Nat.lt_trans hm hm')

end Indexed

end Rustlet
