import Mathlib.Data.List.Forall2
import Rustlet.Proofs.Relabelling

/-! Reading two scripts side by side. -/
namespace Rustlet

namespace Cursor

/-- The cursor after the next `k` tokens. -/
def skip (c : Cursor) (k : Nat) : Cursor := { c with rest := c.rest.drop k }

/-- Whether a brace and then a closing brace or a name follow the next token. -/
def opensFields (c : Cursor) : Bool :=
  c.spells 1 "\x7b" && match c.lexeme? 2 with
    | some (.symbol .closeBrace) | some (.ident _) => true
    | _ => false

/-- What look-ahead sees behind the next token, which tells what is looked for there: a receiver
behind an ampersand, and the rest of a macro, a path or a struct literal behind a name. -/
def ahead (c : Cursor) : List Bool :=
  match c.lexeme? 0 with
  | some (.symbol .amp) => [c.spells 1 "self", c.spells 1 "mut" && c.spells 2 "self"]
  | some (.ident _) => [c.spells 1 "!" && c.spells 2 "(", c.spells 1 "::", c.opensFields]
  | some (.keyword .selfTypeKw) => [c.spells 1 "::", c.spells 1 "\x7b"]
  | _ => []

theorem found_eq (c : Cursor) :
    c.found = (c.rest[0]?.map (·.lexeme.spelling)).getD "end of input" := by
  unfold found
  cases c.rest <;> rfl

theorem pos_eq {c : Cursor} {t : Token} (h : c.rest[0]? = some t) : c.pos = t.pos := by
  unfold pos
  cases hc : c.rest with
  | nil => simp [hc] at h
  | cons u rest =>
    simp only [hc, List.getElem?_cons_zero, Option.some.injEq] at h
    exact congrArg Token.pos h

end Cursor

/-- Two lexemes that are the same, or two texts that are the same up to their contents. -/
inductive SameLexeme (content : String → String) : Option Lexeme → Option Lexeme → Prop
  | same (l : Option Lexeme) : SameLexeme content l l
  | text {s s' : String} (h : content s' = content s) :
    SameLexeme content (some (.text s)) (some (.text s'))

namespace SameLexeme

variable {content : String → String}

theorem of_tokens {place place' : Pos → Pos} {tokens tokens' : List Token}
    (h : tokens'.map (Relabelling.marking place' content).token =
      tokens.map (Relabelling.marking place content).token) (k : Nat) :
    SameLexeme content (tokens[k]?.map (·.lexeme)) (tokens'[k]?.map (·.lexeme)) := by
  have hk := congrArg (·[k]?) h
  simp only [List.getElem?_map] at hk
  cases ht : tokens[k]? with
  | none =>
    cases ht' : tokens'[k]? with
    | none => exact .same none
    | some t' => simp [ht, ht'] at hk
  | some t =>
    cases ht' : tokens'[k]? with
    | none => simp [ht, ht'] at hk
    | some t' =>
      obtain ⟨l, p⟩ := t
      obtain ⟨l', p'⟩ := t'
      simp only [ht, ht', Option.map_some, Option.some.injEq, Relabelling.token,
        Token.mk.injEq] at hk
      have hl := hk.1
      cases l <;> cases l' <;> simp only [Relabelling.lexeme, reduceCtorEq, Lexeme.ident.injEq,
        Lexeme.number.injEq, Lexeme.text.injEq, Lexeme.keyword.injEq, Lexeme.symbol.injEq] at hl
      case text.text => exact .text hl
      all_goals
        subst hl
        exact .same _

theorem eq_some_iff {l l' : Option Lexeme} (h : SameLexeme content l l') {x : Lexeme}
    (hx : ∀ s, x ≠ .text s) : l' = some x ↔ l = some x := by
  cases h with
  | same l => exact Iff.rfl
  | text hs => constructor <;> intro he <;> exact absurd (Option.some.inj he).symm (hx _)

end SameLexeme

/-- Two scripts that look the same ahead and whose tokens are the same, up to the contents of texts
and to places. The second is read with room for so many levels of nesting more. -/
structure Parallel where
  place : Pos → Pos
  place' : Pos → Pos
  content : String → String
  left : Cursor
  right : Cursor
  room : Nat
  tokens : right.rest.map (Relabelling.marking place' content).token =
    left.rest.map (Relabelling.marking place content).token
  stop : place' right.stop = place left.stop
  ahead : ∀ k, (right.skip k).ahead = (left.skip k).ahead

namespace Parallel

variable (P : Parallel)

/-- How the first script is relabelled. -/
abbrev labels : Relabelling := .marking P.place P.content

/-- How the second script is relabelled. -/
abbrev labels' : Relabelling := .marking P.place' P.content

/-- Two cursors after equally many tokens. -/
inductive At : Cursor → Cursor → Prop
  | mk (k : Nat) : At (P.left.skip k) (P.right.skip k)

/-- Two errors that blame the same token for the same reason. They name the token alike unless it is
a text. -/
inductive SameError : ParseError → ParseError → Prop
  | same (expected : Expectation) (found : String) {p p' : Pos} (hp : P.place' p' = P.place p) :
    SameError (.unexpected expected found p) (.unexpected expected found p')
  | text (expected : Expectation) {k : Nat} {s s' : String} {p p' : Pos}
    (h : P.left.rest[k]? = some ⟨.text s, p⟩) (h' : P.right.rest[k]? = some ⟨.text s', p'⟩)
    (hs : P.content s' = P.content s) (hp : P.place' p' = P.place p) :
    SameError (.unexpected expected s p) (.unexpected expected s' p')

variable {P} {α β : Type} {c c' : Cursor}

theorem At.advance (h : P.At c c') : P.At c.advance c'.advance := by
  obtain ⟨k⟩ := h
  have hk : ∀ d : Cursor, (d.skip k).advance = d.skip (k + 1) := by
    intro d
    simp [Cursor.skip, Cursor.advance]
  rw [hk, hk]
  exact .mk (k + 1)

theorem At.tokens (h : P.At c c') : c'.rest.map P.labels'.token = c.rest.map P.labels.token := by
  obtain ⟨k⟩ := h
  simp only [Cursor.skip, List.map_drop, P.tokens]

theorem At.stop (h : P.At c c') : c.stop = P.left.stop := by
  obtain ⟨k⟩ := h
  rfl

theorem At.length (h : P.At c c') : c'.rest.length = c.rest.length := by
  simpa using congrArg List.length h.tokens

theorem At.ahead (h : P.At c c') : c'.ahead = c.ahead := by
  obtain ⟨k⟩ := h
  exact P.ahead k

theorem At.lexeme (h : P.At c c') (k : Nat) :
    SameLexeme P.content (c.lexeme? k) (c'.lexeme? k) :=
  .of_tokens h.tokens k

theorem At.pos (h : P.At c c') : P.place' c'.pos = P.place c.pos := by
  have ht := h.tokens
  obtain ⟨k⟩ := h
  unfold Cursor.pos
  generalize hl : (P.left.skip k).rest = l at ht
  generalize hr : (P.right.skip k).rest = r at ht
  cases l with
  | nil =>
    cases r with
    | nil => exact P.stop
    | cons t' _ => simp at ht
  | cons t _ =>
    cases r with
    | nil => simp at ht
    | cons t' _ =>
      simp only [List.map_cons, List.cons.injEq, Relabelling.token, Token.mk.injEq] at ht
      exact ht.1.2

/-- Giving up at two cursors that are abreast gives the same error. -/
theorem At.unexpected (h : P.At c c') (expected : Expectation) :
    P.SameError (.unexpected expected c.found c.pos) (.unexpected expected c'.found c'.pos) := by
  have hp := h.pos
  have hl := h.lexeme 0
  obtain ⟨k⟩ := h
  have hget : ∀ d : Cursor, (d.skip k).rest[0]? = d.rest[k]? := by
    intro d
    simp [Cursor.skip]
  rw [Cursor.found_eq, Cursor.found_eq]
  unfold Cursor.lexeme? at hl
  generalize hd : (P.left.skip k).rest[0]? = o at hl
  generalize hd' : (P.right.skip k).rest[0]? = o' at hl
  cases o with
  | none =>
    cases o' with
    | none => exact .same _ _ hp
    | some t' =>
      obtain ⟨l', p'⟩ := t'
      cases hl
  | some t =>
    obtain ⟨l, p⟩ := t
    cases o' with
    | none => cases hl
    | some t' =>
      obtain ⟨l', p'⟩ := t'
      rw [Cursor.pos_eq hd, Cursor.pos_eq hd'] at hp ⊢
      rw [hget] at hd hd'
      simp only [Option.map_some] at hl
      cases hl with
      | same => exact .same _ _ hp
      | text hs => exact .text _ hd hd' hs hp

section Readers

variable {V : α → α → Prop} {W : β → β → Prop} {x y : Parse α} {f g : α → Parse β}

variable (P) in
/-- The ends of two readings match: their results are related and their cursors abreast, or their
errors are the same. If the second has more room, the first may also find the nesting too deep. -/
inductive Matches (V : α → α → Prop) :
    Except ParseError (α × Cursor) → Except ParseError (α × Cursor) → Prop
  | ok {a a' : α} {d d' : Cursor} (ha : V a a') (hd : P.At d d') :
    Matches V (.ok (a, d)) (.ok (a', d'))
  | error {e e' : ParseError} (h : P.SameError e e') : Matches V (.error e) (.error e')
  | deep {e : ParseError} {r : Except ParseError (α × Cursor)} (hroom : 0 < P.room)
    (he : e.TooDeep) : Matches V (.error e) r

variable (P) in
/-- Two readers whose ends match wherever they start abreast. -/
structure Together (V : α → α → Prop) (x y : Parse α) : Prop where
  run : ∀ c c', P.At c c' → P.Matches V (x c) (y c')

variable (P) in
/-- Two values that are the same once they are relabelled, in the methods of any struct. -/
@[simp] def Alike (φ : Relabelling → Option String → α → β) (a a' : α) : Prop :=
  ∀ owner, φ P.labels' owner a' = φ P.labels owner a

theorem Matches.bind (hx : P.Matches V (x c) (y c'))
    (hf : ∀ a a' d d', V a a' → P.At d d' → P.Matches W (f a d) (g a' d')) :
    P.Matches W ((x >>= f) c) ((y >>= g) c') := by
  change P.Matches W (StateT.bind x f c) (StateT.bind y g c')
  unfold StateT.bind
  generalize x c = r at hx
  generalize y c' = r' at hx
  cases hx with
  | ok ha hd => exact hf _ _ _ _ ha hd
  | error h => exact .error h
  | deep hroom he => exact .deep hroom he

namespace Together

protected theorem pure {a a' : α} (h : V a a') : P.Together V (pure a) (pure a') :=
  ⟨fun _ _ hc => .ok h hc⟩

protected theorem bind (hx : P.Together V x y)
    (hf : ∀ a a', V a a' → P.Together W (f a) (g a')) : P.Together W (x >>= f) (y >>= g) :=
  ⟨fun c c' hc => (hx.run c c' hc).bind fun a a' d d' ha hd => (hf a a' ha).run d d' hd⟩

/-- The case of `bind` where both readers go on with the same value. -/
theorem bind_eq (hx : P.Together Eq x y) (hf : ∀ a, P.Together W (f a) (g a)) :
    P.Together W (x >>= f) (y >>= g) :=
  .bind hx fun a _ ha => ha ▸ hf a

theorem mono {V' : α → α → Prop} (hx : P.Together V x y) (hV : ∀ a a', V a a' → V' a a') :
    P.Together V' x y := by
  refine ⟨fun c c' hc => ?_⟩
  have hm := hx.run c c' hc
  generalize x c = r at hm
  generalize y c' = r' at hm
  cases hm with
  | ok ha hd => exact .ok (hV _ _ ha) hd
  | error h => exact .error h
  | deep hroom he => exact .deep hroom he

theorem map {φ : α → β} (hx : P.Together V x y) (hφ : ∀ a a', V a a' → W (φ a) (φ a')) :
    P.Together W (φ <$> x) (φ <$> y) :=
  .bind hx fun a a' ha => .pure (hφ a a' ha)

end Together

theorem together_unexpected (expected : Expectation) :
    P.Together V (Parse.unexpected expected) (Parse.unexpected expected) :=
  ⟨fun _ _ hc => .error (hc.unexpected expected)⟩

theorem together_here :
    P.Together (fun p p' => P.place' p' = P.place p) Parse.here Parse.here :=
  ⟨fun _ _ hc => .ok hc.pos hc⟩

theorem together_advance : P.Together Eq Parse.advance Parse.advance :=
  ⟨fun _ _ hc => .ok rfl hc.advance⟩

theorem together_current : P.Together (SameLexeme P.content) Parse.current Parse.current :=
  ⟨fun _ _ hc => .ok (hc.lexeme 0) hc⟩

/-- A choice by the next lexeme is a choice at the cursors where it stands. -/
theorem matches_current_bind {f g : Option Lexeme → Parse α}
    (h : P.Matches V (f (c.lexeme? 0) c) (g (c'.lexeme? 0) c')) :
    P.Matches V ((Parse.current >>= f) c) ((Parse.current >>= g) c') := h

theorem together_atEnd : P.Together Eq Parse.atEnd Parse.atEnd := by
  refine ⟨fun c c' hc => .ok ?_ hc⟩
  have hl := hc.length
  cases hd : c.rest <;> cases hd' : c'.rest <;> simp_all

section Lexemes

variable {l : Lexeme} (hl : ∀ s, l ≠ .text s)
include hl

theorem together_sees : P.Together Eq (Parse.sees l) (Parse.sees l) :=
  ⟨fun _ _ hc => .ok (decide_eq_decide.2 ((hc.lexeme 0).eq_some_iff hl).symm) hc⟩

theorem together_skip : P.Together Eq (Parse.skip l) (Parse.skip l) := by
  refine .bind_eq (together_sees hl) fun seen => ?_
  split
  · exact .bind_eq together_advance fun _ => .pure rfl
  · exact .pure rfl

theorem together_expect : P.Together Eq (Parse.expect l) (Parse.expect l) := by
  refine .bind_eq (together_sees hl) fun seen => ?_
  split
  · exact together_advance
  · exact together_unexpected _

end Lexemes

theorem together_seesSymbol (s : Symbol) :
    P.Together Eq (Parse.seesSymbol s) (Parse.seesSymbol s) :=
  together_sees (by simp)

theorem together_seesKeyword (k : Keyword) :
    P.Together Eq (Parse.seesKeyword k) (Parse.seesKeyword k) :=
  together_sees (by simp)

theorem together_skipSymbol (s : Symbol) :
    P.Together Eq (Parse.skip (.symbol s)) (Parse.skip (.symbol s)) :=
  together_skip (by simp)

theorem together_skipKeyword (k : Keyword) :
    P.Together Eq (Parse.skip (.keyword k)) (Parse.skip (.keyword k)) :=
  together_skip (by simp)

theorem together_symbol (s : Symbol) : P.Together Eq (Parse.symbol s) (Parse.symbol s) :=
  together_expect (by simp)

theorem together_keyword (k : Keyword) : P.Together Eq (Parse.keyword k) (Parse.keyword k) :=
  together_expect (by simp)

theorem together_ident : P.Together Eq Parse.ident Parse.ident := by
  refine .bind together_current fun l l' hl => ?_
  cases hl with
  | same l =>
    split
    · exact .bind_eq together_advance fun _ => .pure rfl
    · exact together_unexpected _
  | text hs => exact together_unexpected _

/-- Two rounds of a repetition that end alike, with related items if there are any. -/
inductive SameRound (V : α → α → Prop) : Parse.Round α → Parse.Round α → Prop
  | stop : SameRound V .stop .stop
  | pass : SameRound V .pass .pass
  | item {a a' : α} (h : V a a') : SameRound V (.item a) (.item a')

theorem together_rounds {round round' : Parse (Parse.Round α)}
    (hr : P.Together (SameRound V) round round') {fuel fuel' : List Token}
    (hfuel : fuel'.length = fuel.length) :
    P.Together (List.Forall₂ V) (Parse.rounds round fuel) (Parse.rounds round' fuel') := by
  induction fuel generalizing fuel' with
  | nil =>
    obtain rfl : fuel' = [] := List.length_eq_zero_iff.1 hfuel
    refine .bind hr fun r r' h => ?_
    cases h with
    | stop => exact .pure .nil
    | pass => exact .pure .nil
    | item ha => exact .pure (.cons ha .nil)
  | cons t fuel ih =>
    cases fuel' with
    | nil => simp at hfuel
    | cons t' fuel' =>
      have hrest := ih (Nat.succ.inj hfuel)
      refine .bind hr fun r r' h => ?_
      cases h with
      | stop => exact .pure .nil
      | pass => exact hrest
      | item ha => exact .bind hrest fun as as' has => .pure (.cons ha has)

theorem together_many {round round' : Parse (Parse.Round α)}
    (hr : P.Together (SameRound V) round round') :
    P.Together (List.Forall₂ V) (Parse.many round) (Parse.many round') :=
  ⟨fun c c' hc => (together_rounds hr hc.length).run c c' hc⟩

/-- Two extensions of a result that end alike. -/
inductive SameOption (V : α → α → Prop) : Option α → Option α → Prop
  | none : SameOption V none none
  | some {a a' : α} (h : V a a') : SameOption V (some a) (some a')

theorem together_extensions {extend extend' : α → Parse (Option α)}
    (he : ∀ a a', V a a' → P.Together (SameOption V) (extend a) (extend' a'))
    {fuel fuel' : List Token} (hfuel : fuel'.length = fuel.length) {a a' : α} (ha : V a a') :
    P.Together V (Parse.extensions extend fuel a) (Parse.extensions extend' fuel' a') := by
  induction fuel generalizing fuel' a a' with
  | nil =>
    obtain rfl : fuel' = [] := List.length_eq_zero_iff.1 hfuel
    refine .bind (he a a' ha) fun o o' h => .pure ?_
    cases h with
    | none => exact ha
    | some hb => exact hb
  | cons t fuel ih =>
    cases fuel' with
    | nil => simp at hfuel
    | cons t' fuel' =>
      refine .bind (he a a' ha) fun o o' h => ?_
      cases h with
      | none => exact .pure ha
      | some hb => exact ih (Nat.succ.inj hfuel) hb

theorem together_extended {extend extend' : α → Parse (Option α)}
    (he : ∀ a a', V a a' → P.Together (SameOption V) (extend a) (extend' a')) {a a' : α}
    (ha : V a a') : P.Together V (Parse.extended extend a) (Parse.extended extend' a') :=
  ⟨fun c c' hc => (together_extensions he hc.length ha).run c c' hc⟩

theorem together_listUntil (close : Symbol) {item item' : Parse α} (hi : P.Together V item item') :
    P.Together (List.Forall₂ V) (Parse.listUntil close item) (Parse.listUntil close item') := by
  refine together_many (.bind_eq (together_seesSymbol close) fun closed => ?_)
  split
  · exact .pure .stop
  · refine .bind hi fun a a' ha => .bind_eq (together_seesSymbol close) fun closed => ?_
    split
    · exact .pure (.item ha)
    · exact .bind_eq (together_symbol .comma) fun _ => .pure (.item ha)

theorem Alike.map {φ : Relabelling → Option String → α → β} {as as' : List α}
    (h : List.Forall₂ (P.Alike φ) as as') :
    P.Alike (fun ρ owner => List.map (φ ρ owner)) as as' := by
  intro owner
  induction h with
  | nil => rfl
  | cons ha _ ih => exact List.cons_eq_cons.2 ⟨ha owner, ih⟩

end Readers

end Parallel

end Rustlet
