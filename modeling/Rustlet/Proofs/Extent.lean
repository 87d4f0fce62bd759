import Mathlib.Data.List.Infix
import Rustlet.Proofs.Proper
import Rustlet.Proofs.Reading

/-! How far readers reach, and what they give. -/
namespace Rustlet

namespace Cursor

variable {c c₁ c' : Cursor} {p q : Lexeme → Prop}

/-- All names ahead are words. -/
def Names (word : String → Prop) (c : Cursor) : Prop :=
  ∀ t ∈ c.rest, ∀ name, t.lexeme = .ident name → word name

theorem Names.later {word : String → Prop} (h : c.Names word) (hlater : c'.rest <:+ c.rest) :
    c'.Names word :=
  fun t ht => h t (hlater.subset ht)

theorem Names.word {word : String → Prop} (h : c.Names word) {name : String}
    (hname : c.lexeme? 0 = some (.ident name)) : word name := by
  obtain ⟨t, ht, hl⟩ := Option.map_eq_some_iff.1 hname
  exact h t (List.mem_of_getElem? ht) name hl

/-- There are tokens between two cursors, and the last of them has a property. -/
def EndsIn (p : Lexeme → Prop) (c c' : Cursor) : Prop := ∃ t, t :: c'.rest <:+ c.rest ∧ p t.lexeme

namespace EndsIn

theorem mono (h : EndsIn p c c') (hpq : ∀ l, p l → q l) : EndsIn q c c' := by
  obtain ⟨t, ht, hp⟩ := h
  exact ⟨t, ht, hpq _ hp⟩

/-- What comes before the last token does not matter. -/
theorem earlier (hearlier : c₁.rest <:+ c.rest) (h : EndsIn p c₁ c') : EndsIn p c c' := by
  obtain ⟨t, ht, hp⟩ := h
  exact ⟨t, ht.trans hearlier, hp⟩

theorem suffix (h : EndsIn p c c') : c'.rest <:+ c.rest := by
  obtain ⟨t, ht, -⟩ := h
  exact (List.suffix_cons t _).trans ht

theorem congr (h : EndsIn p c c') (heq : c'.rest = c₁.rest) : EndsIn p c c₁ := by
  simpa only [EndsIn, heq] using h

theorem ne (h : EndsIn p c c') : c'.rest ≠ c.rest := by
  rintro heq
  obtain ⟨t, ht, -⟩ := h
  have hle := ht.length_le
  rw [heq] at hle
  exact absurd hle (by simp)

/-- There is only one last token. -/
theorem unique (h : EndsIn p c c') (h' : EndsIn q c c') : ∃ l, p l ∧ q l := by
  obtain ⟨t, ht, hp⟩ := h
  obtain ⟨u, hu, hq⟩ := h'
  have hsame : t :: c'.rest = u :: c'.rest :=
    (List.suffix_of_suffix_length_le ht hu (by simp)).eq_of_length (by simp)
  obtain ⟨rfl, -⟩ := List.cons.inj hsame
  exact ⟨t.lexeme, hp, hq⟩

/-- The last token stays if some tokens at the front are left out, but not all. -/
theorem later (h : EndsIn p c c') (h₁ : c₁.rest <:+ c.rest) (h₂ : c'.rest <:+ c₁.rest)
    (hne : c'.rest ≠ c₁.rest) : EndsIn p c₁ c' := by
  obtain ⟨t, ht, hp⟩ := h
  have hlt : c'.rest.length < c₁.rest.length :=
    Nat.lt_of_le_of_ne h₂.length_le fun heq => hne (h₂.eq_of_length heq)
  exact ⟨t, List.suffix_of_suffix_length_le ht h₁ hlt, hp⟩

/-- Some token stays the last if more are taken. -/
theorem more (h : EndsIn p c c₁) (hlater : c'.rest <:+ c₁.rest) : EndsIn (fun _ => True) c c' := by
  obtain ⟨t, ht, -⟩ := h
  obtain ⟨taken, htaken⟩ := hlater
  have hne : t :: taken ≠ [] := List.cons_ne_nil _ _
  refine ⟨(t :: taken).getLast hne, List.IsSuffix.trans ?_ ht, trivial⟩
  refine ⟨(t :: taken).dropLast, ?_⟩
  rw [← htaken, List.append_cons, List.dropLast_append_getLast hne, List.cons_append]

end EndsIn

theorem suffix_advance (c : Cursor) : c.advance.rest <:+ c.rest := List.tail_suffix c.rest

/-- The token that is known to be next. -/
theorem rest_of_lexeme {l : Lexeme} (h : c.lexeme? 0 = some l) :
    ∃ t, c.rest = t :: c.advance.rest ∧ t.lexeme = l := by
  obtain ⟨rest, stop⟩ := c
  cases rest with
  | nil => cases h
  | cons t rest => exact ⟨t, rfl, Option.some.inj h⟩

theorem endsIn_advance {l : Lexeme} (h : c.lexeme? 0 = some l) (hl : p l) :
    EndsIn p c c.advance := by
  obtain ⟨t, hrest, rfl⟩ := rest_of_lexeme h
  exact ⟨t, hrest ▸ List.suffix_rfl, hl⟩

end Cursor

namespace Parse

open Cursor

variable {α β : Type} {word : String → Prop} {c : Cursor}

theorem bind_eq_ok {x : Parse α} {f : α → Parse β} {c c'' : Cursor} {b : β}
    (h : (x >>= f) c = .ok (b, c'')) : ∃ a c', x c = .ok (a, c') ∧ f a c' = .ok (b, c'') := by
  rw [bind_apply] at h
  cases hx : x c with
  | error e => simp [hx, Except.bind] at h
  | ok r => exact ⟨r.1, r.2, rfl, by simpa [hx] using h⟩

/-- From a cursor on, a reader goes on to later tokens, and the result and the cursor it ends with
have a property. -/
structure TakesAt (c : Cursor) (x : Parse α) (P : α → Cursor → Prop) : Prop where
  result : ∀ {a c'}, x c = .ok (a, c') → c'.rest <:+ c.rest ∧ P a c'

namespace TakesAt

variable {P Q : α → Cursor → Prop} {R : β → Cursor → Prop} {x : Parse α} {f : α → Parse β}

protected theorem pure {a : α} (h : P a c) : TakesAt c (pure a) P := by
  refine ⟨fun hb => ?_⟩
  cases hb
  exact ⟨List.suffix_rfl, h⟩

protected theorem bind (hx : TakesAt c x P)
    (hf : ∀ {a c'}, c'.rest <:+ c.rest → P a c' → TakesAt c' (f a) R) :
    TakesAt c (x >>= f) R := by
  refine ⟨fun hb => ?_⟩
  obtain ⟨a, c', ha, hb⟩ := bind_eq_ok hb
  obtain ⟨hlater, hP⟩ := hx.result ha
  obtain ⟨hend, hR⟩ := (hf hlater hP).result hb
  exact ⟨hend.trans hlater, hR⟩

theorem mono (hx : TakesAt c x P) (h : ∀ {a c'}, c'.rest <:+ c.rest → P a c' → Q a c') :
    TakesAt c x Q :=
  ⟨fun ha => ⟨(hx.result ha).1, h (hx.result ha).1 (hx.result ha).2⟩⟩

/-- Looking ahead takes nothing. -/
theorem look {a : α} (hx : x c = .ok (a, c)) (hf : TakesAt c (f a) R) :
    TakesAt c (x >>= f) R := by
  refine ⟨fun hb => ?_⟩
  obtain ⟨a', c', ha, hb⟩ := bind_eq_ok hb
  cases hx.symm.trans ha
  exact hf.result hb

theorem unexpected (expected : Expectation) : TakesAt c (unexpected expected : Parse α) P :=
  ⟨fun h => by cases h⟩

theorem ite {p : Prop} [Decidable p] {y : Parse α} (hx : p → TakesAt c x P)
    (hy : ¬ p → TakesAt c y P) : TakesAt c (if p then x else y) P := by
  split
  · exact hx ‹_›
  · exact hy ‹_›

end TakesAt

/-- Where all names ahead are words, a reader goes on to later tokens; the cursors where it starts
and ends and its result are related. -/
def Takes (word : String → Prop) (x : Parse α) (P : Cursor → α → Cursor → Prop) : Prop :=
  ∀ c : Cursor, c.Names word → TakesAt c x (P c)

/-- The result has a property. -/
def Giving (Q : α → Prop) : Cursor → α → Cursor → Prop := fun _ a _ => Q a

/-- Nothing in particular. -/
def Any : Cursor → α → Cursor → Prop := Giving fun _ => True

/-- The result has a property, and so has the last token, which is there. -/
def Ending (Q : α → Prop) (p : Lexeme → Prop) : Cursor → α → Cursor → Prop :=
  fun c a c' => Q a ∧ EndsIn p c c'

/-- Either nothing is taken or there is a result like that of which it is an extension. -/
def Extending (Q : α → Prop) (p : Lexeme → Prop) : Cursor → Option α → Cursor → Prop
  | c, none, c' => c'.rest = c.rest
  | c, some a, c' => Ending Q p c a c'

/-- A relation that does not depend on what is taken first. -/
class Absorbing (P : Cursor → α → Cursor → Prop) : Prop where
  earlier : ∀ {c c₁ : Cursor} {a : α} {c' : Cursor}, c₁.rest <:+ c.rest → P c₁ a c' → P c a c'

instance (Q : α → Prop) : Absorbing (Giving Q) := ⟨fun _ h => h⟩

instance : Absorbing (Any : Cursor → α → Cursor → Prop) := ⟨fun _ h => h⟩

instance (Q : α → Prop) (p : Lexeme → Prop) : Absorbing (Ending Q p) :=
  ⟨fun hearlier h => ⟨h.1, h.2.earlier hearlier⟩⟩

namespace Takes

variable {P Q : Cursor → α → Cursor → Prop} {R : Cursor → β → Cursor → Prop} {x : Parse α}
  {f : α → Parse β}

protected theorem pure {a : α} (h : ∀ c, P c a c) : Takes word (pure a) P := fun c _ => .pure (h c)

theorem mono (hx : Takes word x P) (h : ∀ {c a c'}, P c a c' → Q c a c') : Takes word x Q :=
  fun c hc => (hx c hc).mono fun _ => h

/-- One reader after another, where only the result of the first matters. -/
theorem next [Absorbing R] (hx : Takes word x P)
    (hf : ∀ {c c'} a, P c a c' → Takes word (f a) R) : Takes word (x >>= f) R :=
  fun c hc => (hx c hc).bind fun hlater ha =>
    (hf _ ha _ (hc.later hlater)).mono fun _ hb => Absorbing.earlier hlater hb

/-- What is made of the result of a reader that nothing follows. -/
theorem last {g : α → β} (hx : Takes word x P) (h : ∀ {c c'} a, P c a c' → R c (g a) c') :
    Takes word (x >>= fun a => pure (g a)) R :=
  fun c hc => (hx c hc).bind fun _ ha => .pure (h _ ha)

/-- What follows a token does not matter where any last token will do. -/
theorem after {p : Lexeme → Prop} {S : α → Prop} {T : β → Prop} (hx : Takes word x (Ending S p))
    (hf : ∀ {c c'} a, Ending S p c a c' → Takes word (f a) (Giving T)) :
    Takes word (x >>= f) (Ending T fun _ => True) :=
  fun c hc => (hx c hc).bind fun hlater ha =>
    (hf _ ha _ (hc.later hlater)).mono fun hmore hb => ⟨hb, ha.2.more hmore⟩

theorem giving {S : α → Prop} {p : Lexeme → Prop} (hx : Takes word x (Ending S p)) :
    Takes word x (Giving S) :=
  hx.mono fun h => h.1

theorem any (hx : Takes word x P) : Takes word x Any := hx.mono fun _ => trivial

theorem unexpected (expected : Expectation) : Takes word (unexpected expected : Parse α) P :=
  fun _ _ => .unexpected expected

theorem ite {p : Prop} [Decidable p] {y : Parse α} (hx : Takes word x P) (hy : Takes word y P) :
    Takes word (if p then x else y) P :=
  fun c hc => .ite (fun _ => hx c hc) fun _ => hy c hc

/-- A reader that only looks ahead. -/
theorem peek {a : Cursor → α} (h : ∀ c, x c = .ok (a c, c)) : Takes word x Any := by
  refine fun c _ => ⟨fun ha => ?_⟩
  cases (h c).symm.trans ha
  exact ⟨List.suffix_rfl, trivial⟩

end Takes

theorem takes_here : Takes word here Any := .peek fun _ => rfl

theorem takes_spells (k : Nat) (spelling : String) : Takes word (spells k spelling) Any :=
  .peek fun _ => rfl

theorem takes_sees (l : Lexeme) : Takes word (sees l) Any := .peek fun _ => rfl

theorem takes_seesSymbol (s : Symbol) : Takes word (seesSymbol s) Any := takes_sees _

theorem takes_seesKeyword (k : Keyword) : Takes word (seesKeyword k) Any := takes_sees _

theorem takes_current : Takes word current Any := .peek fun _ => rfl

theorem takes_advance : Takes word advance Any := by
  refine fun c _ => ⟨fun h => ?_⟩
  cases h
  exact ⟨c.suffix_advance, trivial⟩

/-- A token that is known, and then a result. -/
theorem takesAt_advance {l : Lexeme} (h : c.lexeme? 0 = some l) {Q : α → Prop} {p : Lexeme → Prop}
    (hl : p l) {a : α} (ha : Q a) : TakesAt c (do advance; pure a) (Ending Q p c) := by
  refine ⟨fun hb => ?_⟩
  cases hb
  exact ⟨c.suffix_advance, ha, endsIn_advance h hl⟩

/-- A lexeme that must be there is one token. -/
theorem expect_eq_ok {l : Lexeme} {c' : Cursor} (h : expect l c = .ok ((), c')) :
    c.lexeme? 0 = some l ∧ c' = c.advance := by
  obtain ⟨seen, c₁, hseen, h⟩ := bind_eq_ok h
  cases hseen
  split at h
  · cases h
    exact ⟨of_decide_eq_true ‹_›, rfl⟩
  · cases h

theorem takes_expect (l : Lexeme) : Takes word (expect l) (Ending (fun _ => True) (· = l)) := by
  refine fun c _ => ⟨fun ha => ?_⟩
  obtain ⟨hl, rfl⟩ := expect_eq_ok ha
  exact ⟨c.suffix_advance, trivial, endsIn_advance hl rfl⟩

theorem takes_symbol (s : Symbol) :
    Takes word (symbol s) (Ending (fun _ => True) (· = .symbol s)) := takes_expect _

theorem takes_keyword (k : Keyword) :
    Takes word (keyword k) (Ending (fun _ => True) (· = .keyword k)) := takes_expect _

theorem takes_ident : Takes word ident (Ending word fun l => ∃ name, l = .ident name) := by
  refine fun c hc => .look rfl ?_
  split
  · exact takesAt_advance ‹_› ⟨_, rfl⟩ (hc.word ‹_›)
  · exact .unexpected _

theorem takes_skip (l : Lexeme) : Takes word (skip l) Any :=
  (takes_sees l).next fun _ _ =>
    .ite (takes_advance.next fun _ _ => .pure fun _ => trivial) (.pure fun _ => trivial)

/-- A choice by a lexeme that is taken if it is there. -/
theorem Takes.ifSkip {l : Lexeme} {x y : Parse α} {P : Cursor → α → Cursor → Prop}
    (hx : Takes word (do expect l; x) P) (hy : Takes word y P) :
    Takes word (do if ← skip l then x else y) P := by
  refine fun c hc => ⟨fun ha => ?_⟩
  by_cases hl : c.lexeme? 0 = some l
  · have hskip : (do if ← skip l then x else y : Parse α) c = (do expect l; x : Parse α) c := by
      simp [skip, expect, sees, advance, hl, bind_apply, bind_ok]
    exact (hx c hc).result (hskip ▸ ha)
  · have hskip : (do if ← skip l then x else y : Parse α) c = y c := by
      simp [skip, sees, hl, bind_apply, bind_ok, pure_apply]
    exact (hy c hc).result (hskip ▸ ha)

section Repetition

variable {Q : α → Prop} {p : Lexeme → Prop}

theorem Extending.getD {c₀ c' : Cursor} {a : α} {b? : Option α} (h : Extending Q p c b? c')
    (hlater : c.rest <:+ c₀.rest) (ha : Ending Q p c₀ a c) : Ending Q p c₀ (b?.getD a) c' := by
  cases b? with
  | none => exact ⟨ha.1, ha.2.congr (show c'.rest = c.rest from h).symm⟩
  | some b => exact Absorbing.earlier hlater h

/-- A result keeps its last token or has that of an extension instead. -/
theorem takesAt_extensions {extend : α → Parse (Option α)}
    (h : ∀ a, Q a → Takes word (extend a) (Extending Q p)) (fuel : List Token) {c₀ : Cursor}
    (hlater : c.rest <:+ c₀.rest) (hc : c.Names word) {a : α} (ha : Ending Q p c₀ a c) :
    TakesAt c (extensions extend fuel a) (Ending Q p c₀) := by
  induction fuel generalizing a c with
  | nil => exact (h a ha.1 c hc).bind fun _ hb => .pure (hb.getD hlater ha)
  | cons t fuel ih =>
    refine (h a ha.1 c hc).bind fun {b? c'} hnext hb => ?_
    have hend := hb.getD hlater ha
    cases b? with
    | none => exact .pure hend
    | some b => exact ih (hnext.trans hlater) (hc.later hnext) hend

theorem Takes.extended {x : Parse α} {extend : α → Parse (Option α)}
    (hx : Takes word x (Ending Q p)) (h : ∀ a, Q a → Takes word (extend a) (Extending Q p)) :
    Takes word (do let a ← x; extended extend a) (Ending Q p) :=
  fun c hc => (hx c hc).bind fun {_ c'} hlater ha =>
    ⟨fun hb => (takesAt_extensions h c'.rest hlater (hc.later hlater) ha).result hb⟩

/-- What a round adds has a property. -/
def Round.Adds (Q : α → Prop) : Round α → Prop
  | .stop | .pass => True
  | .item a => Q a

theorem takes_rounds {round : Parse (Round α)} (h : Takes word round (Giving (Round.Adds Q)))
    (fuel : List Token) : Takes word (rounds round fuel) (Giving fun as => ∀ a ∈ as, Q a) := by
  have hnil : ∀ a ∈ ([] : List α), Q a := by simp
  induction fuel with
  | nil =>
    refine h.next fun r hr => ?_
    cases r with
    | item a => exact .pure fun _ => List.forall_mem_singleton.2 hr
    | _ => exact .pure fun _ => hnil
  | cons t fuel ih =>
    refine h.next fun r hr => ?_
    cases r with
    | stop => exact .pure fun _ => hnil
    | pass => exact ih
    | item a => exact ih.last fun as has => List.forall_mem_cons.2 ⟨hr, has⟩

theorem takes_many {round : Parse (Round α)} (h : Takes word round (Giving (Round.Adds Q))) :
    Takes word (many round) (Giving fun as => ∀ a ∈ as, Q a) :=
  fun c hc => ⟨fun ha => (takes_rounds h c.rest c hc).result ha⟩

theorem takes_listUntil (close : Symbol) {item : Parse α} (h : Takes word item (Giving Q)) :
    Takes word (listUntil close item) (Giving fun as => ∀ a ∈ as, Q a) := by
  refine takes_many ((takes_seesSymbol close).next fun _ _ => .ite (.pure fun _ => trivial) ?_)
  refine h.next fun a ha => (takes_seesSymbol close).next fun _ _ => .ite (.pure fun _ => ha) ?_
  exact (takes_symbol .comma).next fun _ _ => .pure fun _ => ha

end Repetition

end Parse

end Rustlet
