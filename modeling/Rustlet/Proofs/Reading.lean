import Mathlib.Data.List.Forall2
import Rustlet.Grammar
import Rustlet.Proofs.Printer

/-! Readers on lexemes that are all put in one place, as functions of the lexemes alone. -/
namespace Rustlet

/-- The cursor before some lexemes that are all in one place. -/
def Cursor.flat (ls : List Lexeme) : Cursor := ⟨ls.map (⟨·, .start⟩), .start⟩

@[simp] theorem Cursor.length_flat (ls : List Lexeme) : (flat ls).rest.length = ls.length := by
  simp [flat]

theorem Cursor.lexeme?_flat (ls : List Lexeme) : (flat ls).lexeme? 0 = ls.head? := by
  cases ls <;> rfl

namespace Parse

variable {α β : Type}

theorem bind_apply (x : Parse α) (f : α → Parse β) (c : Cursor) :
    (x >>= f) c = Except.bind (x c) fun r => f r.1 r.2 := rfl

theorem pure_apply (a : α) (c : Cursor) : (pure a : Parse α) c = .ok (a, c) := rfl

theorem map_apply (f : α → β) (x : Parse α) (c : Cursor) :
    (f <$> x) c = Except.bind (x c) fun r => .ok (f r.1, r.2) := rfl

theorem bind_ok {ε : Type} (a : α) (f : α → Except ε β) : Except.bind (.ok a) f = f a := rfl

section

variable (l x : Lexeme) (ls : List Lexeme)

theorem advance_flat : advance (.flat (x :: ls)) = .ok ((), .flat ls) := rfl

theorem here_flat : here (.flat ls) = .ok (.start, .flat ls) := by
  cases ls <;> rfl

theorem current_flat : current (.flat ls) = .ok (ls.head?, .flat ls) := by
  cases ls <;> rfl

theorem atEnd_flat : atEnd (.flat ls) = .ok (ls.isEmpty, .flat ls) := by
  cases ls <;> rfl

theorem sees_flat : sees l (.flat ls) = .ok (decide (ls.head? = some l), .flat ls) := by
  cases ls <;> rfl

theorem spells_flat (k : Nat) (spelling : String) :
    spells k spelling (.flat ls) = .ok (ls[k]?.any (·.spelling == spelling), .flat ls) := by
  simp [spells, Cursor.spells, Cursor.lexeme?, Cursor.flat, Function.comp_def]

theorem skip_cons : skip l (.flat (x :: ls)) =
    if x = l then .ok (true, .flat ls) else .ok (false, .flat (x :: ls)) := by
  by_cases h : x = l <;>
    simp [skip, bind_apply, map_apply, sees_flat, bind_ok, advance_flat, pure_apply, h]

theorem skip_nil : skip l (.flat []) = .ok (false, .flat []) := rfl

theorem skip_flat (h : ls.head? ≠ some l) : skip l (.flat ls) = .ok (false, .flat ls) := by
  simp [skip, bind_apply, sees_flat, bind_ok, pure_apply, h]

theorem expect_cons : expect l (.flat (l :: ls)) = .ok ((), .flat ls) := by
  simp [expect, bind_apply, sees_flat, bind_ok, advance_flat]

theorem ident_cons (name : String) : ident (.flat (.ident name :: ls)) = .ok (name, .flat ls) := rfl

end

attribute [simp] bind_apply pure_apply map_apply bind_ok advance_flat here_flat current_flat
  atEnd_flat sees_flat spells_flat skip_nil skip_cons expect_cons ident_cons

attribute [simp] symbol keyword seesSymbol seesKeyword

/-- Rounds from one cursor to another that give some items and then stop. Each takes a token. -/
inductive RoundsTo (round : Parse (Round α)) : Cursor → List α → Cursor → Prop
  | stop {c c' : Cursor} (h : round c = .ok (.stop, c')) : RoundsTo round c [] c'
  | item {c d c' : Cursor} {a : α} {as : List α} (h : round c = .ok (.item a, d))
    (hlt : d.rest.length < c.rest.length) (hrest : RoundsTo round d as c') :
    RoundsTo round c (a :: as) c'

theorem RoundsTo.rounds {round : Parse (Round α)} {c c' : Cursor} {as : List α}
    (h : RoundsTo round c as c') (fuel : List Token) (hfuel : c.rest.length ≤ fuel.length) :
    Parse.rounds round fuel c = .ok (as, c') := by
  induction h generalizing fuel with
  | stop h =>
    cases fuel <;> simp [Parse.rounds, h]
  | item h hlt hrest ih =>
    cases fuel with
    | nil => simp only [List.length_nil] at hfuel; omega
    | cons t fuel =>
      have hrec := ih fuel (by simp only [List.length_cons] at hfuel; omega)
      simp [Parse.rounds, h, hrec]

theorem RoundsTo.many {round : Parse (Round α)} {c c' : Cursor} {as : List α}
    (h : RoundsTo round c as c') : Parse.many round c = .ok (as, c') :=
  h.rounds c.rest (Nat.le_refl _)

/-- Extensions of a result from one cursor to another, up to one that gives nothing. Each takes a
token. -/
inductive ExtendsTo (extend : α → Parse (Option α)) : α → Cursor → α → Cursor → Prop
  | done {a : α} {c c' : Cursor} (h : extend a c = .ok (none, c')) : ExtendsTo extend a c a c'
  | more {a b b' : α} {c d c' : Cursor} (h : extend a c = .ok (some b, d))
    (hlt : d.rest.length < c.rest.length) (hrest : ExtendsTo extend b d b' c') :
    ExtendsTo extend a c b' c'

theorem ExtendsTo.extensions {extend : α → Parse (Option α)} {a b : α} {c c' : Cursor}
    (h : ExtendsTo extend a c b c') (fuel : List Token) (hfuel : c.rest.length ≤ fuel.length) :
    Parse.extensions extend fuel a c = .ok (b, c') := by
  induction h generalizing fuel with
  | done h =>
    cases fuel <;> simp [Parse.extensions, h]
  | more h hlt hrest ih =>
    cases fuel with
    | nil => simp only [List.length_nil] at hfuel; omega
    | cons t fuel =>
      have hrec := ih fuel (by simp only [List.length_cons] at hfuel; omega)
      simp [Parse.extensions, h, hrec]

theorem ExtendsTo.extended {extend : α → Parse (Option α)} {a b : α} {c c' : Cursor}
    (h : ExtendsTo extend a c b c') : Parse.extended extend a c = .ok (b, c') :=
  h.extensions c.rest (Nat.le_refl _)

/-- An item of a list is read from some lexemes, up to a comma or the mark that closes the list. -/
structure ReadsItem (close : Symbol) (item : Parse α) (ls : List Lexeme) (a : α) : Prop where
  nonempty : ls ≠ []
  opens : ls.head? ≠ some (.symbol close)
  reads : ∀ s, s = .comma ∨ s = close → ∀ rest,
    item (.flat (ls ++ .symbol s :: rest)) = .ok (a, .flat (.symbol s :: rest))

theorem listUntil_listed {close : Symbol} {item : Parse α} (hclose : close ≠ .comma)
    {lss : List (List Lexeme)} {as : List α} (h : List.Forall₂ (ReadsItem close item) lss as)
    (rest : List Lexeme) :
    listUntil close item (.flat (listed lss ++ .symbol close :: rest)) =
      .ok (as, .flat (.symbol close :: rest)) := by
  refine RoundsTo.many ?_
  induction h with
  | nil => exact .stop (by simp [listed])
  | @cons ls a lss as hitem hitems ih =>
    obtain ⟨x, ls, rfl⟩ := List.exists_cons_of_ne_nil hitem.nonempty
    have hx : x ≠ .symbol close := by simpa using hitem.opens
    cases hitems with
    | nil =>
      have hread := hitem.reads close (.inr rfl) rest
      refine .item (d := .flat (.symbol close :: rest)) (a := a) ?_ ?_ ih
      · simp only [List.cons_append] at hread
        simp [listed, hx, hread]
      · simp only [Cursor.length_flat, listed, List.length_append, List.length_cons]
        omega
    | @cons ls' a' lss as hitem' hitems =>
      have hread := hitem.reads .comma (.inl rfl) (listed (ls' :: lss) ++ .symbol close :: rest)
      refine .item (d := .flat (listed (ls' :: lss) ++ .symbol close :: rest)) (a := a) ?_ ?_ ih
      · simp only [List.cons_append] at hread
        simp [listed, hx, hread, Ne.symm hclose]
      · simp only [Cursor.length_flat, listed, List.length_append, List.length_cons]
        omega

end Parse

end Rustlet
