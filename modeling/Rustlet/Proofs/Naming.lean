import Rustlet.Proofs.Proper.Rules
import Rustlet.Proofs.Streams
import Rustlet.Proofs.Tiling

/-! The names in scripts are words that are not reserved. -/
namespace Rustlet

open Scan

namespace Scan

/-- A word that is not reserved is a name. -/
theorem isName_of_isWord {name : String} (hword : isWord name.toList = true)
    (hfree : ∀ k : Keyword, k.text ≠ name) : isName name = true := by
  refine Bool.and_eq_true_iff.2 ⟨hword, Option.isNone_iff_eq_none.2 ?_⟩
  exact List.find?_eq_none.2 fun k _ => by simpa using hfree k

theorem writable_of_whole {p : Piece} {following : List Char} {l : Lexeme}
    (hp : p.Whole following) (hl : p.Says (some l)) : l.Writable := by
  cases hl with
  | number numeral => exact hp.1
  | ident hfree => exact isName_of_isWord hp.1 hfree
  | _ => trivial

end Scan

theorem Cursor.names_ofSource {source : String} {c : Cursor} (h : Cursor.ofSource source = .ok c) :
    c.Names (isName · = true) := by
  unfold Cursor.ofSource at h
  dsimp only at h
  split at h
  · cases h
  · rename_i hnone
    cases h
    intro t ht name hname
    have hwritable : t.lexeme.Writable := forall_tokens writable_of_whole hnone t ht
    rwa [hname] at hwritable

/-- What is read at the start of a text is proper. -/
theorem Grammar.Goal.given_ofSource {α : Type} {goal : Goal α} {source : String} {limits : Limits}
    {a : α} {taken : Nat} (h : goal.ofSource source limits = .ok (a, taken)) :
    ∃ c c', goal.Given (isName · = true) c a c' := by
  unfold Goal.ofSource at h
  cases hstart : Cursor.ofSource source with
  | error e =>
    rw [hstart] at h
    cases h
  | ok start =>
    rw [hstart] at h
    cases hread : (parse limits.depth goal).run start with
    | error e =>
      simp only [Bind.bind, Except.bind, hread] at h
      cases h
    | ok r =>
      simp only [Bind.bind, Except.bind, hread] at h
      cases h
      have hstart := Cursor.names_ofSource hstart
      exact ⟨start, r.2, ((takes_parse limits.depth goal start hstart).result hread).2⟩

end Rustlet
