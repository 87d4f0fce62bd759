import Rustlet.Proofs.Naming
import Rustlet.Value

/-! The values that fields start with. -/
namespace Rustlet

open Scan

theorem toList_shared (tag : String) : ("&" ++ tag).toList = '&' :: tag.toList := by
  simp

theorem toList_mutable (tag : String) :
    ("&mut " ++ tag).toList = '&' :: 'm' :: 'u' :: 't' :: ' ' :: tag.toList := by
  simp

namespace TypeExpr

/-- The marks of references in front of a type, from the outermost on: whether each is mutable. -/
def marks : TypeExpr → List Bool
  | path _ | unit => []
  | ref isMut target => isMut :: target.marks

/-- What is left of a type without the marks of references in front of it. -/
def referent : TypeExpr → TypeExpr
  | path p => path p
  | unit => unit
  | ref _ target => target.referent

variable {t : TypeExpr}

/-- The tag of a type without marks starts with no ampersand and holds no space. -/
theorem tag_of_marks_eq_nil (h : t.Proper (isName · = true)) (hmarks : t.marks = []) :
    t.tag.toList.head? ≠ some '&' ∧ ' ' ∉ t.tag.toList := by
  cases t with
  | unit => decide
  | ref isMut target => cases hmarks
  | path p =>
    cases p with
    | selfType => decide
    | named name =>
      have hword : isWord name.toList = true := (Bool.and_eq_true_iff.1 h).1
      have hall := inWord_of_isWord hword
      refine ⟨fun hamp => ?_, fun hspace => ?_⟩
      · cases hall '&' (List.mem_of_head? hamp)
      · cases hall ' ' hspace

theorem head?_tag_ref (isMut : Bool) (target : TypeExpr) :
    (ref isMut target).tag.toList.head? = some '&' := by
  cases isMut
  · rw [tag, toList_shared, List.head?_cons]
  · rw [tag, toList_mutable, List.head?_cons]

/-- What follows an ampersand in front of a tag does not make it the mark of a mutable reference. -/
theorem tag_ne_mut (h : t.Proper (isName · = true)) (rest : List Char) :
    t.tag.toList ≠ 'm' :: 'u' :: 't' :: ' ' :: rest := by
  intro hrest
  cases hmarks : t.marks with
  | nil =>
    have hspace := (tag_of_marks_eq_nil h hmarks).2
    simp [hrest] at hspace
  | cons isMut marks =>
    cases t with
    | ref isMut target =>
      have hhead := head?_tag_ref isMut target
      rw [hrest] at hhead
      cases hhead
    | _ => cases hmarks

end TypeExpr

namespace Value

/-- The value that a tag stands for if nothing of it is dropped. -/
def plainZero (base : String) : Value :=
  if base ∈ numericTags then .number .zero
  else if base ∈ textTags then .text ""
  else if base = "bool" then .bool false
  else .unit

theorem zero_eq (tag : String) : zero tag = plainZero (String.ofList (dropRef tag.toList)) := rfl

theorem zero_of_mem_numericTags {tag : String}
    (h : String.ofList (dropRef tag.toList) ∈ numericTags) : zero tag = .number .zero :=
  if_pos h

/-- The tags that stand for other values than the unit value are words. -/
theorem inWord_of_tag {tag : String} (h : tag ∈ numericTags ++ textTags ++ ["bool"]) :
    ∀ c ∈ tag.toList, inWord c = true := by
  have hall : (numericTags ++ textTags ++ ["bool"]).all (·.toList.all inWord) = true := by decide
  exact List.all_eq_true.1 (List.all_eq_true.1 hall tag h)

/-- What is not a word stands for the unit value. -/
theorem plainZero_of_not_inWord {base : String} {c : Char} (hc : c ∈ base.toList)
    (hword : inWord c = false) : plainZero base = .unit := by
  have hnone : base ∉ numericTags ++ textTags ++ ["bool"] := by
    intro hmem
    rw [inWord_of_tag hmem c hc] at hword
    cases hword
  simp only [List.mem_append, List.mem_singleton, not_or] at hnone
  obtain ⟨⟨hnumeric, htext⟩, hbool⟩ := hnone
  rw [plainZero, if_neg hnumeric, if_neg htext, if_neg hbool]

section Drop

variable {cs : List Char}

/-- A tag without a mark in front stays. -/
theorem dropRef_of_head (h : cs.head? ≠ some '&') : dropRef cs = cs := by
  cases cs with
  | nil => rfl
  | cons c cs =>
    have hc : c ≠ '&' := by simpa using h
    simp [dropRef, hc]

/-- An ampersand is dropped, and nothing else unless `mut` and a space follow it. -/
theorem dropRef_shared (h : ∀ rest, cs ≠ 'm' :: 'u' :: 't' :: ' ' :: rest) :
    dropRef ('&' :: cs) = cs := by
  simp [dropRef, h]

theorem dropRef_mutable (h : cs.head? ≠ some '&') :
    dropRef ('&' :: 'm' :: 'u' :: 't' :: ' ' :: cs) = cs := by
  cases cs with
  | nil => rfl
  | cons c cs =>
    have hc : c ≠ '&' := by simpa using h
    simp [dropRef, hc]

/-- Behind the mark of a mutable reference one more ampersand is dropped, and no `mut` with it. -/
theorem dropRef_mutable_amp (cs : List Char) :
    dropRef ('&' :: 'm' :: 'u' :: 't' :: ' ' :: '&' :: cs) = cs :=
  rfl

end Drop

section Types

variable {t : TypeExpr}

theorem zero_plain (h : t.Proper (isName · = true)) (hmarks : t.marks = []) :
    zero t.tag = plainZero t.tag := by
  rw [zero_eq, dropRef_of_head (TypeExpr.tag_of_marks_eq_nil h hmarks).1, String.ofList_toList]

/-- Of a reference that is not mutable only its own mark is dropped. -/
theorem zero_shared (h : t.Proper (isName · = true)) : zero ("&" ++ t.tag) = plainZero t.tag := by
  rw [zero_eq, toList_shared, dropRef_shared (TypeExpr.tag_ne_mut h), String.ofList_toList]

theorem zero_mutable_plain (h : t.Proper (isName · = true)) (hmarks : t.marks = []) :
    zero ("&mut " ++ t.tag) = plainZero t.tag := by
  rw [zero_eq, toList_mutable, dropRef_mutable (TypeExpr.tag_of_marks_eq_nil h hmarks).1,
    String.ofList_toList]

/-- Of a mutable reference to one that is not, both marks are dropped. -/
theorem zero_mutable_shared (t : TypeExpr) :
    zero ("&mut " ++ (TypeExpr.ref false t).tag) = plainZero t.tag := by
  rw [zero_eq, toList_mutable, TypeExpr.tag, toList_shared, dropRef_mutable_amp,
    String.ofList_toList]

/-- Of a mutable reference to another one, the inner mark is dropped in part. -/
theorem zero_mutable_mutable (t : TypeExpr) :
    zero ("&mut " ++ (TypeExpr.ref true t).tag) = .unit := by
  have hspace : ' ' ∈ (String.ofList ('m' :: 'u' :: 't' :: ' ' :: t.tag.toList)).toList := by
    simp
  rw [zero_eq, toList_mutable, TypeExpr.tag, toList_mutable, dropRef_mutable_amp]
  exact plainZero_of_not_inWord hspace rfl

/-- A tag of which nothing is dropped stands for a value only if it has no marks. -/
theorem plainZero_tag (h : t.Proper (isName · = true)) :
    plainZero t.tag = if t.marks = [] then zero t.referent.tag else .unit := by
  cases t with
  | path p => exact (zero_plain h rfl).symm
  | unit => exact (zero_plain h rfl).symm
  | ref isMut target =>
    exact plainZero_of_not_inWord (List.mem_of_head? (target.head?_tag_ref isMut)) rfl

/-- All marks are seen through if there are none, one, or a `&` behind a `&mut`. A type with other
marks starts as the unit value. -/
theorem zero_tag (h : t.Proper (isName · = true)) :
    zero t.tag =
      if t.marks ∈ [[], [false], [true], [true, false]] then zero t.referent.tag else .unit := by
  cases t with
  | path p => simp [TypeExpr.marks, TypeExpr.referent]
  | unit => simp [TypeExpr.marks, TypeExpr.referent]
  | ref isMut target =>
    have htarget : target.Proper (isName · = true) := h
    cases isMut with
    | false =>
      have hzero : zero (TypeExpr.ref false target).tag = plainZero target.tag :=
        zero_shared htarget
      rw [hzero, plainZero_tag htarget]
      simp [TypeExpr.marks, TypeExpr.referent]
    | true =>
      by_cases hmarks : target.marks = []
      · have hzero : zero (TypeExpr.ref true target).tag = plainZero target.tag :=
          zero_mutable_plain htarget hmarks
        rw [hzero, plainZero_tag htarget]
        simp [TypeExpr.marks, TypeExpr.referent, hmarks]
      · cases target with
        | path p => exact absurd rfl hmarks
        | unit => exact absurd rfl hmarks
        | ref isMut inner =>
          have hinner : inner.Proper (isName · = true) := htarget
          cases isMut with
          | false =>
            have hzero : zero (TypeExpr.ref true (.ref false inner)).tag = plainZero inner.tag :=
              zero_mutable_shared inner
            rw [hzero, plainZero_tag hinner]
            simp [TypeExpr.marks, TypeExpr.referent]
          | true =>
            have hzero : zero (TypeExpr.ref true (.ref true inner)).tag = .unit :=
              zero_mutable_mutable inner
            simpa [TypeExpr.marks] using hzero

theorem zero_shared_iff (h : t.Proper (isName · = true)) :
    zero ("&" ++ t.tag) = zero t.tag ↔ t.marks = [] ∨ zero t.tag = .unit := by
  rw [zero_shared h]
  by_cases hmarks : t.marks = []
  · simp [zero_plain h hmarks, hmarks]
  · rw [plainZero_tag h, if_neg hmarks]
    simp [hmarks, eq_comm]

theorem zero_mutable_iff (h : t.Proper (isName · = true)) :
    zero ("&mut " ++ t.tag) = zero t.tag ↔ t.marks.head? ≠ some true ∨ zero t.tag = .unit := by
  cases t with
  | path p => simp [zero_mutable_plain h rfl, zero_plain h rfl, TypeExpr.marks]
  | unit => simp [zero_mutable_plain h rfl, zero_plain h rfl, TypeExpr.marks]
  | ref isMut target =>
    have htarget : target.Proper (isName · = true) := h
    cases isMut with
    | false =>
      -- The one `&` is dropped either way, so the tags that are left agree.
      have hzero : zero (TypeExpr.ref false target).tag = plainZero target.tag :=
        zero_shared htarget
      simp [zero_mutable_shared, hzero, TypeExpr.marks]
    | true =>
      rw [zero_mutable_mutable]
      simp [TypeExpr.marks, eq_comm]

end Types

/-- What a type starts with, and when a reference to it starts with the same. All marks of a type
are seen through if there are none, one, or a `&` behind a `&mut`, and else it starts as the unit
value. So a `&` in front of a type changes what it starts with if the type is itself a reference,
and a `&mut` if it is itself a mutable one, unless it starts as the unit value anyway. -/
theorem zero_reference {source : String} {limits : Limits} {t : TypeExpr} {taken : Nat}
    (h : Grammar.Goal.type.ofSource source limits = .ok (t, taken)) :
    zero t.tag =
      (if t.marks ∈ [[], [false], [true], [true, false]] then zero t.referent.tag else .unit) ∧
    (zero ("&" ++ t.tag) = zero t.tag ↔ t.marks = [] ∨ zero t.tag = .unit) ∧
    (zero ("&mut " ++ t.tag) = zero t.tag ↔ t.marks.head? ≠ some true ∨ zero t.tag = .unit) := by
  obtain ⟨_, _, hnamed, -⟩ := Grammar.Goal.given_ofSource h
  exact ⟨zero_tag hnamed, zero_shared_iff hnamed, zero_mutable_iff hnamed⟩

/-- A `&mut` in front of `&f64` changes nothing. -/
theorem zero_reference_seen_through :
    let t : TypeExpr := .ref false (.path (.named "f64"))
    Grammar.Goal.type.ofSource "&f64" .default = .ok (t, 2) ∧ zero t.tag = .number .zero ∧
      zero ("&mut " ++ t.tag) = zero t.tag := by
  intro t
  have hread : Grammar.Goal.type.ofSource "&f64" .default = .ok (t, 2) := by decide +kernel
  have hnumber : zero t.tag = .number .zero := zero_of_mem_numericTags (by decide)
  exact ⟨hread, hnumber, (zero_reference hread).2.2.2 (.inl (by decide))⟩

/-- A `&` in front of `&f64` and a `&mut` in front of `&mut f64` change zero to the unit value. Both
tags are those of types that can be read. -/
theorem zero_reference_nested :
    let t : TypeExpr := .ref false (.path (.named "f64"))
    let u : TypeExpr := .ref true (.path (.named "f64"))
    Grammar.Goal.type.ofSource "&f64" .default = .ok (t, 2) ∧
      Grammar.Goal.type.ofSource "& &f64" .default = .ok (.ref false t, 3) ∧
      zero ("&" ++ t.tag) ≠ zero t.tag ∧
      Grammar.Goal.type.ofSource "&mut f64" .default = .ok (u, 3) ∧
      Grammar.Goal.type.ofSource "&mut &mut f64" .default = .ok (.ref true u, 5) ∧
      zero ("&mut " ++ u.tag) ≠ zero u.tag := by
  intro t u
  have hname : isName "f64" = true := by decide
  have hshared : zero t.tag = .number .zero := zero_of_mem_numericTags (by decide)
  have hmutable : zero u.tag = .number .zero := zero_of_mem_numericTags (by decide)
  refine ⟨by decide +kernel, by decide +kernel, ?_, by decide +kernel, by decide +kernel, ?_⟩
  · rw [Ne, zero_shared_iff (t := t) hname, hshared]
    rintro (hmarks | hunit)
    · cases hmarks
    · cases hunit
  · rw [Ne, zero_mutable_iff (t := u) hname, hmutable]
    rintro (hmarks | hunit)
    · exact hmarks rfl
    · cases hunit

end Value

end Rustlet
