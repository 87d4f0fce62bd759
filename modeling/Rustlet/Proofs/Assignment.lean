import Rustlet.Proofs.Scoping

/-! An assignment and a mark change the one binding that the name means. -/
namespace Rustlet

namespace ScopeTree

variable {t t' : ScopeTree} {s u o p : ScopeId} {x y name : String} {v : Value}

/-- A tree that is made from the outermost scope by opening scopes in those that are there, binding
names in them, assigning to names that mean something, and marking names as moved. -/
inductive Made : ScopeTree → Prop
  | root : Made root
  | openIn {t : ScopeTree} {p : ScopeId} (ht : Made t) (hp : p < t.next) : Made (t.openIn p)
  | define {t : ScopeTree} {s : ScopeId} (ht : Made t) (hs : s < t.next) (name : String)
    (v : Value) : Made (t.define s name v)
  | assign {t t' : ScopeTree} {s : ScopeId} {name : String} {v : Value} (ht : Made t)
    (hs : s < t.next) (h : t.assign? s name v = some t') : Made t'
  | markMoved {t : ScopeTree} {s : ScopeId} (ht : Made t) (hs : s < t.next) (name : String) :
    Made (t.markMoved s name)

/-- The second scope is the first or lies around it. -/
abbrev Outward (t : ScopeTree) : ScopeId → ScopeId → Prop :=
  Relation.ReflTransGen fun s p => t.link? s = some p

/-- The nearest scope that binds a name, on the way out from another. -/
inductive Nearest (t : ScopeTree) (name : String) : ScopeId → ScopeId → Prop
  | here {s : ScopeId} {b : Binding} (h : t.local? s name = some b) : Nearest t name s s
  | outward {s p o : ScopeId} (h : t.local? s name = none) (hp : t.link? s = some p)
    (ho : Nearest t name p o) : Nearest t name s o

/-- From both scopes the nearest that binds a name is the same. -/
def Share (t : ScopeTree) (name : String) (s u : ScopeId) : Prop :=
  ∃ o, t.Nearest name s o ∧ t.Nearest name u o

theorem assign?_eq_some (h : t.assign? s name v = some t') : t' = t.assign s name v := by
  unfold assign? at h
  split at h
  · exact (Option.some.inj h).symm
  · cases h

theorem assign?_eq_none_iff : t.assign? s name v = none ↔ t.owner? s name = none := by
  unfold assign? binds
  cases t.owner? s name <;> simp

theorem Made.rising (h : t.Made) : t.Rising := by
  induction h with
  | root => exact rising_root
  | openIn _ hp ih => exact ih.openIn hp
  | define _ _ name v ih => exact ih.of_link? (link?_define _ _ · _ _)
  | assign _ _ h ih =>
    rw [assign?_eq_some h]
    exact ih.of_link? (link?_update _ _ · _ _)
  | markMoved _ _ name ih => exact ih.of_link? (link?_update _ _ · _ _)

section Owner

/-- Walking along the parents finds the nearest scope, as each was opened before. -/
theorem Rising.nearest_of_owner? (h : t.Rising) (ho : t.owner? s name = some o) :
    t.Nearest name s o := by
  induction s using Nat.strongRecOn with
  | ind s ih =>
    cases hlocal : t.local? s name with
    | some b =>
      rw [owner?_of_local? hlocal] at ho
      obtain rfl := Option.some.inj ho
      exact .here hlocal
    | none =>
      cases hp : t.link? s with
      | some p =>
        have hlt := h s p hp
        rw [owner?_of_link? hlocal hp hlt] at ho
        exact .outward hlocal hp (ih p hlt ho)
      | none =>
        rw [owner?_of_outermost hlocal hp] at ho
        cases ho

theorem Rising.owner?_eq_some_iff (h : t.Rising) :
    t.owner? s name = some o ↔ t.Nearest name s o := by
  refine ⟨h.nearest_of_owner?, fun ho => ?_⟩
  induction ho with
  | here hlocal => exact owner?_of_local? hlocal
  | outward hlocal hp _ ih =>
    rw [owner?_of_link? hlocal hp (h _ _ hp)]
    exact ih

/-- No scope on the way out binds the name. -/
theorem Rising.owner?_eq_none_iff (h : t.Rising) :
    t.owner? s name = none ↔ ∀ a, t.Outward s a → t.local? a name = none := by
  constructor
  · intro hnone a ha
    induction ha using Relation.ReflTransGen.head_induction_on with
    | refl =>
      cases hlocal : t.local? a name with
      | none => rfl
      | some b => simp [owner?_of_local? hlocal] at hnone
    | @head s p hp _ ih =>
      cases hlocal : t.local? s name with
      | none =>
        rw [owner?_of_link? hlocal hp (h s p hp)] at hnone
        exact ih hnone
      | some b => simp [owner?_of_local? hlocal] at hnone
  · intro hnone
    cases ho : t.owner? s name with
    | none => rfl
    | some o =>
      -- The nearest scope lies on the way out and binds the name after all.
      have hnearest := h.nearest_of_owner? ho
      clear ho
      induction hnearest with
      | here hlocal => simp [hnone _ .refl] at hlocal
      | outward _ hp _ ih => exact ih fun a ha => hnone a (.head hp ha)

theorem Rising.share_iff (h : t.Rising) :
    t.Share name s u ↔ ∃ o, t.owner? s name = some o ∧ t.owner? u name = some o := by
  unfold Share
  simp only [h.owner?_eq_some_iff]

end Owner

section Update

variable (f : Binding → Binding)

theorem parent?_update : (t.update s name f).parent? u = t.parent? u := by
  have hlink := link?_update t s u name f
  unfold link? at hlink
  unfold parent?
  rw [hlink]

/-- A change of a binding does not change where names are bound. -/
theorem owner?_update : (t.update s x f).owner? u y = t.owner? u y := by
  induction u using Nat.strongRecOn with
  | ind u ih =>
    have hlocal : ((t.update s x f).local? u y).isSome = (t.local? u y).isSome := by
      rw [local?_update]
      split
      · exact Option.isSome_map
      · rfl
    rw [owner?, owner?, hlocal, parent?_update]
    cases t.parent? u with
    | none => rfl
    | some p =>
      dsimp only
      rw [ih p.1 p.2]

/-- A changed binding is seen from the scopes in which its name means it, and nothing else is. -/
theorem find?_update : (t.update s x f).find? u y =
    if y = x ∧ ∃ o, t.owner? s x = some o ∧ t.owner? u x = some o then (t.find? u y).map f
    else t.find? u y := by
  unfold find?
  rw [owner?_update]
  cases hu : t.owner? u y with
  | none => split <;> rfl
  | some o =>
    simp only [Option.bind_some]
    rw [local?_update]
    by_cases hy : y = x
    · subst hy
      rw [hu]
      by_cases ho : t.owner? s y = some o
      · rw [if_pos ⟨ho, rfl⟩, if_pos ⟨rfl, o, ho, rfl⟩]
      · rw [if_neg fun h => ho h.1, if_neg]
        rintro ⟨-, o', ho', hsame⟩
        exact ho (ho'.trans hsame.symm)
    · rw [if_neg fun h => hy h.2.symm, if_neg fun h => hy h.1]

/-- A name with a nearest scope that binds it means something. -/
theorem Nearest.exists_find? (h : t.Rising) (ho : t.Nearest name u o) :
    ∃ b, t.find? u name = some b := by
  induction ho with
  | @here s b hlocal => exact ⟨b, find?_of_local? hlocal⟩
  | outward hlocal hp _ ih =>
    rw [find?_of_link? hlocal hp (h _ _ hp)]
    exact ih

theorem Rising.find?_update_of_share (h : t.Rising) (hshare : t.Share x s u) :
    ∃ b, t.find? u x = some b ∧ (t.update s x f).find? u x = some (f b) := by
  obtain ⟨o, hs, hu⟩ := h.share_iff.1 hshare
  obtain ⟨b, hb⟩ := (h.nearest_of_owner? hu).exists_find? h
  refine ⟨b, hb, ?_⟩
  rw [find?_update, if_pos ⟨rfl, o, hs, hu⟩, hb]
  rfl

theorem Rising.find?_update_of_not_share (h : t.Rising) (hnot : ¬ (y = x ∧ t.Share x s u)) :
    (t.update s x f).find? u y = t.find? u y := by
  rw [find?_update, if_neg]
  rintro ⟨hy, hsame⟩
  exact hnot ⟨hy, h.share_iff.2 hsame⟩

end Update

end ScopeTree

namespace Eval

variable {m : Machine} {s : ScopeId} {x : String} {v : Value} {pos : Pos}

theorem assign_of_none (h : m.scopes.assign? s x v = none) :
    assign s x v pos m = .error (.fault ⟨.unknownName x, some pos⟩) m := by
  have hnot : ¬ m.scopes.binds s x = true := by
    intro hbinds
    simp [ScopeTree.assign?, hbinds] at h
  change (if m.scopes.binds s x = true then _ else _ : Eval Unit) m = _
  rw [if_neg hnot]
  rfl

theorem assign_of_some {t : ScopeTree} (h : m.scopes.assign? s x v = some t) :
    assign s x v pos m = .ok () { m with scopes := t } := by
  have hbinds : m.scopes.binds s x = true := by
    cases hbinds : m.scopes.binds s x with
    | true => rfl
    | false => simp [ScopeTree.assign?, hbinds] at h
  rw [ScopeTree.assign?_eq_some h]
  change (if m.scopes.binds s x = true then _ else _ : Eval Unit) m = _
  rw [if_pos hbinds]
  rfl

end Eval

namespace ScopeTree

/-- In every tree that can be made, an assignment to a name fails just if neither its scope nor any
around it binds the name, and then the state stays as it is. Otherwise the name means the new value,
and has not been moved, in each scope for which the nearest that binds it is the same; whatever else
is looked up from wherever is as it was before. Marking a name as moved never fails, and changes
just the mark of that binding. -/
theorem made_assignment {t : ScopeTree} (ht : t.Made) (s : ScopeId) (x : String) (v : Value) :
    (t.assign? s x v = none ↔ ∀ a, t.Outward s a → t.local? a x = none) ∧
    (t.assign? s x v = none → ∀ (m : Machine) (pos : Pos), m.scopes = t →
      Eval.assign s x v pos m = .error (.fault ⟨.unknownName x, some pos⟩) m) ∧
    (∀ t', t.assign? s x v = some t' →
      (∀ (m : Machine) (pos : Pos), m.scopes = t →
        Eval.assign s x v pos m = .ok () { m with scopes := t' }) ∧
      ∀ u y, (y = x ∧ t.Share x s u → t'.find? u y = some ⟨v, false⟩) ∧
        (¬ (y = x ∧ t.Share x s u) → t'.find? u y = t.find? u y)) ∧
    (∀ m : Machine, m.scopes = t →
      Eval.markMoved s x m = .ok () { m with scopes := t.markMoved s x }) ∧
    ∀ u y, (y = x ∧ t.Share x s u → ∃ b, t.find? u y = some b ∧
        (t.markMoved s x).find? u y = some ⟨b.value, true⟩) ∧
      (¬ (y = x ∧ t.Share x s u) → (t.markMoved s x).find? u y = t.find? u y) := by
  have hrising := ht.rising
  refine ⟨?_, ?_, ?_, ?_, ?_⟩
  · rw [assign?_eq_none_iff]
    exact hrising.owner?_eq_none_iff
  · rintro hnone m pos rfl
    exact Eval.assign_of_none hnone
  · intro t' h
    refine ⟨?_, fun u y => ⟨?_, fun hnot => ?_⟩⟩
    · rintro m pos rfl
      exact Eval.assign_of_some h
    · rintro ⟨rfl, hshare⟩
      obtain ⟨b, -, hb⟩ := hrising.find?_update_of_share (fun _ => ⟨v, false⟩) hshare
      rw [assign?_eq_some h]
      exact hb
    · rw [assign?_eq_some h]
      exact hrising.find?_update_of_not_share _ hnot
  · rintro m rfl
    rfl
  · refine fun u y => ⟨?_, fun hnot => hrising.find?_update_of_not_share _ hnot⟩
    rintro ⟨rfl, hshare⟩
    exact hrising.find?_update_of_share _ hshare

/-- Two scopes inside the outermost, of which the second binds `x` anew. Assigning to `x` from the
first is seen there and in the outermost scope, but not in the second. -/
theorem made_assignment_shadowed :
    let t := (((root.define 0 "x" (.bool false)).openIn 0).openIn 0).define 2 "x" .unit
    let t' := t.assign 1 "x" (.bool true)
    t.Made ∧ t.Share "x" 1 0 ∧ ¬ t.Share "x" 1 2 ∧ t.assign? 1 "x" (.bool true) = some t' ∧
      t'.find? 1 "x" = some ⟨.bool true, false⟩ ∧ t'.find? 0 "x" = some ⟨.bool true, false⟩ ∧
      t'.find? 2 "x" = some ⟨.unit, false⟩ ∧ t.assign? 1 "y" .unit = none ∧
      ∀ a, t.Outward 1 a → t.local? a "y" = none := by
  intro t t'
  have ht : t.Made :=
    .define (.openIn (.openIn (.define .root (by decide) _ _) (by decide)) (by decide)) (by decide)
      _ _
  have hself : t.Share "x" 1 1 :=
    ⟨0, .outward rfl rfl (.here rfl), .outward rfl rfl (.here rfl)⟩
  have hroot : t.Share "x" 1 0 := ⟨0, .outward rfl rfl (.here rfl), .here rfl⟩
  have hnot : ¬ t.Share "x" 1 2 := by
    rw [ht.rising.share_iff]
    rintro ⟨o, h₁, h₂⟩
    have hne : t.owner? 1 "x" ≠ t.owner? 2 "x" := by decide +kernel
    exact hne (h₁.trans h₂.symm)
  have hassign : t.assign? 1 "x" (.bool true) = some t' := by
    have hbinds : t.binds 1 "x" = true := by decide +kernel
    rw [assign?, if_pos hbinds]
  obtain ⟨-, -, hsome, -, -⟩ := made_assignment ht 1 "x" (.bool true)
  obtain ⟨-, hfind⟩ := hsome t' hassign
  have hmissing : t.assign? 1 "y" .unit = none := assign?_eq_none_iff.2 (by decide +kernel)
  obtain ⟨hnone, -, -, -, -⟩ := made_assignment ht 1 "y" .unit
  refine ⟨ht, hroot, hnot, hassign, (hfind 1 "x").1 ⟨rfl, hself⟩, (hfind 0 "x").1 ⟨rfl, hroot⟩, ?_,
    hmissing, hnone.1 hmissing⟩
  rw [(hfind 2 "x").2 fun h => hnot h.2]
  exact find?_of_local? rfl

end ScopeTree

end Rustlet
