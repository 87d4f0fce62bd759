import Mathlib.Data.Set.Card
import Mathlib.Logic.Relation
import Mathlib.Tactic.Choose
import Rustlet.Proofs.Showing

/-! Unfolded from a value on, instances are a tree, cut short where one stands inside itself. -/
namespace Rustlet

open Relation

/-- What is shown of an instance is a field of it. -/
theorem Instance.contains_of_mem_shown {order : FieldOrder} {i : Instance} {name : String}
    (h : name ∈ i.shown order) : i.fields.contains name = true := by
  unfold Instance.shown at h
  rcases List.mem_append.1 h with h | h
  · exact (List.mem_filter.1 h).2
  · exact (i.fields.contains_iff_mem_names name).2 (List.mem_filter.1 h).1

namespace Heap

/-- An instance refers to another by one of its fields. -/
def Refers (h : Heap) (id id' : InstanceId) : Prop :=
  ∃ name, (h.get id).fields.get? name = some (.inst id')

/-- A value leads to an instance, by any number of fields. -/
def Reaches (h : Heap) (v : Value) (id : InstanceId) : Prop :=
  ∃ root, v = .inst root ∧ ReflTransGen h.Refers root id

/-- The instances that a value leads to. -/
def reachable (h : Heap) (v : Value) : Set InstanceId := {id | id < h.size ∧ h.Reaches v id}

/-- A value inside the instances of a path, innermost first, unfolds to a text. An instance is
written in full unless it is one that is cut there. -/
inductive Unfolds (h : Heap) (order : FieldOrder) (cuts : List InstanceId → InstanceId → Prop) :
    List InstanceId → Value → String → Prop
  | scalar {path : List InstanceId} {v : Value} (hv : ∀ id, v ≠ .inst id) :
    Unfolds h order cuts path v v.scalarText
  | cut {path : List InstanceId} {id : InstanceId} (hcut : cuts path id) :
    Unfolds h order cuts path (.inst id) (Instance.elided (h.get id).type)
  | full {path : List InstanceId} {id : InstanceId} (hcut : ¬ cuts path id)
    (texts : String → String) (hfields : ∀ name ∈ (h.get id).shown order,
      Unfolds h order cuts (id :: path) (h.field id name) (texts name)) :
    Unfolds h order cuts path (.inst id) (Instance.text (h.get id).type
      (((h.get id).shown order).map fun name => name ++ ": " ++ texts name))

/-- Cuts an instance inside itself. -/
def insideItself (path : List InstanceId) (id : InstanceId) : Prop := id ∈ path

/-- Cuts no instance. -/
def nowhere (_ : List InstanceId) (_ : InstanceId) : Prop := False

variable {h : Heap} {order : FieldOrder} {cuts : List InstanceId → InstanceId → Prop}
  {path : List InstanceId} {v : Value} {id : InstanceId} {name text text' : String}

theorem Unfolds.unique (ht : h.Unfolds order cuts path v text)
    (ht' : h.Unfolds order cuts path v text') : text' = text := by
  induction ht generalizing text' with
  | scalar hv =>
    cases ht' with
    | scalar _ => rfl
    | cut _ => exact absurd rfl (hv _)
    | full _ _ _ => exact absurd rfl (hv _)
  | cut hcut =>
    cases ht' with
    | scalar hv => exact absurd rfl (hv _)
    | cut _ => rfl
    | full hnot _ _ => exact absurd hcut hnot
  | full hnot texts hfields ih =>
    cases ht' with
    | scalar hv => exact absurd rfl (hv _)
    | cut hcut => exact absurd hcut hnot
    | full _ texts' hfields' =>
      congr 1
      refine List.map_congr_left fun name hname => ?_
      rw [ih name hname (hfields' name hname)]

/-- A field that is shown has a value. -/
theorem get?_of_mem_shown (hname : name ∈ (h.get id).shown order) :
    (h.get id).fields.get? name = some (h.field id name) := by
  have hsome := Instance.contains_of_mem_shown hname
  unfold Table.contains at hsome
  obtain ⟨w, hw⟩ := Option.isSome_iff_exists.1 hsome
  unfold field
  rw [hw]
  rfl

theorem refers_of_mem_shown (hname : name ∈ (h.get id).shown order) {id' : InstanceId}
    (hfield : h.field id name = .inst id') : h.Refers id id' :=
  ⟨name, by rw [get?_of_mem_shown hname, hfield]⟩

/-- What a field leads to, its instance leads to. -/
theorem Reaches.of_field (hname : name ∈ (h.get id).shown order) {id' : InstanceId}
    (hreach : h.Reaches (h.field id name) id') : h.Reaches (.inst id) id' := by
  obtain ⟨root, hroot, hpath⟩ := hreach
  exact ⟨id, rfl, .head (refers_of_mem_shown hname hroot) hpath⟩

theorem finite_reachable (h : Heap) (v : Value) : (h.reachable v).Finite :=
  (Set.finite_lt_nat h.size).subset fun _ hid => hid.1

/-- No more instances are reached than there are. -/
theorem ncard_reachable_le (h : Heap) (v : Value) : (h.reachable v).ncard ≤ h.size := by
  have hsub : h.reachable v ⊆ (Finset.range h.size : Set InstanceId) :=
    fun id hid => by simpa using hid.1
  have hcard := Set.ncard_le_ncard hsub (Finset.finite_toSet _)
  rwa [Set.ncard_coe_finset, Finset.card_range] at hcard

/-- Different instances of a finite set are no more than the set has. -/
theorem length_le_ncard {among : Set InstanceId} (hfinite : among.Finite) (hnodup : path.Nodup)
    (hpath : ∀ p ∈ path, p ∈ among) : path.length ≤ among.ncard := by
  have hsub : (path.toFinset : Set InstanceId) ⊆ among := by
    intro p hp
    exact hpath p (by simpa using hp)
  have hcard := Set.ncard_le_ncard hsub hfinite
  rwa [Set.ncard_coe_finset, List.toFinset_card_of_nodup hnodup] at hcard

/-- A value has a text where the depth and the path together exceed the instances that are met on
the way. An instance is met on a path once, so these are what the depth has to last for. -/
theorem exists_debugWithin? {among : Set InstanceId} (hfinite : among.Finite) (depth : Nat)
    (hnodup : path.Nodup) (hpath : ∀ p ∈ path, p ∈ among) (hv : h.reachable v ⊆ among)
    (hdepth : among.ncard < depth + path.length) :
    ∃ text, h.debugWithin? order depth path v = some text ∧
      h.Unfolds order insideItself path v text := by
  induction depth generalizing path v with
  | zero =>
    have := length_le_ncard hfinite hnodup hpath
    omega
  | succ depth ih =>
    cases v with
    | inst id =>
      by_cases hid : id ∈ path
      · exact ⟨_, by rw [debugWithin?_inst, if_pos hid], .cut hid⟩
      · have hfields : ∀ name ∈ (h.get id).shown order, ∃ text,
            h.debugWithin? order depth (id :: path) (h.field id name) = some text ∧
              h.Unfolds order insideItself (id :: path) (h.field id name) text := by
          intro name hname
          -- Only an instance that is there has a field.
          have hlt : id < h.size := by
            by_contra hge
            have hsome := get?_of_mem_shown hname
            rw [get_of_size_le (Nat.le_of_not_lt hge), Table.get?_empty] at hsome
            cases hsome
          refine ih (List.nodup_cons.2 ⟨hid, hnodup⟩) ?_ ?_ ?_
          · intro p hp
            rcases List.mem_cons.1 hp with rfl | hp
            · exact hv ⟨hlt, p, rfl, .refl⟩
            · exact hpath p hp
          · exact fun id' hid' => hv ⟨hid'.1, .of_field hname hid'.2⟩
          · rw [List.length_cons]
            omega
        choose! texts htexts hunfolds using hfields
        refine ⟨_, ?_, .full hid texts hunfolds⟩
        rw [debugWithin?_inst, if_neg hid, mapM_eq_some_map fun name hname => by
          rw [htexts name hname]
          rfl]
        rfl
    | _ => exact ⟨_, rfl, .scalar (by simp)⟩

/-- Enough depth for the instances that are reached is enough for the text. -/
theorem exists_debug? (h : Heap) (order : FieldOrder) (v : Value) {depth : Nat}
    (hdepth : (h.reachable v).ncard < depth) :
    ∃ text, h.debug? order depth v = some text ∧ h.Unfolds order insideItself [] v text := by
  rw [debug?_eq]
  exact exists_debugWithin? (h.finite_reachable v) depth List.nodup_nil (by simp) subset_rfl hdepth

/-- The text of a value is its unfolding. -/
theorem unfolds_debug (h : Heap) (order : FieldOrder) (v : Value) :
    h.Unfolds order insideItself [] v (h.debug order v) := by
  have hdepth : (h.reachable v).ncard < h.depth := Nat.lt_succ_of_le (h.ncard_reachable_le v)
  obtain ⟨text, htext, hunfolds⟩ := h.exists_debug? order v hdepth
  unfold debug
  rw [htext]
  exact hunfolds

/-- The text of an instance lists the fields that are shown, each as it unfolds inside of it. -/
theorem exists_debug_inst (h : Heap) (order : FieldOrder) (id : InstanceId) :
    ∃ texts : String → String, (∀ name ∈ (h.get id).shown order,
        h.Unfolds order insideItself [id] (h.field id name) (texts name)) ∧
      h.debug order (.inst id) = Instance.text (h.get id).type
        (((h.get id).shown order).map fun name => name ++ ": " ++ texts name) := by
  have hunfolds := h.unfolds_debug order (.inst id)
  generalize h.debug order (.inst id) = text at hunfolds
  cases hunfolds with
  | scalar hv => exact absurd rfl (hv id)
  | cut hcut => cases hcut
  | full _ texts hfields => exact ⟨texts, hfields, rfl⟩

theorem debug?_eq_some_debug (h : Heap) (order : FieldOrder) (v : Value) {depth : Nat}
    (hdepth : (h.reachable v).ncard < depth) :
    h.debug? order depth v = some (h.debug order v) := by
  obtain ⟨text, htext, hunfolds⟩ := h.exists_debug? order v hdepth
  rw [htext, hunfolds.unique (h.unfolds_debug order v)]

/-- Whatever the depth, there is no other text. -/
theorem eq_debug_of_debug? {depth : Nat} (htext : h.debug? order depth v = some text) :
    text = h.debug order v := by
  have hboth := debug?_of_le (Nat.le_max_left depth h.depth) htext
  rw [h.debug?_eq_some_debug order v (Nat.lt_of_lt_of_le
    (Nat.lt_succ_of_le (h.ncard_reachable_le v)) (Nat.le_max_right depth h.depth))] at hboth
  exact (Option.some.inj hboth).symm

/-- Without cycles no instance stands inside itself, so cutting short makes no difference. -/
theorem Unfolds.uncut (ht : h.Unfolds order insideItself path v text)
    (hacyclic : ∀ id, h.Reaches v id → ¬ TransGen h.Refers id id)
    (hpath : ∀ p ∈ path, ∀ id, v = .inst id → TransGen h.Refers p id) :
    h.Unfolds order nowhere path v text := by
  induction ht with
  | scalar hv => exact .scalar hv
  | @cut path id hcut => exact absurd (hpath id hcut id rfl) (hacyclic id ⟨id, rfl, .refl⟩)
  | @full path id hcut texts hfields ih =>
    refine .full not_false texts fun name hname => ih name hname ?_ ?_
    · exact fun id' hid' => hacyclic id' (.of_field hname hid')
    · intro p hp id' hid'
      have hrefers := refers_of_mem_shown hname hid'
      rcases List.mem_cons.1 hp with rfl | hp
      · exact .single hrefers
      · exact (hpath p hp id rfl).tail hrefers

/-- The text of a value is its unfolding in which an instance is cut short inside itself and nowhere
else. Instances are nested in it at most one level deeper than the value leads to instances. If it
leads to no cycle, the text is the unfolding without cuts, however instances are shared. -/
theorem debug_unfolds (h : Heap) (order : FieldOrder) (v : Value) :
    (∀ text, h.Unfolds order insideItself [] v text ↔ text = h.debug order v) ∧
      (∀ depth, (h.reachable v).ncard + 1 ≤ depth →
        h.debug? order depth v = some (h.debug order v)) ∧
      ((∀ id, h.Reaches v id → ¬ TransGen h.Refers id id) →
        ∀ text, h.Unfolds order nowhere [] v text ↔ text = h.debug order v) := by
  have hunfolds := h.unfolds_debug order v
  refine ⟨fun text => ⟨hunfolds.unique, ?_⟩, fun depth hdepth => ?_, fun hacyclic text => ?_⟩
  · rintro rfl
    exact hunfolds
  · exact h.debug?_eq_some_debug order v hdepth
  · have huncut := hunfolds.uncut hacyclic (by simp)
    refine ⟨huncut.unique, ?_⟩
    rintro rfl
    exact huncut

/-- An instance that two fields share is written in full in both. -/
theorem debug_unfolds_shared :
    let h : Heap := ⟨#[⟨"Pair", ⟨[("left", .inst 1), ("right", .inst 1)]⟩⟩,
      ⟨"Leaf", ⟨[("on", .bool true)]⟩⟩]⟩
    let text := "Pair \x7b left: Leaf \x7b on: true \x7d, right: Leaf \x7b on: true \x7d \x7d"
    (h.reachable (.inst 0)).ncard + 1 ≤ 3 ∧ h.debug? .empty 3 (.inst 0) = some text ∧
      (∀ id, h.Reaches (.inst 0) id → ¬ TransGen h.Refers id id) ∧
      h.Unfolds .empty insideItself [] (.inst 0) text ∧
      h.Unfolds .empty nowhere [] (.inst 0) text := by
  intro h text
  have htext : text = h.debug .empty (.inst 0) := by decide
  have hless : ∀ {id id' : Nat}, h.Refers id id' → id < id' := by
    rintro id id' ⟨name, hname⟩
    have hid : id < 2 := by
      by_contra hge
      rw [get_of_size_le (Nat.le_of_not_lt hge)] at hname
      cases hname
    have hmem := Table.mem_of_find hname
    rcases Nat.le_one_iff_eq_zero_or_eq_one.1 (Nat.le_of_lt_succ hid) with rfl | rfl
    · change (name, Value.inst id') ∈ [("left", Value.inst 1), ("right", Value.inst 1)] at hmem
      simp only [List.mem_cons, Prod.mk.injEq, Value.inst.injEq, List.not_mem_nil, or_false] at hmem
      rcases hmem with ⟨-, rfl⟩ | ⟨-, rfl⟩ <;> exact Nat.zero_lt_one
    · change (name, Value.inst id') ∈ [("on", Value.bool true)] at hmem
      cases List.mem_singleton.1 hmem
  have hlt : ∀ {id id'}, TransGen h.Refers id id' → id < id' := by
    intro id id' ht
    induction ht with
    | single hrefers => exact hless hrefers
    | tail _ hrefers ih => exact ih.trans (hless hrefers)
  have hacyclic : ∀ id, h.Reaches (.inst 0) id → ¬ TransGen h.Refers id id :=
    fun id _ hcycle => Nat.lt_irrefl id (hlt hcycle)
  have hdepth : (h.reachable (.inst 0)).ncard + 1 ≤ 3 := Nat.succ_le_succ (h.ncard_reachable_le _)
  obtain ⟨hinside, hdebug, hnowhere⟩ := debug_unfolds h .empty (.inst 0)
  refine ⟨hdepth, (hdebug 3 hdepth).trans (congrArg some htext.symm), hacyclic, ?_, ?_⟩
  · exact (hinside text).2 htext
  · exact (hnowhere hacyclic text).2 htext

/-- An instance that holds itself is cut short in itself. -/
example : (⟨#[⟨"Node", ⟨[("on", .bool true), ("next", .inst 0)]⟩⟩]⟩ : Heap).debug .empty (.inst 0) =
    "Node \x7b on: true, next: Node \x7b .. \x7d \x7d" := by
  decide

end Heap

end Rustlet
