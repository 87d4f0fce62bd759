import Rustlet.Proofs.Declarations

/-! What a registry holds, whatever the order of the declarations. -/
namespace Rustlet

/-- Declarations no two of which share a name: structs with each other, methods of one struct. -/
structure Apart (ds : List Declaration) : Prop where
  structs : (structNames ds).Nodup
  methods : (methodNames ds).Nodup

/-- Every method among the declarations has its struct among them. -/
def Owned (ds : List Declaration) : Prop :=
  ∀ m : MethodDef, .method m ∈ ds → m.owner ∈ structNames ds

theorem mem_structNames {ds : List Declaration} {name : String} :
    name ∈ structNames ds ↔ ∃ d, .struct d ∈ ds ∧ d.name = name := by
  constructor
  · intro h
    obtain ⟨d, hd, hname⟩ := List.mem_filterMap.1 h
    cases d with
    | struct d => exact ⟨d, hd, Option.some.inj hname⟩
    | method m => cases hname
  · rintro ⟨d, hd, rfl⟩
    exact List.mem_filterMap.2 ⟨_, hd, rfl⟩

theorem mem_methodNames {ds : List Declaration} {owner name : String} :
    (owner, name) ∈ methodNames ds ↔
      ∃ m, .method m ∈ ds ∧ m.owner = owner ∧ m.decl.name = name := by
  constructor
  · intro h
    obtain ⟨d, hd, hname⟩ := List.mem_filterMap.1 h
    cases d with
    | struct d => cases hname
    | method m =>
      obtain ⟨rfl, rfl⟩ := Prod.mk.inj (Option.some.inj hname)
      exact ⟨m, hd, rfl, rfl⟩
  · rintro ⟨m, hm, rfl, rfl⟩
    exact List.mem_filterMap.2 ⟨_, hm, rfl⟩

namespace Apart

variable {ds ds' : List Declaration}

theorem nil : Apart [] := ⟨List.nodup_nil, List.nodup_nil⟩

theorem sublist (h : Apart ds') (hs : ds.Sublist ds') : Apart ds :=
  ⟨h.structs.sublist (hs.filterMap _), h.methods.sublist (hs.filterMap _)⟩

theorem perm (h : Apart ds) (hp : ds.Perm ds') : Apart ds' :=
  ⟨(hp.filterMap _).nodup h.structs, (hp.filterMap _).nodup h.methods⟩

/-- One more struct is apart from the others just if its name is new. -/
theorem append_struct_iff (h : Apart ds) (d : StructDef) :
    Apart (ds ++ [.struct d]) ↔ d.name ∉ structNames ds := by
  have hs : structNames (ds ++ [.struct d]) = structNames ds ++ [d.name] := by
    simp [structNames, Declaration.structName?]
  have hm : methodNames (ds ++ [.struct d]) = methodNames ds := by
    simp [methodNames, Declaration.methodName?]
  constructor
  · intro ha hin
    have hnodup := ha.structs
    rw [hs, List.nodup_append] at hnodup
    exact hnodup.2.2 _ hin _ (List.mem_singleton.2 rfl) rfl
  · intro hnew
    refine ⟨?_, hm ▸ h.methods⟩
    rw [hs]
    exact List.nodup_append.2 ⟨h.structs, by simp, by grind⟩

/-- One more method is apart from the others just if its name is new for its struct. -/
theorem append_method_iff (h : Apart ds) (m : MethodDef) :
    Apart (ds ++ [.method m]) ↔ (m.owner, m.decl.name) ∉ methodNames ds := by
  have hs : structNames (ds ++ [.method m]) = structNames ds := by
    simp [structNames, Declaration.structName?]
  have hm : methodNames (ds ++ [.method m]) = methodNames ds ++ [(m.owner, m.decl.name)] := by
    simp [methodNames, Declaration.methodName?]
  constructor
  · intro ha hin
    have hnodup := ha.methods
    rw [hm, List.nodup_append] at hnodup
    exact hnodup.2.2 _ hin _ (List.mem_singleton.2 rfl) rfl
  · intro hnew
    refine ⟨hs ▸ h.structs, ?_⟩
    rw [hm]
    exact List.nodup_append.2 ⟨h.methods, by simp, by grind⟩

end Apart

theorem Owned.perm {ds ds' : List Declaration} (h : Owned ds) (hp : ds.Perm ds') : Owned ds' := by
  intro m hm
  exact (hp.filterMap _).subset (h m (hp.symm.subset hm))

namespace Registry

variable {r r' : Registry} {ds ds' : List Declaration}

theorem addStruct_eq_ok_iff {d : StructDef} :
    r.addStruct d = .ok r' ↔ r.frozen = false ∧ r.structs.contains d.name = false ∧
      r' = { r with structs := r.structs.insert d.name d } := by
  unfold addStruct
  cases r.frozen <;> cases r.structs.contains d.name <;> simp [eq_comm]

theorem addMethod_eq_ok_iff {m : MethodDef} :
    r.addMethod m = .ok r' ↔ r.frozen = false ∧
      (r.methodsOf m.owner).contains m.decl.name = false ∧
      r' = { r with
        methods := r.methods.insert m.owner ((r.methodsOf m.owner).insert m.decl.name m) } := by
  unfold addMethod
  cases r.frozen <;> cases (r.methodsOf m.owner).contains m.decl.name <;> simp [eq_comm]

/-- All that was entered is still there. -/
structure Keeps (r r' : Registry) : Prop where
  structs : ∀ {name d}, r.structs.get? name = some d → r'.structs.get? name = some d
  methods : ∀ {owner name m}, (r.methodsOf owner).get? name = some m →
    (r'.methodsOf owner).get? name = some m

theorem Keeps.refl (r : Registry) : r.Keeps r := ⟨id, id⟩

theorem Keeps.trans {r'' : Registry} (h : r.Keeps r') (h' : r'.Keeps r'') : r.Keeps r'' :=
  ⟨fun hd => h'.structs (h.structs hd), fun hm => h'.methods (h.methods hm)⟩

/-- A registry is frozen just if every struct with methods is declared. -/
theorem freeze_eq_ok_iff :
    r.freeze = .ok r' ↔ (∀ owner, r.methods.contains owner = true →
      r.structs.contains owner = true) ∧ r' = { r with frozen := true } := by
  have howned : (r.methods.entries.find? fun e => !r.structs.contains e.1) = none ↔
      ∀ owner, r.methods.contains owner = true → r.structs.contains owner = true := by
    simp only [Table.contains_iff_mem_names r.methods, Table.names, List.find?_eq_none,
      List.mem_map, Bool.not_eq_true', Bool.not_eq_false]
    grind
  rw [← howned]
  unfold freeze
  cases r.methods.entries.find? fun e => !r.structs.contains e.1 with
  | none => simp [eq_comm]
  | some e => simp

/-- What is entered is new, so it takes nothing's place. -/
theorem keeps_of_add {d : Declaration} (h : r.add d = .ok r') : r.Keeps r' := by
  cases d with
  | struct d =>
    obtain ⟨-, hnew, rfl⟩ := addStruct_eq_ok_iff.1 h
    refine ⟨fun {name e} he => ?_, id⟩
    rw [Table.get?_insert, if_neg]
    · exact he
    · rintro rfl
      simp [Table.contains, he] at hnew
  | method m =>
    obtain ⟨-, hnew, rfl⟩ := addMethod_eq_ok_iff.1 h
    refine ⟨id, fun {owner name e} he => ?_⟩
    rw [methodsOf_insert]
    split
    · rename_i howner
      subst howner
      rw [Table.get?_insert, if_neg]
      · exact he
      · rintro rfl
        simp [Table.contains, he] at hnew
    · exact he

/-- An open registry into which exactly these declarations have been entered. -/
structure Lists (r : Registry) (ds : List Declaration) : Prop where
  isOpen : r.frozen = false
  struct_iff : ∀ name d, r.structs.get? name = some d ↔ .struct d ∈ ds ∧ d.name = name
  method_iff : ∀ owner name m, (r.methodsOf owner).get? name = some m ↔
    .method m ∈ ds ∧ m.owner = owner ∧ m.decl.name = name
  owner_iff : ∀ owner, r.methods.contains owner = true ↔ ∃ m, .method m ∈ ds ∧ m.owner = owner
  first : ∀ e ∈ r.methods.entries, ∃ p, e.2.entries.head? = some p ∧ .method p.2 ∈ ds

namespace Lists

theorem empty : Registry.empty.Lists [] where
  isOpen := rfl
  struct_iff := by simp [Registry.empty]
  method_iff := by simp [Registry.empty, methodsOf]
  owner_iff := by simp [Registry.empty, Table.contains]
  first := by simp [Registry.empty, Table.empty]

theorem contains_struct_iff (h : r.Lists ds) (name : String) :
    r.structs.contains name = true ↔ name ∈ structNames ds := by
  rw [mem_structNames, Table.contains, Option.isSome_iff_exists]
  exact exists_congr fun d => h.struct_iff name d

theorem contains_method_iff (h : r.Lists ds) (owner name : String) :
    (r.methodsOf owner).contains name = true ↔ (owner, name) ∈ methodNames ds := by
  rw [mem_methodNames, Table.contains, Option.isSome_iff_exists]
  exact exists_congr fun m => h.method_iff owner name m

/-- The first method that is listed for a struct has been entered. -/
theorem mem_of_head? (h : r.Lists ds) {owner : String} {p : String × MethodDef}
    (hp : (r.methodsOf owner).entries.head? = some p) : .method p.2 ∈ ds := by
  unfold methodsOf at hp
  cases ht : r.methods.get? owner with
  | none => simp [ht, Table.empty] at hp
  | some t =>
    obtain ⟨q, hq, hm⟩ := h.first _ (Table.mem_of_find ht)
    rw [ht, Option.getD_some] at hp
    cases hp.symm.trans hq
    exact hm

theorem addStruct {d : StructDef} (h : r.Lists ds) (ha : r.addStruct d = .ok r') :
    r'.Lists (ds ++ [.struct d]) := by
  obtain ⟨-, hnew, rfl⟩ := addStruct_eq_ok_iff.1 ha
  have hfresh : ∀ d', .struct d' ∈ ds → d'.name ≠ d.name := by
    intro d' hd' hname
    have hin := (h.contains_struct_iff d.name).2 (mem_structNames.2 ⟨d', hd', hname⟩)
    rw [hnew] at hin
    cases hin
  refine ⟨h.isOpen, fun name d' => ?_, fun owner name m => ?_, fun owner => ?_, fun e he => ?_⟩
  · rw [Table.get?_insert]
    have hold := h.struct_iff name d'
    grind
  · exact (h.method_iff owner name m).trans (by simp)
  · exact (h.owner_iff owner).trans (by simp)
  · obtain ⟨p, hp, hm⟩ := h.first e he
    exact ⟨p, hp, List.mem_append_left _ hm⟩

theorem addMethod {m : MethodDef} (h : r.Lists ds) (ha : r.addMethod m = .ok r') :
    r'.Lists (ds ++ [.method m]) := by
  obtain ⟨-, hnew, rfl⟩ := addMethod_eq_ok_iff.1 ha
  have hfresh : ∀ m', .method m' ∈ ds → m'.owner = m.owner → m'.decl.name ≠ m.decl.name := by
    intro m' hm' howner hname
    have hin := (h.contains_method_iff m.owner m.decl.name).2
      (mem_methodNames.2 ⟨m', hm', howner, hname⟩)
    rw [hnew] at hin
    cases hin
  refine ⟨h.isOpen, fun name d => ?_, fun owner name m' => ?_, fun owner => ?_, fun e he => ?_⟩
  · exact (h.struct_iff name d).trans (by simp)
  · rw [methodsOf_insert]
    have hold := h.method_iff owner name m'
    split
    · rename_i howner
      subst howner
      rw [Table.get?_insert]
      grind
    · grind
  · have hold := h.owner_iff owner
    rw [Table.contains_insert]
    grind
  · rcases Table.mem_put he with rfl | he
    -- the first method of a struct stays the first of its methods
    · rcases Table.head?_put m.decl.name m (r.methodsOf m.owner).entries with
        hput | ⟨p, hp, hput⟩
      · exact ⟨_, hput, by simp⟩
      · exact ⟨p, hput, List.mem_append_left _ (h.mem_of_head? hp)⟩
    · obtain ⟨p, hp, hm⟩ := h.first e he
      exact ⟨p, hp, List.mem_append_left _ hm⟩

theorem add {d : Declaration} (h : r.Lists ds) (ha : r.add d = .ok r') : r'.Lists (ds ++ [d]) := by
  cases d with
  | struct d => exact h.addStruct ha
  | method m => exact h.addMethod ha

/-- A declaration is accepted just if it shares no name with those before it. -/
theorem add_accepted_iff (h : r.Lists ds) (hds : Apart ds) (d : Declaration) :
    (∃ r', r.add d = .ok r') ↔ Apart (ds ++ [d]) := by
  cases d with
  | struct d =>
    rw [hds.append_struct_iff, ← h.contains_struct_iff, Bool.not_eq_true]
    exact ⟨fun ⟨_, ha⟩ => (addStruct_eq_ok_iff.1 ha).2.1,
      fun hnew => ⟨_, addStruct_eq_ok_iff.2 ⟨h.isOpen, hnew, rfl⟩⟩⟩
  | method m =>
    rw [hds.append_method_iff, ← h.contains_method_iff, Bool.not_eq_true]
    exact ⟨fun ⟨_, ha⟩ => (addMethod_eq_ok_iff.1 ha).2.1,
      fun hnew => ⟨_, addMethod_eq_ok_iff.2 ⟨h.isOpen, hnew, rfl⟩⟩⟩

/-- A registry closes just if every method has its struct, and closing changes nothing else. -/
theorem freeze_eq_ok_iff (h : r.Lists ds) :
    r.freeze = .ok r' ↔ Owned ds ∧ r' = { r with frozen := true } := by
  have howned : Owned ds ↔
      ∀ owner, r.methods.contains owner = true → r.structs.contains owner = true := by
    simp only [h.owner_iff, h.contains_struct_iff]
    constructor
    · rintro ho owner ⟨m, hm, rfl⟩
      exact ho m hm
    · intro hall m hm
      exact hall m.owner ⟨m, hm, rfl⟩
  rw [howned]
  exact Registry.freeze_eq_ok_iff

section Lookups

variable (h : r.Lists ds) (h' : r'.Lists ds') (hp : ds.Perm ds')
include h h' hp

theorem get?_structs_eq (name : String) : r'.structs.get? name = r.structs.get? name := by
  ext d
  simp only [h.struct_iff, h'.struct_iff, hp.mem_iff]

/-- Structs are found alike whatever the order of the declarations. -/
theorem struct_eq (name : String) (pos : Option Pos) : r'.struct name pos = r.struct name pos := by
  unfold struct
  rw [h.get?_structs_eq h' hp]

/-- Methods are found alike whatever the order of the declarations. -/
theorem method_eq (owner name : String) (pos : Option Pos) :
    r'.method owner name pos = r.method owner name pos := by
  have hget : (r'.methodsOf owner).get? name = (r.methodsOf owner).get? name := by
    ext m
    simp only [h.method_iff, h'.method_iff, hp.mem_iff]
  unfold method
  rw [hget]

/-- Fields are ordered alike whatever the order of the declarations. -/
theorem get?_fieldOrder_eq (name : String) :
    r'.fieldOrder.get? name = r.fieldOrder.get? name := by
  unfold fieldOrder
  rw [Table.get?_map, Table.get?_map, h.get?_structs_eq h' hp]

end Lookups

end Lists

end Registry

namespace Session

variable {s s' : Session} {ds₀ ds : List Declaration}

/-- Declarations that are accepted change the registry and the notes. -/
theorem declare_lists (h : s.registry.Lists ds₀) (hd : s.declare ds = (s', none)) :
    ∃ (r : Registry) (log : Array LogEntry), r.Lists (ds₀ ++ ds) ∧
      s' = { s with registry := r, machine := { s.machine with log := log } } := by
  induction ds generalizing s ds₀ with
  | nil =>
    obtain rfl : s = s' := congrArg Prod.fst hd
    exact ⟨s.registry, s.machine.log, by rwa [List.append_nil], rfl⟩
  | cons d rest ih =>
    unfold declare at hd
    split at hd
    · cases hd
    · rename_i r hr
      rw [List.append_cons]
      have hnext : ({ s with registry := r }.note (entered d)).registry.Lists (ds₀ ++ [d]) :=
        h.add hr
      obtain ⟨r', log, hlists, hs'⟩ := ih hnext hd
      exact ⟨r', log, hlists, hs'⟩

/-- Declarations are accepted just if no two share a name, those from before included. -/
theorem declare_accepted_iff (h : s.registry.Lists ds₀) (hds : Apart ds₀) (ds : List Declaration) :
    (s.declare ds).2 = none ↔ Apart (ds₀ ++ ds) := by
  induction ds generalizing s ds₀ with
  | nil => simpa [declare] using hds
  | cons d rest ih =>
    have hd := h.add_accepted_iff hds d
    rw [List.append_cons]
    unfold declare
    split
    · rename_i e he
      refine iff_of_false (by simp) ?_
      intro ha
      obtain ⟨r, hr⟩ := hd.2 (ha.sublist (List.sublist_append_left ..))
      cases he.symm.trans hr
    · rename_i r hr
      exact ih (h.add hr) (hd.1 ⟨r, hr⟩)

theorem freeze_accepted_iff (h : s.registry.Lists ds) : s.freeze.2 = none ↔ Owned ds := by
  unfold freeze
  cases hr : s.registry.freeze with
  | error e =>
    refine iff_of_false (by simp) ?_
    intro ho
    cases hr.symm.trans (h.freeze_eq_ok_iff.2 ⟨ho, rfl⟩)
  | ok r => exact iff_of_true rfl (h.freeze_eq_ok_iff.1 hr).1

/-- The declarations of a script are accepted in an empty registry just if no two share a name and
every method has its struct. -/
theorem prepare_accepted_iff (h : s.registry.Lists []) (items : List Stmt) :
    (s.prepare items).2 = none ↔
      Apart (bodyDeclarations items) ∧ Owned (bodyDeclarations items) := by
  have hd := declare_accepted_iff h .nil (bodyDeclarations items)
  rw [List.nil_append] at hd
  rw [← hd]
  unfold prepare
  generalize hr : s.declare (bodyDeclarations items) = r
  obtain ⟨s₁, _ | e⟩ := r
  · obtain ⟨r, log, hlists, rfl⟩ := declare_lists h hr
    simpa using freeze_accepted_iff hlists
  · simp

/-- A script whose declarations are accepted in an empty registry leaves them in it, closed. -/
theorem prepare_lists {items : List Stmt} (h : s.registry.Lists [])
    (hp : s.prepare items = (s', none)) :
    ∃ (r : Registry) (log : Array LogEntry), r.Lists (bodyDeclarations items) ∧
      s' = { s with
        registry := { r with frozen := true }, machine := { s.machine with log := log } } := by
  unfold prepare at hp
  generalize hd : s.declare (bodyDeclarations items) = q at hp
  obtain ⟨s₁, _ | e⟩ := q
  · obtain ⟨r, log, hlists, rfl⟩ := declare_lists h hd
    refine ⟨r, log, hlists, ?_⟩
    simp only [freeze] at hp
    split at hp
    · cases hp
    · rename_i r' hr
      obtain ⟨-, rfl⟩ := hlists.freeze_eq_ok_iff.1 hr
      exact (congrArg Prod.fst hp).symm
  · cases hp

end Session

end Rustlet
