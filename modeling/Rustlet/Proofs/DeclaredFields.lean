import Rustlet.Proofs.Instances
import Rustlet.Proofs.Unfolding

/-! Instances have the fields that their structs declare, in that order. -/
namespace Rustlet

namespace Instance

theorem length_intercalate {fields : List String} (h : fields ≠ []) :
    (", ".intercalate fields).length + 2 = (fields.map (·.length + 2)).sum := by
  induction fields with
  | nil => exact absurd rfl h
  | cons field rest ih =>
    cases rest with
    | nil => simp
    | cons next rest =>
      have hrest := ih (List.cons_ne_nil next rest)
      rw [String.intercalate_cons_cons, String.length_append, String.length_append, List.map_cons,
        List.sum_cons, ← hrest]
      have hcomma : ", ".length = 2 := by decide
      omega

theorem length_text (type : String) {fields : List String} (h : fields ≠ []) :
    (text type fields).length = type.length + 3 + (fields.map (·.length + 2)).sum := by
  have hopen : " \x7b ".length = 3 := by decide
  have hclose : " \x7d".length = 2 := by decide
  rw [← length_intercalate h, text, if_neg (by simpa using h), String.length_append,
    String.length_append, String.length_append]
  omega

/-- Fields that are left out are missed in the sum of lengths. -/
theorem sum_length_of_sublist {fields fields' : List String} (h : fields'.Sublist fields) :
    (fields'.map (·.length + 2)).sum + fields.length ≤
      (fields.map (·.length + 2)).sum + fields'.length := by
  induction h with
  | slnil => exact Nat.le_refl _
  | cons field _ ih =>
    simp only [List.map_cons, List.sum_cons, List.length_cons]
    omega
  | cons_cons field _ ih =>
    simp only [List.map_cons, List.sum_cons, List.length_cons]
    omega

/-- A text that lists fewer fields is another text. -/
theorem eq_of_text_eq {type : String} {fields fields' : List String}
    (hsub : fields'.Sublist fields) (h : text type fields' = text type fields) :
    fields' = fields := by
  by_cases hnil : fields = []
  · subst hnil
    exact List.sublist_nil.1 hsub
  · have hlength := congrArg String.length h
    rw [length_text type hnil] at hlength
    by_cases hnil' : fields' = []
    · subst hnil'
      change type.length = _ at hlength
      omega
    · rw [length_text type hnil'] at hlength
      have hsum := sum_length_of_sublist hsub
      exact hsub.eq_of_length_le (by omega)

end Instance

namespace Heap

/-- The text of an instance lists fields of some names in this order and nothing else, each with the
value it has. -/
def Lists (h : Heap) (order : FieldOrder) (id : InstanceId) (names : List String) : Prop :=
  ∃ texts : String → String,
    (∀ name ∈ names, ∃ v, (h.get id).fields.get? name = some v ∧
      h.Unfolds order insideItself [id] v (texts name)) ∧
    h.debug order (.inst id) =
      Instance.text (h.get id).type (names.map fun name => name ++ ": " ++ texts name)

/-- The text of an instance lists each of the declared fields once, in the order of declaration. -/
def ListsOnce (h : Heap) (order : FieldOrder) (id : InstanceId) (declared : List String) : Prop :=
  ∃ names, names.Nodup ∧ names.Sublist declared ∧ (∀ name ∈ declared, name ∈ names) ∧
    h.Lists order id names

variable {h : Heap} {order : FieldOrder} {id : InstanceId} {names names' : List String}

theorem lists_shown (h : Heap) (order : FieldOrder) (id : InstanceId) :
    h.Lists order id ((h.get id).shown order) := by
  obtain ⟨texts, hfields, hdebug⟩ := h.exists_debug_inst order id
  exact ⟨texts, fun name hname => ⟨_, get?_of_mem_shown hname, hfields name hname⟩, hdebug⟩

/-- Of two rows of names that are listed, one is not part of the other. -/
theorem Lists.eq_of_sublist (hl : h.Lists order id names) (hl' : h.Lists order id names')
    (hsub : names'.Sublist names) : names' = names := by
  obtain ⟨texts, hfields, hdebug⟩ := hl
  obtain ⟨texts', hfields', hdebug'⟩ := hl'
  have hsame : ∀ name ∈ names', name ++ ": " ++ texts' name = name ++ ": " ++ texts name := by
    intro name hname
    obtain ⟨v, hv, hunfolds⟩ := hfields name (hsub.subset hname)
    obtain ⟨v', hv', hunfolds'⟩ := hfields' name hname
    obtain rfl := Option.some.inj (hv.symm.trans hv')
    rw [hunfolds.unique hunfolds']
  rw [List.map_congr_left hsame, hdebug] at hdebug'
  have hmap := Instance.eq_of_text_eq (hsub.map _) hdebug'.symm
  exact hsub.eq_of_length (by simpa using congrArg List.length hmap)

/-- What is listed as it is declared is listed once just if it is declared once. -/
theorem Lists.once_iff (hl : h.Lists order id names) :
    h.ListsOnce order id names ↔ names.Nodup := by
  constructor
  · rintro ⟨names', hnodup, hsub, -, hl'⟩
    rwa [← hl.eq_of_sublist hl' hsub]
  · intro hnodup
    exact ⟨names, hnodup, .refl names, fun _ hname => hname, hl⟩

end Heap

/-- The text of every instance lists the fields as its struct declares them. So it lists each field
once just if none is declared twice. -/
def Registry.ListsDeclared (r : Registry) (order : FieldOrder) (h : Heap) : Prop :=
  ∀ id < h.size, ∃ d, r.structs.get? (h.get id).type = some d ∧ h.Lists order id d.fieldNames ∧
    (h.ListsOnce order id d.fieldNames ↔ d.fieldNames.Nodup)

/-- Fields that are all there are shown as the order has them, if it has all of them. -/
theorem Instance.shown_eq {order : FieldOrder} {i : Instance} {declared : List String}
    (horder : order.get? i.type = some declared)
    (hfields : ∀ name, i.fields.contains name = true ↔ name ∈ declared) :
    i.shown order = declared := by
  have hlisted : declared.filter i.fields.contains = declared :=
    List.filter_eq_self.2 fun name hname => (hfields name).2 hname
  have hrest : i.fields.names.filter (· ∉ declared) = [] := by
    refine List.filter_eq_nil_iff.2 fun name hname => ?_
    have hmem := (hfields name).1 ((i.fields.contains_iff_mem_names name).2 hname)
    simpa using hmem
  unfold Instance.shown
  rw [horder, Option.getD_some, hlisted]
  dsimp only
  rw [hrest, List.append_nil]

theorem Registry.Fits.listsDeclared {r : Registry} {h : Heap} (hfits : r.Fits h) :
    r.ListsDeclared r.fieldOrder h := by
  intro id hid
  obtain ⟨d, hd, hnames⟩ := hfits id hid
  have horder : r.fieldOrder.get? (h.get id).type = some d.fieldNames := by
    unfold Registry.fieldOrder
    rw [Table.get?_map, hd]
    rfl
  have hshown : (h.get id).shown r.fieldOrder = d.fieldNames := by
    refine Instance.shown_eq horder fun name => ?_
    rw [Table.contains_iff_mem_names, hnames, List.mem_eraseDups]
  have hlists := h.lists_shown r.fieldOrder id
  rw [hshown] at hlists
  exact ⟨d, hd, hlists, hlists.once_iff⟩

namespace Session

open Evaluation Machine

variable {s t : Session} {items : List Stmt}

/-- The sessions while a script runs: after any number of its jobs, and where the next job is about
to do any part of it. -/
inductive During (s : Session) (items : List Stmt) : Session → Prop
  | between (k : Nat) : During s items (s.progress items k).1
  | within (k : Nat) (halts : {α : Type} → Job α → Machine → Bool) {pos : Pos} {job : Job Value}
    (hjob : (jobs items)[k]? = some (pos, job)) :
    During s items ((s.progress items k).1.performUntil halts job)

theorem During.reached (h : s.During items t) (hs : s.Reached) : t.Reached := by
  cases h with
  | between k => exact hs.progress items k
  | within k halts hjob => exact (hs.progress items k).brokenOff halts (List.mem_of_getElem? hjob)

/-- Jobs change nothing of a session but its state. -/
theorem exists_performAll (s : Session) (errors : List RuntimeError) (js : List (Pos × Job Value)) :
    ∃ m, (s.performAll errors js).1 = { s with machine := m } := by
  induction js generalizing s errors with
  | nil => exact ⟨s.machine, rfl⟩
  | cons j rest ih =>
    obtain ⟨pos, job⟩ := j
    have hperform := s.perform_eq job
    rw [performAll_cons]
    generalize s.perform job = res at hperform
    obtain ⟨s', stop | v⟩ := res
    · obtain rfl := hperform
      dsimp only
      split
      · exact ⟨_, rfl⟩
      · split
        · exact ih _ _
        · exact ⟨_, rfl⟩
    · obtain rfl := hperform
      exact ih _ _

/-- While a script runs, the order of fields is that of their declarations. -/
theorem During.fieldOrder_eq (h : s.During items t) (hready : (s.prepare items).2 = none) :
    t.fieldOrder = t.registry.fieldOrder := by
  have hprogress : ∀ k, (s.progress items k).1.fieldOrder =
      (s.progress items k).1.registry.fieldOrder := by
    intro k
    obtain ⟨m, hm⟩ := exists_performAll (s.readied items) [] ((jobs items).take k)
    obtain ⟨r, m', hr⟩ := exists_readied s.registry s.machine items
    rw [progress_of_accepted hready, hm, hr s rfl rfl]
  cases h with
  | between k => exact hprogress k
  | within k halts hjob => exact hprogress k

/-- While a script runs whose declarations are accepted, also in the middle of a job and after the
arguments of a call have been evaluated there, the text of every instance lists the fields as its
struct declares them, each with the value it has, and nothing else. So each field is listed once
just if the struct declares none twice. -/
theorem run_lists_declared (hs : s.Reached) (hready : (s.prepare items).2 = none)
    (ht : s.During items t) :
    t.registry.ListsDeclared t.fieldOrder t.machine.heap ∧
      ∀ (m : Machine) frames es scope vs m', m.heap = t.machine.heap →
        m.scopes = t.machine.scopes → scope < m.scopes.next →
        eval t.setting frames (.args es scope) m = .ok vs m' →
        t.registry.ListsDeclared t.fieldOrder m'.heap := by
  obtain ⟨hnamed, hfits, hfair⟩ := (ht.reached hs).orderly
  rw [ht.fieldOrder_eq hready]
  refine ⟨hfits.listsDeclared, fun m frames es scope vs m' hheap hscopes hscope heval => ?_⟩
  obtain ⟨hpath, -⟩ := path_of_eval hnamed (hfair.of_same hheap hscopes) heval hscope
  rw [← hheap] at hfits
  exact (path_fits hnamed hpath hfits).listsDeclared

/-- Fields are listed as they are declared, and not as a literal gives them. -/
theorem run_lists_declared_reversed :
    let decl : StructDecl := ⟨.start, "A", [⟨.start, "x", .path (.named "bool")⟩,
      ⟨.start, "y", .path (.named "bool")⟩]⟩
    let literal : Expr := .structLit .start (.named "A")
      [⟨.start, "y", .bool .start true⟩, ⟨.start, "x", .bool .start false⟩]
    let items : List Stmt := [.structDecl decl, .expr .start literal true]
    let s := start false true .default
    let t := (s.progress items 2).1
    s.Reached ∧ (s.prepare items).2 = none ∧ s.During items t ∧ t.machine.heap.size = 1 ∧
      t.machine.heap.debug t.fieldOrder (.inst 0) = "A \x7b x: false, y: true \x7d" ∧
      t.registry.ListsDeclared t.fieldOrder t.machine.heap ∧
      ∃ m, eval t.setting 9 (.args [literal] ScopeTree.global) t.machine = .ok [.inst 1] m ∧
        t.registry.ListsDeclared t.fieldOrder m.heap := by
  intro decl literal items s t
  have hs : s.Reached := .start ..
  have hready : (s.prepare items).2 = none := rfl
  have ht : s.During items t := .between 2
  obtain ⟨hlists, hafter⟩ := run_lists_declared hs hready ht
  refine ⟨hs, hready, ht, rfl, by decide, hlists, _, rfl, ?_⟩
  exact hafter t.machine 9 [literal] ScopeTree.global _ _ rfl rfl (by decide) rfl

/-- A field that is declared twice is listed twice. -/
theorem run_lists_repeated :
    let decl : StructDecl := ⟨.start, "A", [⟨.start, "x", .path (.named "bool")⟩,
      ⟨.start, "x", .path (.named "bool")⟩]⟩
    let items : List Stmt :=
      [.structDecl decl, .expr .start (.structLit .start (.named "A") []) true]
    let s := start false true .default
    let t := (s.progress items 2).1
    (s.prepare items).2 = none ∧ s.During items t ∧ t.machine.heap.size = 1 ∧
      t.machine.heap.debug t.fieldOrder (.inst 0) = "A \x7b x: false, x: false \x7d" ∧
      ∃ d, t.registry.structs.get? (t.machine.heap.get 0).type = some d ∧
        ¬ t.machine.heap.ListsOnce t.fieldOrder 0 d.fieldNames := by
  intro decl items s t
  refine ⟨rfl, .between 2, rfl, by decide, .ofDecl decl, rfl, ?_⟩
  have hlists : t.machine.heap.Lists t.fieldOrder 0 ["x", "x"] :=
    t.machine.heap.lists_shown t.fieldOrder 0
  exact fun honce => absurd (hlists.once_iff.1 honce) (by decide)

end Session

end Rustlet
