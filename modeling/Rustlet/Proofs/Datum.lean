import Mathlib.Data.List.Nodup
import Mathlib.Data.List.Perm.Subperm
import Mathlib.Tactic.Choose
import Rustlet.Registry
import Rustlet.Proofs.Scanning
import Rustlet.Proofs.Showing

/-! Values in full: the tree of what a value is made of. -/
namespace Rustlet

mutual

/-- What a value is made of, down to numbers, texts and truth values. -/
inductive Datum
  | number (n : Number)
  | text (s : String)
  | bool (b : Bool)
  | inst (type : String) (fields : List Datum.Field)

/-- A field and what it is made of. -/
structure Datum.Field where
  name : String
  value : Datum

end

instance : Inhabited Datum := ⟨.bool false⟩

/-- Whether a struct is declared under its name with fields of some names. -/
def Registry.Declares (r : Registry) (type : String) (names : List String) : Prop :=
  ∃ d, r.structs.get? type = some d ∧ d.name = type ∧ ∀ name, name ∈ d.fieldNames ↔ name ∈ names

namespace Datum

mutual

/-- A datum that can be written as a literal: its numbers are finite, and its instances have fields,
names that can be written, and declared structs with just these fields. -/
def Plain (r : Registry) : Datum → Prop
  | .number n => n.isFinite = true
  | .text _ | .bool _ => True
  | .inst type fields => Scan.isName type = true ∧ fields ≠ [] ∧ (fields.map (·.name)).Nodup ∧
    r.Declares type (fields.map (·.name)) ∧ fieldsPlain r fields

/-- Fields that can be written in a literal. -/
def fieldsPlain (r : Registry) : List Field → Prop
  | [] => True
  | ⟨name, value⟩ :: rest => Scan.isName name = true ∧ value.Plain r ∧ fieldsPlain r rest

end

mutual

/-- The text of a datum. -/
def shown : Datum → String
  | .number n => n.text
  | .text s => Text.quote s
  | .bool b => if b then "true" else "false"
  | .inst type fields => Instance.text type (fieldsShown fields)

/-- The texts of fields. -/
def fieldsShown : List Field → List String
  | [] => []
  | ⟨name, value⟩ :: rest => (name ++ ": " ++ value.shown) :: fieldsShown rest

end

theorem fieldsPlain_iff {r : Registry} {fields : List Field} :
    fieldsPlain r fields ↔ ∀ f ∈ fields, Scan.isName f.name = true ∧ f.value.Plain r := by
  induction fields with
  | nil => simp [fieldsPlain]
  | cons f rest ih =>
    obtain ⟨name, value⟩ := f
    simp [fieldsPlain, ih, and_assoc]

theorem fieldsShown_eq_map (fields : List Field) :
    fieldsShown fields = fields.map fun f => f.name ++ ": " ++ f.value.shown := by
  induction fields with
  | nil => rfl
  | cons f rest ih =>
    obtain ⟨name, value⟩ := f
    rw [fieldsShown, ih, List.map_cons]

end Datum

namespace Heap

/-- A value holds a datum, by instances from `start` on. The fields of an instance may stand in
another order than those of the datum. -/
inductive Holds (h : Heap) (start : InstanceId) : Value → Datum → Prop
  | number (n : Number) : Holds h start (.number n) (.number n)
  | text (s : String) : Holds h start (.text s) (.text s)
  | bool (b : Bool) : Holds h start (.bool b) (.bool b)
  | inst {id : InstanceId} {type : String} {fields : List Datum.Field} (hstart : start ≤ id)
    (hid : id < h.size) (htype : (h.get id).type = type)
    (hnames : (h.get id).fields.names.Perm (fields.map (·.name)))
    (hfields : ∀ f ∈ fields, Holds h start (h.field id f.name) f.value) :
    Holds h start (.inst id) (.inst type fields)

/-- A value holds a datum whose fields stand in the order of the instances. -/
inductive Shows (h : Heap) : Value → Datum → Prop
  | number (n : Number) : Shows h (.number n) (.number n)
  | text (s : String) : Shows h (.text s) (.text s)
  | bool (b : Bool) : Shows h (.bool b) (.bool b)
  | inst {id : InstanceId} (hid : id < h.size) (value : String → Datum)
    (hfields : ∀ name ∈ (h.get id).fields.names, Shows h (h.field id name) (value name)) :
    Shows h (.inst id)
      (.inst (h.get id).type ((h.get id).fields.names.map fun name => ⟨name, value name⟩))

variable {h : Heap} {start : InstanceId} {v : Value} {d d' : Datum}

theorem Shows.unique (hd : h.Shows v d) (hd' : h.Shows v d') : d' = d := by
  induction hd generalizing d' with
  | number n => cases hd'; rfl
  | text s => cases hd'; rfl
  | bool b => cases hd'; rfl
  | inst hid value hfields ih =>
    cases hd' with
    | inst _ value' hfields' =>
      congr 1
      refine List.map_congr_left fun name hname => ?_
      rw [ih name hname (hfields' name hname)]

/-- The fields of a datum can be put in the order of the instances that hold it. -/
theorem Holds.shows {r : Registry} (hv : h.Holds start v d) (hd : d.Plain r) :
    ∃ d', h.Shows v d' ∧ d'.Plain r ∧
      ∀ (h' : Heap) (start' : InstanceId) (v' : Value),
        h'.Holds start' v' d' → h'.Holds start' v' d := by
  induction hv with
  | number n => exact ⟨_, .number n, hd, fun _ _ _ hv' => hv'⟩
  | text s => exact ⟨_, .text s, hd, fun _ _ _ hv' => hv'⟩
  | bool b => exact ⟨_, .bool b, hd, fun _ _ _ hv' => hv'⟩
  | @inst id type fields hstart hid htype hnames hfields ih =>
    subst htype
    simp only [Datum.Plain] at hd
    obtain ⟨hwritten, hne, hnodup, hdeclares, hplain⟩ := hd
    rw [Datum.fieldsPlain_iff] at hplain
    -- A name belongs to one field, and what the field holds is put in order by induction.
    have hvalue : ∀ name ∈ (h.get id).fields.names, ∃ d', h.Shows (h.field id name) d' ∧
        Scan.isName name = true ∧ d'.Plain r ∧ ∀ f ∈ fields, f.name = name →
          ∀ (h' : Heap) (start' : InstanceId) (v' : Value),
            h'.Holds start' v' d' → h'.Holds start' v' f.value := by
      intro name hname
      obtain ⟨f, hf, rfl⟩ := List.mem_map.1 (hnames.mem_iff.1 hname)
      obtain ⟨d', hshows, hd', htransfer⟩ := ih f hf (hplain f hf).2
      refine ⟨d', hshows, (hplain f hf).1, hd', fun g hg hgf => ?_⟩
      rwa [List.inj_on_of_nodup_map hnodup hg hf hgf]
    choose! value hshows hname hvplain htransfer using hvalue
    have hmap : ((h.get id).fields.names.map fun name => (⟨name, value name⟩ : Datum.Field)).map
        (·.name) = (h.get id).fields.names := by
      simp [Function.comp_def]
    refine ⟨_, .inst hid value hshows, ?_, fun h' start' v' hv' => ?_⟩
    · simp only [Datum.Plain]
      rw [hmap, Datum.fieldsPlain_iff]
      refine ⟨hwritten, ?_, hnames.nodup_iff.2 hnodup, ?_, ?_⟩
      · intro hnil
        have hlength := hnames.length_eq
        rw [List.map_eq_nil_iff.1 hnil, List.length_map] at hlength
        exact hne (List.length_eq_zero_iff.1 hlength.symm)
      · obtain ⟨struct, hstruct, hown, hmem⟩ := hdeclares
        exact ⟨struct, hstruct, hown, fun name => (hmem name).trans hnames.mem_iff.symm⟩
      · intro f hf
        obtain ⟨name, hmem, rfl⟩ := List.mem_map.1 hf
        exact ⟨hname name hmem, hvplain name hmem⟩
    · cases hv' with
      | inst hstart' hid' htype' hnames' hfields' =>
        rw [hmap] at hnames'
        refine .inst hstart' hid' htype' (hnames'.trans hnames) fun f hf => ?_
        have hmem : f.name ∈ (h.get id).fields.names := hnames.mem_iff.2 (List.mem_map_of_mem hf)
        exact htransfer f.name hmem f hf rfl _ _ _ (hfields' _ (List.mem_map_of_mem hmem))

theorem shown_empty (i : Instance) : i.shown .empty = i.fields.names := by
  simp [Instance.shown]

/-- Instances that are shown inside each other are different, so there are no more than all. -/
theorem length_path_le {path : List InstanceId} (hnodup : path.Nodup)
    (hpath : ∀ p ∈ path, p < h.size) : path.length ≤ h.size := by
  have hsub : path ⊆ List.range h.size := fun p hp => List.mem_range.2 (hpath p hp)
  simpa using (List.subperm_of_subset hnodup hsub).length_le

/-- The text of a value inside instances that hold more than it does. -/
theorem Shows.debugWithin?_eq (hv : h.Shows v d) (depth : Nat) (path : List InstanceId)
    (hnodup : path.Nodup)
    (hpath : ∀ p ∈ path, p < h.size ∧ ∃ d', h.Shows (.inst p) d' ∧ sizeOf d < sizeOf d')
    (hdepth : h.size < depth + path.length) :
    h.debugWithin? .empty depth path v = some d.shown := by
  induction hv generalizing depth path with
  | number n => cases depth <;> rfl
  | text s => cases depth <;> rfl
  | bool b => cases depth <;> rfl
  | @inst id hid value hfields ih =>
    have hlength := length_path_le hnodup fun p hp => (hpath p hp).1
    obtain ⟨depth, rfl⟩ : ∃ k, depth = k + 1 := Nat.exists_eq_succ_of_ne_zero (by omega)
    have hnew : id ∉ path := by
      intro hmem
      obtain ⟨_, d', hd', hlt⟩ := hpath id hmem
      rw [Shows.unique (.inst hid value hfields) hd'] at hlt
      exact Nat.lt_irrefl _ hlt
    have hsize : ∀ name ∈ (h.get id).fields.names, sizeOf (value name) < sizeOf (Datum.inst
        (h.get id).type ((h.get id).fields.names.map fun name => ⟨name, value name⟩)) := by
      intro name hname
      have hfield := List.sizeOf_lt_of_mem (List.mem_map_of_mem (f := fun name =>
        (⟨name, value name⟩ : Datum.Field)) hname)
      simp only [Datum.Field.mk.sizeOf_spec] at hfield
      simp only [Datum.inst.sizeOf_spec]
      omega
    have htexts : ∀ name ∈ (h.get id).fields.names,
        h.debugWithin? .empty depth (id :: path) (h.field id name) = some (value name).shown := by
      intro name hname
      refine ih name hname depth (id :: path) (List.nodup_cons.2 ⟨hnew, hnodup⟩) ?_ ?_
      · intro p hp
        rcases List.mem_cons.1 hp with rfl | hp
        · exact ⟨hid, _, .inst hid value hfields, hsize name hname⟩
        · obtain ⟨hlt, d', hd', hsmaller⟩ := hpath p hp
          exact ⟨hlt, d', hd', (hsize name hname).trans hsmaller⟩
      · rw [List.length_cons]
        omega
    have hfields' : (h.get id).fields.names.mapM (fun name => do
        let text ← h.debugWithin? .empty depth (id :: path) (h.field id name)
        pure (name ++ ": " ++ text)) =
        some ((h.get id).fields.names.map fun name => name ++ ": " ++ (value name).shown) := by
      refine mapM_eq_some_map fun name hname => ?_
      rw [htexts name hname]
      rfl
    rw [debugWithin?_inst, if_neg hnew, shown_empty, hfields']
    simp only [Datum.shown, Datum.fieldsShown_eq_map, List.map_map]
    rfl

/-- The text of a value is the text of a datum that it holds. -/
theorem Shows.debug_eq (hv : h.Shows v d) : h.debug .empty v = d.shown := by
  unfold debug depth
  rw [debug?_eq, hv.debugWithin?_eq (h.size + 1) [] List.nodup_nil (by simp) (by simp)]
  rfl

end Heap

end Rustlet
