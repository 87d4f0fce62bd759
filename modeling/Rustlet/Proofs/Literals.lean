import Rustlet.Evaluation
import Rustlet.Proofs.Changes
import Rustlet.Proofs.Datum
import Rustlet.Proofs.RoundTrip

/-! The text of a value is read as an expression that gives a value of the same structure. -/
namespace Rustlet

open Filter Grammar Relabelling

/-- How the numeral of a number is spelled. Every numeral that is too large stands for infinity. -/
def Number.spelled (n : Number) : String :=
  if n.isFinite then String.ofList (magnitudeText n.magnitude) else "1e999"

theorem Number.spelled_ofMagnitude {m : Nat} (h : m < infinite) :
    (ofMagnitude false m).spelled = String.ofList (magnitudeText m) := by
  have hm := magnitude_ofMagnitude h.le
  simp [spelled, isFinite, hm, h]

theorem spellsNumerals_spelled : SpellsNumerals fun _ => Number.spelled := by
  intro _ numeral
  have hle := (Decimal.ofNumeral numeral.toList).magnitude_le
  change Number.ofNumeral (Number.ofMagnitude false _).spelled = .ofMagnitude false _
  rcases hle.lt_or_eq with hlt | heq
  · rw [Number.spelled_ofMagnitude hlt, Number.ofNumeral_magnitudeText hlt]
  · rw [heq]
    decide

namespace Datum

mutual

/-- The expression that says a datum. -/
def expr : Datum → Expr
  | .number n =>
    let size := Expr.number .start (.ofMagnitude false n.magnitude)
    if n.isNegative then .unary .start .negate size else size
  | .text s => .text .start s
  | .bool b => .bool .start b
  | .inst type fields => .structLit .start (.named type) (inits fields)

/-- The fields of a literal. -/
def inits : List Field → List FieldInit
  | [] => []
  | ⟨name, value⟩ :: rest => ⟨.start, name, value.expr⟩ :: inits rest

end

mutual

/-- The literal of a datum is proper, whatever the names in it are. -/
theorem proper_expr {r : Registry} : ∀ d : Datum, d.Plain r → d.expr.Proper fun _ => True
  | .number n, h => by
    have hlt : n.magnitude < Number.infinite := by
      simp only [Plain] at h
      exact of_decide_eq_true h
    have hnumeral := Number.ofNumeral_magnitudeText hlt
    simp only [expr]
    split
    · exact ⟨_, hnumeral.symm⟩
    · exact ⟨_, hnumeral.symm⟩
  | .text _, _ | .bool _, _ => trivial
  | .inst _ fields, h => by
    simp only [Plain] at h
    exact ⟨trivial, proper_inits fields h.2.2.2.2⟩

theorem proper_inits {r : Registry} : ∀ fields : List Field, fieldsPlain r fields →
    initsProper (fun _ => True) (inits fields)
  | [], _ => trivial
  | ⟨_, value⟩ :: rest, h => by
    simp only [fieldsPlain] at h
    exact ⟨⟨trivial, proper_expr value h.2.1⟩, proper_inits rest h.2.2⟩

end

mutual

/-- The text of a datum is scanned as the lexemes of its expression. -/
theorem scans_shown {r : Registry} : ∀ d : Datum, d.Plain r →
    Scan.Scans d.shown.toList (d.expr.lexemes (fun _ => Number.spelled) true false)
  | .number n, h => by
    simp only [Plain] at h
    have hlt : n.magnitude < Number.infinite := of_decide_eq_true h
    obtain ⟨num, hchars, _⟩ := Number.magnitudeText_numeral hlt
    have hspelled := Number.spelled_ofMagnitude hlt
    simp only [shown, expr, Number.text_of_isFinite h]
    rw [hchars] at hspelled ⊢
    split
    · simpa [Expr.lexemes, Expr.enclosed, Expr.needsParens, Expr.level, Expr.isStructLit,
        Level.rank, UnaryOp.symbol, hspelled] using Scan.scans_negative num.isNumeral_chars
    · simpa [Expr.lexemes, hspelled] using Scan.scans_numeral num.isNumeral_chars
  | .text s, _ => by
    simp only [shown, expr, Expr.lexemes, Text.quote, String.toList_ofList]
    exact Scan.scans_quote s
  | .bool true, _ => Scan.scans_word (show Scan.isWord "true".toList = true by decide)
  | .bool false, _ => Scan.scans_word (show Scan.isWord "false".toList = true by decide)
  | .inst type fields, h => by
    simp only [Plain] at h
    have hbraces := Scan.scans_braces h.1 (Scan.scans_listed (scans_fieldsShown fields h.2.2.2.2))
    have hsome : (fieldsShown fields).isEmpty = false := by
      cases fields with
      | nil => exact absurd rfl h.2.1
      | cons f rest => simp [fieldsShown_eq_map]
    simp only [shown, Instance.text, hsome, expr, Expr.lexemes, TypePath.lexeme]
    simpa [String.toList_intercalate] using hbraces

theorem scans_fieldsShown {r : Registry} : ∀ fields : List Field, fieldsPlain r fields →
    List.Forall₂ Scan.Scans ((fieldsShown fields).map String.toList)
      (initsLexemes (fun _ => Number.spelled) (inits fields))
  | [], _ => by simp [fieldsShown, inits, initsLexemes]
  | ⟨name, value⟩ :: rest, h => by
    simp only [fieldsPlain] at h
    have hvalue := scans_shown value h.2.1
    have hfield := Scan.scans_field h.1 hvalue
    simp only [fieldsShown, inits, initsLexemes, FieldInit.lexemes, List.map_cons]
    refine .cons ?_ (scans_fieldsShown rest h.2.2)
    simpa using hfield

end

/-- The text of a datum is read as its expression, up to places. -/
theorem parse_shown {r : Registry} {d : Datum} (hd : d.Plain r) :
    ∃ start, Cursor.ofSource d.shown = .ok start ∧
      ∀ᶠ depth in atTop, ∃ e, parse depth (.expr true) start = .ok (e, ⟨[], start.stop⟩) ∧
        unplaced.expr none e = unplaced.expr none d.expr := by
  obtain ⟨herror, hlexemes⟩ := Scan.ofSource_of_lexemes? (scans_shown d hd).lexemes?_eq
  have hread :=
    (opens_expr spellsNumerals_spelled none d.expr (proper_expr d hd) true false (.inl rfl)).expr
  refine ⟨⟨(Scan.ofSource d.shown).tokens, (Scan.ofSource d.shown).stop⟩, ?_, ?_⟩
  · simp only [Cursor.ofSource, herror]
  · filter_upwards [hread] with depth hread
    have hflat := hread [] (by simp [Ends])
    rw [List.append_nil, ← hlexemes] at hflat
    obtain ⟨e, he, heq⟩ := parse_placed hflat (Scan.ofSource d.shown).stop
    exact ⟨e, he, heq none⟩

end Datum

namespace Heap

/-- A heap with all instances of another, and new ones. -/
structure Extends (h h' : Heap) : Prop where
  size_le : h.size ≤ h'.size
  get_eq : ∀ id, id < h.size → h'.get id = h.get id

protected theorem Extends.refl (h : Heap) : h.Extends h := ⟨Nat.le_refl _, fun _ _ => rfl⟩

/-- What a value holds depends on its instances only. -/
theorem Holds.congr {h h' : Heap} {start start' : InstanceId} {v : Value} {d : Datum}
    (hv : h.Holds start v d) (hstart : start' ≤ start)
    (hsame : ∀ id, start ≤ id → id < h.size → id < h'.size ∧ h'.get id = h.get id) :
    h'.Holds start' v d := by
  induction hv with
  | number n => exact .number n
  | text s => exact .text s
  | bool b => exact .bool b
  | @inst id type fields hle hid htype hnames hfields ih =>
    obtain ⟨hid', hget⟩ := hsame id hle hid
    refine .inst (hstart.trans hle) hid' (hget ▸ htype) (hget ▸ hnames) fun f hf => ?_
    have hfield : h'.field id f.name = h.field id f.name := by
      unfold field
      rw [hget]
    rw [hfield]
    exact ih f hf

/-- An instance gets fields of some data, while new instances may be made. -/
structure Fills (h : Heap) (id : InstanceId) (fields : List Datum.Field) (h' : Heap) : Prop where
  size_le : h.size ≤ h'.size
  others : ∀ j, j < h.size → j ≠ id → h'.get j = h.get j
  type_eq : (h'.get id).type = (h.get id).type
  names_eq : (h'.get id).fields.names = (h.get id).fields.names
  kept : ∀ name, name ∉ fields.map (·.name) → h'.field id name = h.field id name
  holds : ∀ f ∈ fields, h'.Holds (id + 1) (h'.field id f.name) f.value

theorem Fills.nil (h : Heap) (id : InstanceId) : h.Fills id [] h where
  size_le := Nat.le_refl _
  others _ _ _ := rfl
  type_eq := rfl
  names_eq := rfl
  kept _ _ := rfl
  holds f hf := by cases hf

/-- One more field: its value is made first and then entered. -/
theorem Fills.cons {h h₁ h' : Heap} {id : InstanceId} {f : Datum.Field}
    {rest : List Datum.Field} {v : Value} (hid : id < h.size)
    (hname : f.name ∈ (h.get id).fields.names) (hnew : f.name ∉ rest.map (·.name))
    (hextends : h.Extends h₁) (hv : h₁.Holds h.size v f.value)
    (hrest : (h₁.setField id f.name v).Fills id rest h') : h.Fills id (f :: rest) h' := by
  have hid₁ : id < h₁.size := Nat.lt_of_lt_of_le hid hextends.size_le
  have hsize : h₁.size ≤ h'.size := by simpa using hrest.size_le
  have hget : (h₁.setField id f.name v).get id =
      { h.get id with fields := (h.get id).fields.insert f.name v } := by
    rw [get_setField, if_pos ⟨rfl, hid₁⟩, hextends.get_eq id hid]
  have hothers : ∀ j, j < h₁.size → j ≠ id → h'.get j = h₁.get j := by
    intro j hj hne
    rw [hrest.others j (by simpa using hj) hne, get_setField, if_neg fun hc => hne hc.1]
  have hfield : ∀ name, (h₁.setField id f.name v).field id name =
      if f.name = name then v else h.field id name := by
    intro name
    unfold field
    rw [hget]
    simp only [Table.get?_insert]
    split <;> rfl
  refine ⟨hextends.size_le.trans hsize, fun j hj hne => ?_, ?_, ?_, fun name hname' => ?_,
    fun g hg => ?_⟩
  · rw [hothers j (Nat.lt_of_lt_of_le hj hextends.size_le) hne, hextends.get_eq j hj]
  · rw [hrest.type_eq, hget]
  · rw [hrest.names_eq, hget]
    simp [Table.names_insert, hname]
  · simp only [List.map_cons, List.mem_cons, not_or] at hname'
    rw [hrest.kept name hname'.2, hfield, if_neg (Ne.symm hname'.1)]
  · rcases List.mem_cons.1 hg with rfl | hg
    · rw [hrest.kept g.name hnew, hfield, if_pos rfl]
      refine hv.congr hid fun j hle hj => ⟨Nat.lt_of_lt_of_le hj hsize, hothers j hj ?_⟩
      rintro rfl
      exact Nat.lt_irrefl _ (Nat.lt_of_lt_of_le hid hle)
    · exact hrest.holds g hg

end Heap

namespace Evaluation

open Eval

/-- Every expression for a datum gives a new value that holds it, and changes nothing else. -/
def Builds (run : Runner) (d : Datum) : Prop :=
  ∀ (e : Expr) (scope : ScopeId) (m : Machine), unplaced.expr none e = unplaced.expr none d.expr →
    ∃ v heap, run (.expr e scope) m = .ok v { m with heap := heap } ∧
      heap.Holds m.heap.size v d ∧ m.heap.Extends heap

theorem initFields_fills {run : Runner} {struct : StructDef} {id : InstanceId} {scope : ScopeId}
    {fields : List Datum.Field} (hbuilds : ∀ f ∈ fields, Builds run f.value)
    (hdeclared : ∀ f ∈ fields, struct.hasField f.name = true)
    (hnodup : (fields.map (·.name)).Nodup) {inits : List FieldInit}
    (hinits : unplaced.inits none inits = unplaced.inits none (Datum.inits fields))
    {seen : List String} (hseen : ∀ f ∈ fields, f.name ∉ seen) {m : Machine}
    (hid : id < m.heap.size) (hnames : ∀ f ∈ fields, f.name ∈ (m.heap.get id).fields.names) :
    ∃ heap, initFields run struct id scope seen inits m = .ok () { m with heap := heap } ∧
      m.heap.Fills id fields heap := by
  induction fields generalizing inits seen m with
  | nil =>
    cases inits with
    | nil => exact ⟨m.heap, rfl, .nil m.heap id⟩
    | cons i rest => simp [Datum.inits] at hinits
  | cons f rest ih =>
    obtain ⟨name, value⟩ := f
    cases inits with
    | nil => simp [Datum.inits] at hinits
    | cons i more =>
      obtain ⟨pos, name', e⟩ := i
      simp only [Datum.inits, Relabelling.inits, Relabelling.init, List.cons.injEq,
        FieldInit.mk.injEq] at hinits
      obtain ⟨⟨_, rfl, he⟩, hmore⟩ := hinits
      have hself : (⟨name', value⟩ : Datum.Field) ∈ ⟨name', value⟩ :: rest := List.mem_cons_self ..
      obtain ⟨v, heap₁, hrun, hholds, hextends⟩ := hbuilds _ hself e scope m he
      have hnew := List.nodup_cons.1 hnodup
      have hid₁ : id < heap₁.size := Nat.lt_of_lt_of_le hid hextends.size_le
      have hget : ((heap₁.setField id name' v).get id).fields.names =
          (m.heap.get id).fields.names := by
        rw [Heap.get_setField, if_pos ⟨rfl, hid₁⟩, hextends.get_eq id hid]
        simp [Table.names_insert, hnames _ hself]
      have hfresh : ∀ f ∈ rest, f.name ∉ name' :: seen := by
        intro f hf hmem
        rcases List.mem_cons.1 hmem with hsame | hmem
        · exact hnew.1 (List.mem_map.2 ⟨f, hf, hsame⟩)
        · exact hseen f (List.mem_cons_of_mem _ hf) hmem
      obtain ⟨heap, hinit, hfills⟩ := ih (fun f hf => hbuilds f (List.mem_cons_of_mem _ hf))
        (fun f hf => hdeclared f (List.mem_cons_of_mem _ hf)) hnew.2 hmore hfresh
        (m := { m with heap := heap₁.setField id name' v }) (by simpa using hid₁)
        fun f hf => hget ▸ hnames f (List.mem_cons_of_mem _ hf)
      refine ⟨heap, ?_, .cons hid (hnames _ hself) hnew.1 hextends hholds hfills⟩
      unfold initFields
      simp only [hdeclared _ hself, hseen _ hself, if_true, if_false]
      exact (bind_of_ok hrun).trans hinit

theorem declares_blank {struct : StructDef} {names : List String} (hnodup : names.Nodup)
    (hfields : ∀ name, name ∈ struct.fieldNames ↔ name ∈ names) :
    struct.blank.fields.names.Perm names := by
  refine (List.perm_ext_iff_of_nodup (Table.nodup_names_ofList _) hnodup).2 fun name => ?_
  rw [← hfields]
  simp [Table.names_ofList, StructDef.fieldNames]

variable {s : Setting}

/-- A literal that takes `k` frames and makes no instance. -/
theorem builds_of_value (k : Nat) {d : Datum} {v : Value}
    (hv : ∀ (h : Heap) start, h.Holds start v d)
    (hrun : ∀ frames e scope m, unplaced.expr none e = unplaced.expr none d.expr →
      eval s (frames + k) (.expr e scope) m = .ok v m) :
    ∀ᶠ frames in atTop, Builds (eval s frames) d := by
  rw [← map_add_atTop_eq_nat k, eventually_map]
  refine .of_forall fun frames e scope m he => ?_
  exact ⟨v, m.heap, hrun frames e scope m he, hv m.heap m.heap.size, .refl m.heap⟩

theorem builds_number (n : Number) : ∀ᶠ frames in atTop, Builds (eval s frames) (.number n) := by
  refine builds_of_value 2 (fun _ _ => .number n) fun frames e scope m he => ?_
  simp only [Datum.expr] at he
  split at he
  · rename_i hneg
    cases e with
    | unary pos op operand =>
      cases operand with
      | number pos' size =>
        simp only [Relabelling.expr, Expr.unary.injEq, Expr.number.injEq] at he
        obtain ⟨_, rfl, _, rfl⟩ := he
        have hrun : eval s (frames + 2) (.expr (.unary pos .negate
            (.number pos' (.ofMagnitude false n.magnitude))) scope) m =
            .ok (.number (Number.ofMagnitude false n.magnitude).neg) m := rfl
        rw [hrun, Number.neg_ofMagnitude_of_negative hneg]
      | _ => simp [Relabelling.expr] at he
    | _ => simp [Relabelling.expr] at he
  · rename_i hneg
    cases e with
    | number pos size =>
      simp only [Relabelling.expr, Expr.number.injEq] at he
      rw [he.2, Number.ofMagnitude_of_not_negative (by simpa using hneg)]
      rfl
    | _ => simp [Relabelling.expr] at he

/-- A struct literal whose fields are given by literals. -/
theorem builds_structLit {type : String} {fields : List Datum.Field} {struct : StructDef}
    (hstruct : s.registry.structs.get? type = some struct) (hname : struct.name = type)
    (hmem : ∀ name, name ∈ struct.fieldNames ↔ name ∈ fields.map (·.name))
    (hnodup : (fields.map (·.name)).Nodup) {frames : Nat}
    (hfields : ∀ f ∈ fields, Builds (eval s frames) f.value) {pos : Pos} {scope : ScopeId}
    {inits : List FieldInit}
    (hinits : unplaced.inits none inits = unplaced.inits none (Datum.inits fields)) {m : Machine} :
    ∃ v heap, eval s (frames + 2) (.expr (.structLit pos (.named type) inits) scope) m =
        .ok v { m with heap := heap } ∧
      heap.Holds m.heap.size v (.inst type fields) ∧ m.heap.Extends heap := by
  have hblank := declares_blank hnodup hmem
  have hnew : (m.heap.alloc struct.blank).get m.heap.size = struct.blank := by
    rw [Heap.get_alloc, if_pos rfl]
  have hdeclared : ∀ f ∈ fields, f.name ∈ struct.fieldNames :=
    fun f hf => (hmem f.name).2 (List.mem_map_of_mem hf)
  let start : Machine := { m with heap := m.heap.alloc struct.blank }
  have hnames : ∀ f ∈ fields, f.name ∈ (start.heap.get m.heap.size).fields.names := by
    intro f hf
    change f.name ∈ ((m.heap.alloc struct.blank).get m.heap.size).fields.names
    rw [hnew]
    exact hblank.mem_iff.2 (List.mem_map_of_mem hf)
  have hfilled : ∃ heap, initFields (eval s frames) struct m.heap.size scope [] inits start =
      .ok () { start with heap := heap } ∧ start.heap.Fills m.heap.size fields heap :=
    initFields_fills hfields (fun f hf => decide_eq_true (hdeclared f hf)) hnodup hinits (by simp)
      (by simp [start]) hnames
  obtain ⟨heap, hinit, hfills⟩ := hfilled
  have hsize : m.heap.size + 1 ≤ heap.size := by simpa [start] using hfills.size_le
  refine ⟨.inst m.heap.size, heap, ?_, ?_, ?_⟩
  · have hresolve : resolve (.named type) pos m = .ok type m := rfl
    have hfound : ofExcept (s.registry.struct type (some pos)) m = .ok struct m := by
      simp only [Registry.struct, hstruct]
      rfl
    have halloc : alloc struct.blank m = .ok m.heap.size start := rfl
    exact (bind_of_ok hresolve).trans ((bind_of_ok hfound).trans
      ((bind_of_ok halloc).trans (bind_of_ok hinit)))
  · refine .inst (Nat.le_refl _) hsize ?_ ?_ fun f hf => ?_
    · rw [hfills.type_eq]
      exact (congrArg Instance.type hnew).trans hname
    · rw [hfills.names_eq]
      exact (congrArg (·.fields.names) hnew) ▸ hblank
    · exact (hfills.holds f hf).congr (Nat.le_succ _) fun _ _ hlt => ⟨hlt, rfl⟩
  · refine ⟨Nat.le_of_succ_le hsize, fun id hid => ?_⟩
    rw [hfills.others id (by simp [start]; omega) (Nat.ne_of_lt hid)]
    change (m.heap.alloc struct.blank).get id = _
    rw [Heap.get_alloc, if_neg (Nat.ne_of_lt hid)]

mutual

theorem builds_datum : ∀ d : Datum, d.Plain s.registry →
    ∀ᶠ frames in atTop, Builds (eval s frames) d
  | .number n, _ => builds_number n
  | .text t, _ => by
    refine builds_of_value 1 (fun _ _ => .text t) fun frames e scope m he => ?_
    cases e with
    | text pos content =>
      simp only [Datum.expr, Relabelling.expr, Expr.text.injEq] at he
      obtain rfl : content = t := he.2
      rfl
    | _ => simp [Datum.expr, Relabelling.expr] at he
  | .bool b, _ => by
    refine builds_of_value 1 (fun _ _ => .bool b) fun frames e scope m he => ?_
    cases e with
    | bool pos c =>
      simp only [Datum.expr, Relabelling.expr, Expr.bool.injEq] at he
      obtain rfl : c = b := he.2
      rfl
    | _ => simp [Datum.expr, Relabelling.expr] at he
  | .inst type fields, hd => by
    simp only [Datum.Plain] at hd
    obtain ⟨_, _, hnodup, ⟨struct, hstruct, hname, hmem⟩, hplain⟩ := hd
    rw [← map_add_atTop_eq_nat 2, eventually_map]
    filter_upwards [builds_fields fields hplain] with frames hfields e scope m he
    cases e with
    | structLit pos path inits =>
      simp only [Datum.expr, Relabelling.expr, Expr.structLit.injEq] at he
      obtain ⟨_, rfl, hinits⟩ := he
      exact builds_structLit hstruct hname hmem hnodup hfields hinits
    | _ => simp [Datum.expr, Relabelling.expr] at he

theorem builds_fields : ∀ fields : List Datum.Field, Datum.fieldsPlain s.registry fields →
    ∀ᶠ frames in atTop, ∀ f ∈ fields, Builds (eval s frames) f.value
  | [], _ => .of_forall fun _ f hf => by cases hf
  | ⟨_, value⟩ :: rest, h => by
    simp only [Datum.fieldsPlain] at h
    filter_upwards [builds_datum value h.2.1, builds_fields rest h.2.2] with frames hvalue hrest
    exact List.forall_mem_cons.2 ⟨hvalue, hrest⟩

end

/-- The text of a value is read to its end, and what is read gives, wherever it is evaluated, a
value that holds the same datum by new instances, and changes nothing else. -/
theorem debug_reads_back (h : Heap) (v : Value) (d : Datum) (hv : h.Holds 0 v d) (s : Setting)
    (hd : d.Plain s.registry) :
    ∃ start, Cursor.ofSource (h.debug .empty v) = .ok start ∧
      ∃ least, ∀ depth, least ≤ depth →
        ∃ e, parse depth (.expr true) start = .ok (e, ⟨[], start.stop⟩) ∧
          ∀ frames, least ≤ frames → ∀ (scope : ScopeId) (m : Machine),
            ∃ v' heap, eval s frames (.expr e scope) m = .ok v' { m with heap := heap } ∧
              heap.Holds m.heap.size v' d ∧ m.heap.Extends heap := by
  -- The text shows the fields in the order of the instances, which the datum need not have.
  obtain ⟨d', hshows, hd', hsame⟩ := hv.shows hd
  obtain ⟨start, hstart, hparse⟩ := Datum.parse_shown hd'
  obtain ⟨least, hleast⟩ := eventually_atTop.1 (hparse.and (builds_datum d' hd'))
  refine ⟨start, hshows.debug_eq ▸ hstart, least, fun depth hdepth => ?_⟩
  obtain ⟨e, he, hplaces⟩ := (hleast depth hdepth).1
  refine ⟨e, he, fun frames hframes scope m => ?_⟩
  obtain ⟨v', heap, hrun, hholds, hextends⟩ := (hleast frames hframes).2 e scope m hplaces
  exact ⟨v', heap, hrun, hsame _ _ _ hholds, hextends⟩

/-- A line whose two ends are one point, with a negative number and a quote in it. The struct of
points lists its fields in another order than the point has them. -/
theorem debug_reads_back_shared :
    let point : Datum := .inst "P" [⟨"x", .number ⟨0xBFE0000000000000⟩⟩, ⟨"label", .text "a\"b"⟩]
    let d : Datum := .inst "Line" [⟨"from", point⟩, ⟨"to", point⟩]
    let h : Heap := ⟨#[
      ⟨"P", .ofList [("x", .number ⟨0xBFE0000000000000⟩), ("label", .text "a\"b")]⟩,
      ⟨"Line", .ofList [("from", .inst 0), ("to", .inst 0)]⟩]⟩
    let r : Registry := ⟨.ofList [("P", ⟨"P", [("label", "String"), ("x", "f64")], none⟩),
      ("Line", ⟨"Line", [("from", "P"), ("to", "P")], none⟩)], .empty, true⟩
    let s : Setting := ⟨true, r, .empty, 0⟩
    h.debug .empty (.inst 1) =
        "Line \x7b from: P \x7b x: -0.5, label: \"a\\\"b\" \x7d, to: P \x7b x: -0.5, label: \"a\\\"b\" \x7d \x7d" ∧
      h.Holds 0 (.inst 1) d ∧ d.Plain r ∧
      ∃ start, Cursor.ofSource (h.debug .empty (.inst 1)) = .ok start ∧
        ∃ least, ∀ depth, least ≤ depth →
          ∃ e, parse depth (.expr true) start = .ok (e, ⟨[], start.stop⟩) ∧
            ∀ frames, least ≤ frames → ∀ (scope : ScopeId) (m : Machine),
              ∃ v' heap, eval s frames (.expr e scope) m = .ok v' { m with heap := heap } ∧
                heap.Holds m.heap.size v' d ∧ m.heap.Extends heap := by
  intro point d h r s
  have hpoint : h.Holds 0 (.inst 0) point :=
    .inst (by decide) (by decide) rfl (by decide)
      (List.forall_mem_cons.2 ⟨.number _, List.forall_mem_cons.2 ⟨.text _, by simp⟩⟩)
  have hline : h.Holds 0 (.inst 1) d :=
    .inst (by decide) (by decide) rfl (by decide)
      (List.forall_mem_cons.2 ⟨hpoint, List.forall_mem_cons.2 ⟨hpoint, by simp⟩⟩)
  have hP : r.Declares "P" ["x", "label"] := ⟨_, rfl, rfl, by simp [StructDef.fieldNames, or_comm]⟩
  have hLine : r.Declares "Line" ["from", "to"] := ⟨_, rfl, rfl, by simp [StructDef.fieldNames]⟩
  have hplainP : point.Plain r := by
    simp only [point, Datum.Plain, Datum.fieldsPlain, and_true]
    exact ⟨by decide, by simp, by decide, hP, by decide, by decide, by decide⟩
  have hplain : d.Plain r := by
    simp only [d, Datum.Plain, Datum.fieldsPlain, and_true]
    exact ⟨by decide, by simp, by decide, hLine, by decide, hplainP, by decide, hplainP⟩
  exact ⟨by decide +kernel, hline, hplain, debug_reads_back h (.inst 1) d hline s hplain⟩

end Evaluation

end Rustlet
