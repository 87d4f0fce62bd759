import Rustlet.Proofs.Changes.Rules
import Rustlet.Proofs.Registration
import Rustlet.Proofs.Run

namespace Rustlet

open Machine

/-- Each instance has a declared struct and exactly its fields, in order of first declaration. -/
def Registry.Fits (r : Registry) (h : Heap) : Prop :=
  ∀ id < h.size, ∃ d, r.structs.get? (h.get id).type = some d ∧
    (h.get id).fields.names = d.fieldNames.eraseDups

theorem StructDef.names_blank (d : StructDef) : d.blank.fields.names = d.fieldNames.eraseDups := by
  unfold StructDef.blank StructDef.fieldNames
  rw [Table.names_ofList, List.map_map]
  rfl

theorem StructDef.hasField_iff (d : StructDef) (field : String) :
    d.hasField field = true ↔ field ∈ d.fieldNames.eraseDups := by
  simp [StructDef.hasField]

/-- A new struct is entered under its own name. -/
theorem Registry.add_named {r r' : Registry} {d : Declaration} (h : r.add d = .ok r')
    (hr : r.Named) : r'.Named := by
  cases d with
  | method m =>
    obtain ⟨-, -, rfl⟩ := Registry.addMethod_eq_ok_iff.1 h
    exact hr
  | struct d =>
    obtain ⟨-, -, rfl⟩ := Registry.addStruct_eq_ok_iff.1 h
    intro name e he
    rw [Table.get?_insert] at he
    split at he
    · cases he
      assumption
    · exact hr he

section Changes

variable {r : Registry} {may : ScopeId → String → Prop} {m m' : Machine}

/-- The fields of an instance that fits are those that are declared. -/
theorem Registry.Fits.contains_iff {h : Heap} (hfits : r.Fits h) {id : InstanceId}
    (hid : id < h.size) {d : StructDef} (hd : r.structs.get? (h.get id).type = some d)
    (field : String) : (h.get id).fields.contains field = d.hasField field := by
  obtain ⟨d', hd', hnames⟩ := hfits id hid
  obtain rfl : d = d' := Option.some.inj (hd.symm.trans hd')
  rw [Bool.eq_iff_iff, Table.contains_iff_mem_names, hnames, StructDef.hasField_iff]

/-- A field that is declared is there already, so that giving it a value adds no field. -/
theorem Registry.Fits.names_setField {h : Heap} (hfits : r.Fits h) {id : InstanceId}
    (hid : id < h.size) {d : StructDef} (hd : r.structs.get? (h.get id).type = some d)
    {field : String} (hfield : d.hasField field = true) (v : Value) (id' : InstanceId) :
    ((h.setField id field v).get id').fields.names = (h.get id').fields.names := by
  rw [Heap.get_setField]
  split
  · rename_i hsame
    obtain ⟨rfl, -⟩ := hsame
    have hmem :=
      (Table.contains_iff_mem_names _ _).1 ((hfits.contains_iff hid hd field).trans hfield)
    rw [Table.names_insert, if_pos hmem]
  · rfl

theorem Machine.Change.fits (hnamed : r.Named) (h : Change r may m m') (hm : r.Fits m.heap) :
    r.Fits m'.heap := by
  cases h with
  | @made name d hd =>
    intro id hid
    rw [Heap.size_alloc] at hid
    rw [Heap.get_alloc]
    split
    · refine ⟨d, ?_, d.names_blank⟩
      change r.structs.get? d.name = some d
      rwa [hnamed hd]
    · rename_i hne
      exact hm id (Nat.lt_of_le_of_ne (Nat.lt_succ_iff.1 hid) hne)
  | @set id field v d hid hd hfield hv =>
    have hfield : d.hasField field = true := by
      rcases hfield with hfield | hfield
      · exact hfield
      · rwa [← hm.contains_iff hid hd]
    intro id' hid'
    rw [Heap.size_setField] at hid'
    obtain ⟨d', hd', hnames⟩ := hm id' hid'
    refine ⟨d', ?_, (hm.names_setField hid hd hfield v id').trans hnames⟩
    rw [(Change.set hid hd (.inl hfield) hv : Change r may m _).grows.types id' hid']
    exact hd'
  | _ => exact hm

/-- What fits keeps fitting on every path. -/
theorem Machine.path_fits (hnamed : r.Named) (h : Path r may m m') (hm : r.Fits m.heap) :
    r.Fits m'.heap := by
  induction h with
  | refl => exact hm
  | tail _ hc ih => exact hc.fits hnamed ih

end Changes

namespace Evaluation

/-- Does a job, but breaks off where a job is about to be done in a state that is looked for. -/
def evalUntil (halts : {α : Type} → Job α → Machine → Bool) (s : Setting) :
    (frames : Nat) → {α : Type} → Job α → Eval α
  | 0, _, _ => throw .overflow
  | frames + 1, _, job => fun m =>
    if halts job m then .error .unfinished m
    else job.rule s frames (evalUntil halts s frames) m

/-- Without a state to look for, a job is done to its end. -/
theorem evalUntil_never (s : Setting) (frames : Nat) {α : Type} (job : Job α) :
    evalUntil (fun _ _ => false) s frames job = eval s frames job := by
  induction frames generalizing α with
  | zero => rfl
  | succ frames ih =>
    have hrun : @evalUntil (fun _ _ => false) s frames = @eval s frames := by
      funext α job
      exact ih job
    change job.rule s frames (@evalUntil (fun _ _ => false) s frames) = _
    rw [hrun]
    rfl

theorem follows_evalUntil (halts : {α : Type} → Job α → Machine → Bool) {s : Setting}
    (hnamed : s.registry.Named) (frames : Nat) : Runs s.registry (evalUntil halts s frames) := by
  induction frames with
  | zero => exact fun job _ _ _ _ => .throw trivial
  | succ frames ih =>
    intro α job may m hjob hmay
    refine ⟨fun hm => ?_⟩
    change Eval.Ends _ _ _ _ (if halts job m then _ else _)
    split
    · exact .error (.refl m) trivial
    · exact (follows_rule hnamed frames ih hjob hmay).ends hm

/-- From a state, a field of an instance can be read just if the instance's struct declares it. -/
def ReadsDeclared (s : Setting) (m : Machine) : Prop :=
  ∀ {frames scope object field pos id m'}, scope < m.scopes.next →
    eval s frames (.object object scope) m = .ok id m' →
    ∃ d, s.registry.structs.get? (m'.heap.get id).type = some d ∧
      if d.hasField field then
        ∃ v, eval s (frames + 1) (.expr (.field pos object field) scope) m = .ok v m'
      else eval s (frames + 1) (.expr (.field pos object field) scope) m =
        .error (.fault ⟨.unknownField (m'.heap.get id).type field, some pos⟩) m'

/-- From a state, a field of an instance can be assigned just if the instance's struct declares it,
and no instance has another field after that. -/
def AssignsDeclared (s : Setting) (m : Machine) : Prop :=
  ∀ {frames scope object field value pos place v m₁ id m₂}, scope < m.scopes.next →
    eval s frames (.expr value scope) m = .ok v m₁ →
    eval s frames (.object object scope) m₁ = .ok id m₂ →
    ∃ d, s.registry.structs.get? (m₂.heap.get id).type = some d ∧
      if d.hasField field then ∃ h,
        eval s (frames + 1) (.stmt (.assign pos (.field place object field) value) scope) m =
          .ok .unit { m₂ with heap := h } ∧
        h.size = m₂.heap.size ∧ ∀ id', (h.get id').fields.names = (m₂.heap.get id').fields.names
      else eval s (frames + 1) (.stmt (.assign pos (.field place object field) value) scope) m =
        .error (.fault ⟨.unknownField (m₂.heap.get id).type field, some place⟩) m₂

section Fields

variable {s : Setting} {m : Machine} {frames : Nat} {scope : ScopeId}

/-- A path leads to the state in which a job gives something, and that is there. -/
theorem path_of_eval (hnamed : s.registry.Named) (hfair : Fair (fun _ _ => True) m) {α : Type}
    {job : Job α} {a : α} {m' : Machine} (h : eval s frames job m = .ok a m')
    (hjob : job.Known m) :
    Path s.registry (fun _ _ => True) m m' ∧ job.Gives m' a := by
  have hends := (follows_eval hnamed frames job hjob (job.allowed_of_all fun _ _ => trivial)).ends
    hfair
  change Eval.Ends _ _ _ _ (eval s frames job m) at hends
  rw [h] at hends
  cases hends with
  | ok hl hgives => exact ⟨hl.path, hgives⟩

section FieldRule

variable {run : Runner} {object : Expr} {scope : ScopeId} {id : InstanceId} {m' : Machine}
  {field : String} {pos : Pos} (hid : run (.object object scope) m = .ok id m')

include hid

theorem fieldRule_of_some {v : Value} (hv : (m'.heap.get id).fields.get? field = some v) :
    fieldRule run pos object field scope m = .ok v m' := by
  refine (Eval.bind_of_ok hid).trans ?_
  refine (Eval.bind_of_ok (rfl : Eval.instanceAt id m' = .ok (m'.heap.get id) m')).trans ?_
  rw [hv]
  rfl

theorem fieldRule_of_none (hv : (m'.heap.get id).fields.get? field = none) :
    fieldRule run pos object field scope m =
      Eval.fault (.unknownField (m'.heap.get id).type field) pos m' := by
  refine (Eval.bind_of_ok hid).trans ?_
  refine (Eval.bind_of_ok (rfl : Eval.instanceAt id m' = .ok (m'.heap.get id) m')).trans ?_
  rw [hv]

end FieldRule

theorem readsDeclared_of_fits (hnamed : s.registry.Named) (hfits : s.registry.Fits m.heap)
    (hfair : Fair (fun _ _ => True) m) : ReadsDeclared s m := by
  intro frames scope object field pos id m' hscope hid
  obtain ⟨hpath, hlt⟩ := path_of_eval hnamed hfair hid hscope
  have hfits' := path_fits hnamed hpath hfits
  obtain ⟨d, hd, -⟩ := hfits' id hlt
  have hcontains := hfits'.contains_iff hlt hd field
  refine ⟨d, hd, ?_⟩
  unfold Table.contains at hcontains
  cases hv : (m'.heap.get id).fields.get? field with
  | some v =>
    have hfield : d.hasField field = true := by rw [← hcontains, hv]; rfl
    rw [if_pos hfield]
    exact ⟨v, fieldRule_of_some hid hv⟩
  | none =>
    have hfield : ¬ d.hasField field = true := by rw [← hcontains, hv]; exact Bool.false_ne_true
    rw [if_neg hfield]
    exact fieldRule_of_none hid hv

theorem assignsDeclared_of_fits (hnamed : s.registry.Named) (hfits : s.registry.Fits m.heap)
    (hfair : Fair (fun _ _ => True) m) : AssignsDeclared s m := by
  intro frames scope object field value pos place v m₁ id m₂ hscope hv hid
  obtain ⟨hpath₁, -⟩ := path_of_eval hnamed hfair hv hscope
  have hscope₁ := Nat.lt_of_lt_of_le hscope (path_grows hpath₁).scopes
  obtain ⟨hpath₂, hlt⟩ := path_of_eval hnamed (hfair.path hpath₁) hid hscope₁
  have hfits₂ := path_fits hnamed hpath₂ (path_fits hnamed hpath₁ hfits)
  obtain ⟨d, hd, -⟩ := hfits₂ id hlt
  have hwrite :
    eval s (frames + 1) (.stmt (.assign pos (.field place object field) value) scope) m =
      (if d.hasField field || (m₂.heap.get id).fields.contains field then do
        Eval.setField id field v
        pure .unit
      else Eval.fault (.unknownField (m₂.heap.get id).type field) place : Eval Value) m₂ := by
    have hstruct : Eval.ofExcept (s.registry.struct (m₂.heap.get id).type (some place)) m₂ =
        .ok d m₂ := by
      unfold Registry.struct
      rw [hd]
      rfl
    have hrest : ∀ f : StructDef → Eval Value,
        (Eval.ofExcept (s.registry.struct (m₂.heap.get id).type (some place)) >>= f) m₂ = f d m₂ :=
      fun f => Eval.bind_of_ok hstruct
    exact (Eval.bind_of_ok hv).trans ((Eval.bind_of_ok hid).trans (hrest _))
  refine ⟨d, hd, ?_⟩
  rw [hwrite, hfits₂.contains_iff hlt hd field, Bool.or_self]
  split
  · rename_i hfield
    refine ⟨m₂.heap.setField id field v, rfl, Heap.size_setField .., fun id' => ?_⟩
    exact hfits₂.names_setField hlt hd hfield v id'
  · rfl

end Fields

end Evaluation

namespace Session

open Eval Evaluation

/-- The session after a job of it has been broken off. -/
def performUntil (halts : {α : Type} → Job α → Machine → Bool) (s : Session) (job : Job Value) :
    Session :=
  { s with machine := endState (evalUntil halts s.setting s.limits.frames job s.machine) }

/-- The sessions that are reached by any steps one after the other: entering declarations, freezing,
running a statement, a script or the first jobs of a script, and a job that is broken off. -/
inductive Reached : Session → Prop
  | start (strictMoves continueOnError : Bool) (limits : Limits) :
    Reached (.start strictMoves continueOnError limits)
  | declare {s : Session} (h : Reached s) (items : List Stmt) :
    Reached (s.declare (bodyDeclarations items)).1
  | freeze {s : Session} (h : Reached s) : Reached s.freeze.1
  | exec {s : Session} (h : Reached s) (item : Stmt) : Reached (s.exec item).1
  | run {s : Session} (h : Reached s) (items : List Stmt) : Reached (s.run items).1
  | progress {s : Session} (h : Reached s) (items : List Stmt) (k : Nat) :
    Reached (s.progress items k).1
  | brokenOff {s : Session} (h : Reached s) (halts : {α : Type} → Job α → Machine → Bool)
    {items : List Stmt} {pos : Pos} {job : Job Value} (hjob : (pos, job) ∈ jobs items) :
    Reached (s.performUntil halts job)

/-- Structs are entered under their names, instances fit them, and what is referred to is there. -/
structure Orderly (s : Session) : Prop where
  named : s.registry.Named
  fits : s.registry.Fits s.machine.heap
  fair : Fair (fun _ _ => True) s.machine

theorem Orderly.of_path {s : Session} (h : s.Orderly) {m : Machine}
    (hp : Path s.registry (fun _ _ => True) s.machine m) : { s with machine := m }.Orderly :=
  ⟨h.named, path_fits h.named hp h.fits, h.fair.path hp⟩

theorem orderly_start (strictMoves continueOnError : Bool) (limits : Limits) :
    (start strictMoves continueOnError limits).Orderly := by
  refine ⟨nofun, nofun, ⟨Nat.zero_lt_one, fun {s name b} hb => ?_, fun {id name v} hv => ?_,
    fun _ _ => trivial⟩⟩
  · cases s with
    | zero => cases hb
    | succ s => cases hb
  · cases hv

theorem Orderly.declare {s : Session} (h : s.Orderly) (ds : List Declaration) :
    (s.declare ds).1.Orderly := by
  induction ds generalizing s with
  | nil => exact h
  | cons d rest ih =>
    unfold Session.declare
    split
    · exact h
    · rename_i r hr
      refine ih ⟨Registry.add_named hr h.named, fun id hid => ?_, ?_⟩
      · obtain ⟨e, he, hnames⟩ := h.fits id hid
        exact ⟨e, (Registry.keeps_of_add hr).structs he, hnames⟩
      · exact (Change.noted (r := r) (entered d)).fair h.fair

theorem Orderly.freeze {s : Session} (h : s.Orderly) : s.freeze.1.Orderly := by
  unfold Session.freeze
  split
  · exact h
  · rename_i r hr
    unfold Registry.freeze at hr
    split at hr
    · cases hr
    · cases hr
      exact ⟨h.named, h.fits, h.fair⟩

theorem Orderly.prepare {s : Session} (h : s.Orderly) (items : List Stmt) :
    (s.prepare items).1.Orderly := by
  have hd := h.declare (bodyDeclarations items)
  unfold Session.prepare
  generalize s.declare (bodyDeclarations items) = res at hd
  obtain ⟨s', _ | e⟩ := res
  · exact hd.freeze
  · exact hd

/-- A job of the outermost scope, done to its end or broken off. -/
theorem Orderly.of_runs {s : Session} (h : s.Orderly) {run : Runner} (hrun : Runs s.registry run)
    {α : Type} {job : Job α} (hjob : job.Known s.machine) :
    { s with machine := endState (run job s.machine) }.Orderly :=
  h.of_path ((hrun job hjob (job.allowed_of_all fun _ _ => trivial)).path h.fair)

theorem perform_eq (s : Session) {α : Type} (job : Job α) :
    (s.perform job).1 =
      { s with machine := endState (eval s.setting s.limits.frames job s.machine) } := by
  obtain ⟨strict, continues, limits, registry, order, machine⟩ := s
  unfold perform setting
  dsimp only
  split <;> rename_i heq <;> rw [heq] <;> rfl

theorem Orderly.perform {s : Session} (h : s.Orderly) {α : Type} {job : Job α}
    (hjob : job.Known s.machine) : (s.perform job).1.Orderly := by
  rw [perform_eq]
  exact h.of_runs (follows_eval (s := s.setting) h.named _) hjob

/-- The jobs of a script refer to nothing but the outermost scope. -/
theorem known_of_mem_jobs {items : List Stmt} {pos : Pos} {job : Job Value}
    (hjob : (pos, job) ∈ jobs items) {m : Machine} (hm : ScopeTree.global < m.scopes.next) :
    job.Known m := by
  rcases List.mem_append.1 hjob with hitem | hmain
  · obtain ⟨item, -, heq⟩ := List.mem_map.1 hitem
    cases heq
    exact hm
  · obtain ⟨d, -, heq⟩ := Option.map_eq_some_iff.1 (Option.mem_toList.1 hmain)
    cases heq
    exact ⟨⟨hm, nofun⟩, nofun⟩

theorem Orderly.performAll {s : Session} (h : s.Orderly) {items : List Stmt}
    {js : List (Pos × Job Value)} (hjs : js ⊆ jobs items) (errors : List RuntimeError) :
    (s.performAll errors js).1.Orderly := by
  induction js generalizing s errors with
  | nil => exact h
  | cons j rest ih =>
    obtain ⟨pos, job⟩ := j
    obtain ⟨hjob, hrest⟩ := List.cons_subset.1 hjs
    have hperform := h.perform (known_of_mem_jobs hjob h.fair.root)
    rw [performAll_cons]
    generalize s.perform job = res at hperform
    obtain ⟨s', stop | v⟩ := res
    · dsimp only
      split
      · exact hperform
      · split
        · refine ih (hperform.of_path ?_) hrest _
          exact .single (.noted _)
        · exact hperform
    · exact ih hperform hrest errors

theorem Orderly.hoist {s : Session} (h : s.Orderly) (items : List Stmt) :
    (s.hoist items).Orderly := by
  have hpath := (follows_hoist (r := s.registry) h.fair.root (fun _ => trivial) items).path h.fair
  unfold Session.hoist
  generalize Evaluation.hoist ScopeTree.global items s.machine = res at hpath
  cases res with
  | ok _ m => exact h.of_path hpath
  | error _ m => exact h.of_path hpath

theorem Orderly.readied {s : Session} (h : s.Orderly) (items : List Stmt) :
    (s.readied items).Orderly := by
  have hp := h.prepare items
  unfold Session.readied
  apply Orderly.hoist
  exact ⟨hp.named, hp.fits, hp.fair⟩

theorem Orderly.progress {s : Session} (h : s.Orderly) (items : List Stmt) (k : Nat) :
    (s.progress items k).1.Orderly := by
  cases hs : (s.prepare items).2 with
  | none =>
    rw [progress_of_accepted hs]
    exact (h.readied items).performAll (List.take_subset ..) []
  | some e =>
    rw [progress_of_refused hs]
    exact h.prepare items

theorem Orderly.run {s : Session} (h : s.Orderly) (items : List Stmt) :
    (s.run items).1.Orderly := by
  rw [run_fst]
  exact h.progress items _

theorem Reached.orderly {s : Session} (h : s.Reached) : s.Orderly := by
  induction h with
  | start strictMoves continueOnError limits => exact orderly_start ..
  | declare _ items ih => exact ih.declare _
  | freeze _ ih => exact ih.freeze
  | exec _ item ih => exact ih.perform ih.fair.root
  | run _ items ih => exact ih.run items
  | progress _ items k ih => exact ih.progress items k
  | @brokenOff s _ halts items pos job hjob ih =>
    refine ih.of_runs (follows_evalUntil (s := s.setting) halts ih.named _) ?_
    exact known_of_mem_jobs hjob ih.fair.root

/-- In every state that a session reaches, also in the middle of a job, each instance has a declared
struct and exactly its fields in order of first declaration. So from there, whatever calls are under
way, a field is read or assigned just if it is declared, and no instance gets another field. -/
theorem reached_instances {s : Session} (h : s.Reached) :
    (∀ id < s.machine.heap.size, ∃ d,
      s.registry.structs.get? (s.machine.heap.get id).type = some d ∧
        (s.machine.heap.get id).fields.names = d.fieldNames.eraseDups) ∧
      ∀ m : Machine, m.heap = s.machine.heap → m.scopes = s.machine.scopes →
        ReadsDeclared s.setting m ∧ AssignsDeclared s.setting m := by
  obtain ⟨hnamed, hfits, hfair⟩ := h.orderly
  refine ⟨hfits, fun m hheap hscopes => ?_⟩
  rw [← hheap] at hfits
  have hfair : Fair (fun _ _ => True) m := hfair.of_same hheap hscopes
  exact ⟨readsDeclared_of_fits hnamed hfits hfair, assignsDeclared_of_fits hnamed hfits hfair⟩

/-- A struct that declares a field twice has it once in its instances, where it stands first. -/
theorem reached_instances_repeated_field :
    let decl : StructDecl := ⟨.start, "A", [⟨.start, "x", .path (.named "f64")⟩,
      ⟨.start, "y", .path (.named "bool")⟩, ⟨.start, "x", .unit⟩]⟩
    let declared := ((start false true .default).declare (bodyDeclarations [.structDecl decl])).1
    let s := (declared.exec (.expr .start (.structLit .start (.named "A") []) true)).1
    s.Reached ∧ s.machine.heap.size = 1 ∧
      (s.machine.heap.get 0).fields.names = ["x", "y"] ∧
      (∃ d, s.registry.structs.get? (s.machine.heap.get 0).type = some d ∧
        (s.machine.heap.get 0).fields.names = d.fieldNames.eraseDups) ∧
      ReadsDeclared s.setting s.machine ∧ AssignsDeclared s.setting s.machine := by
  intro decl declared s
  have hs : s.Reached := ((Reached.start ..).declare [.structDecl decl]).exec _
  have h := reached_instances hs
  exact ⟨hs, rfl, rfl, h.1 0 (by decide), h.2 _ rfl rfl⟩

end Session

end Rustlet
