import Rustlet.Proofs.Mirror.Rules
import Rustlet.Proofs.Run

/-! A run of a recast script is the recasting of the run. -/
namespace Rustlet

open Evaluation Relabelling

namespace Recasting

variable (ρ : Recasting)

section Declarations

mutual

theorem declarations_stmt : ∀ (owner : Option String) (s : Stmt),
    (ρ.stmt owner s).declarations = s.declarations.map ρ.declaration
  | _, .letIn .. | _, .assign .. | _, .expr .. | _, .ret .. => rfl
  | owner, .conditional c => declarations_choice owner c
  | owner, .whileLoop _ _ body => declarations_body owner body
  | owner, .block _ body => declarations_body owner body
  | _, .structDecl d => by
    simp [stmt, Stmt.declarations, declaration, structDecl, structDef, StructDef.ofDecl,
      Function.comp_def]
  | _, .implBlock ⟨_, type, methods⟩ => declarations_methods type methods
  | _, .fnDecl d => declarations_fnDecl none d

theorem declarations_body : ∀ (owner : Option String) (body : List Stmt),
    bodyDeclarations (ρ.body owner body) = (bodyDeclarations body).map ρ.declaration
  | _, [] => rfl
  | owner, s :: rest => by
    simp only [body, bodyDeclarations, List.map_append, declarations_stmt owner s,
      declarations_body owner rest]

theorem declarations_fnDecl : ∀ (owner : Option String) (d : FnDecl),
    (ρ.fnDecl owner d).declarations = d.declarations.map ρ.declaration
  | owner, ⟨_, _, _, _, _, body⟩ => declarations_body owner body

theorem declarations_choice : ∀ (owner : Option String) (c : Conditional),
    (ρ.choice owner c).declarations = c.declarations.map ρ.declaration
  | owner, ⟨_, _, thenBody, none⟩ => declarations_body owner thenBody
  | owner, ⟨_, _, thenBody, some elseBody⟩ => by
    simp only [choice, body?, Conditional.declarations, List.map_append,
      declarations_body owner thenBody, declarations_body owner elseBody]

theorem declarations_methods : ∀ (type : String) (methods : List FnDecl),
    methodDeclarations type (ρ.fnDecls (some type) methods) =
      (methodDeclarations type methods).map ρ.declaration
  | _, [] => rfl
  | type, ⟨pos, name, receiver, params, ret, body⟩ :: rest => by
    simp only [fnDecls, methodDeclarations, List.map_append, List.map_cons,
      declarations_fnDecl (some type) ⟨pos, name, receiver, params, ret, body⟩,
      declarations_methods type rest]
    rfl

end

variable (r : Registry)

theorem addStruct_registry (d : StructDef) :
    (ρ.registry r).addStruct (ρ.structDef d) = ρ.lookup ρ.registry (r.addStruct d) := by
  have hcontains : (ρ.registry r).structs.contains d.name = r.structs.contains d.name :=
    Table.contains_map ..
  unfold Registry.addStruct
  simp only [structDef, hcontains]
  change (if r.frozen = true then _ else _) = _
  split
  · rfl
  · split
    · rfl
    · simp [lookup, registry, Table.map_insert, structDef]

theorem addMethod_registry (m : MethodDef) :
    (ρ.registry r).addMethod (ρ.methodDef m) = ρ.lookup ρ.registry (r.addMethod m) := by
  have hname : (ρ.methodDef m).decl.name = m.decl.name := ρ.name_fnDecl _ m.decl
  have howner : (ρ.methodDef m).owner = m.owner := rfl
  unfold Registry.addMethod
  rw [howner, hname, methodsOf_registry, Table.contains_map]
  change (if r.frozen = true then _ else _) = _
  split
  · rfl
  · split
    · rfl
    · simp [lookup, registry, Table.map_insert]

theorem add_registry (d : Declaration) :
    (ρ.registry r).add (ρ.declaration d) = ρ.lookup ρ.registry (r.add d) := by
  cases d with
  | struct d => exact ρ.addStruct_registry r d
  | method m => exact ρ.addMethod_registry r m

theorem freeze_registry : (ρ.registry r).freeze = ρ.lookup ρ.registry r.freeze := by
  have hcontains : ∀ name, (ρ.registry r).structs.contains name = r.structs.contains name :=
    fun name => Table.contains_map ..
  have hfind :
      ((ρ.registry r).methods.entries.find? fun e => !(ρ.registry r).structs.contains e.1) =
      (r.methods.entries.find? fun e => !r.structs.contains e.1).map
        fun e => (e.1, e.2.map fun _ => ρ.methodDef) := by
    simp only [hcontains]
    simp only [registry, Table.map, List.find?_map, Function.comp_def]
  unfold Registry.freeze
  rw [hfind]
  cases r.methods.entries.find? fun e => !r.structs.contains e.1 with
  | none => rfl
  | some e =>
    obtain ⟨owner, ⟨_ | ⟨first, rest⟩⟩⟩ := e
    · rfl
    · rfl

theorem fieldOrder_registry : (ρ.registry r).fieldOrder = r.fieldOrder := by
  simp [Registry.fieldOrder, registry, Table.map, structDef, StructDef.fieldNames,
    Function.comp_def]

end Declarations

/-- A session. -/
def session (s : Session) : Session :=
  { s with registry := ρ.registry s.registry, machine := ρ.machine s.machine }

/-- Before anything has run, there is nothing to recast. -/
theorem session_start (strictMoves continueOnError : Bool) (limits : Limits) :
    ρ.session (.start strictMoves continueOnError limits) =
      .start strictMoves continueOnError limits := by
  simp [session, Session.start, registry, Registry.empty, machine, Machine.start, heap, Heap.empty,
    scopes, ScopeTree.root, scope, Table.map, Table.empty]

/-- Why a run does not reach its end. -/
def halt : Halt → Halt
  | .error e => .error (ρ.error e)
  | .unfinished => .unfinished

/-- What a job gives, or why it ends without. -/
def done {α : Type} (job : Job α) : Except Stop α → Except Stop α
  | .ok a => .ok (ρ.given job a)
  | .error stop => .error (ρ.stop stop)

/-- The errors of items, or why a run does not reach its end. -/
def errors : Except Halt (List RuntimeError) → Except Halt (List RuntimeError)
  | .ok es => .ok (es.map ρ.error)
  | .error h => .error (ρ.halt h)

/-- What a run gives. -/
def outcome : Except Halt RunResult → Except Halt RunResult
  | .ok result => .ok { result with errors := result.errors.map ρ.error }
  | .error h => .error (ρ.halt h)

end Recasting

namespace Session

variable (ρ : Recasting)

theorem owner_of_calls {m m' : Machine} (hcalls : m'.calls = m.calls) (h : m.owner = none) :
    m'.owner = none := by
  rw [← h]
  unfold Machine.owner
  rw [hcalls]

theorem declare_recast (s : Session) (ds : List Declaration) :
    (ρ.session s).declare (ds.map ρ.declaration) =
      (ρ.session (s.declare ds).1, (s.declare ds).2.map ρ.error) := by
  induction ds generalizing s with
  | nil => rfl
  | cons d rest ih =>
    have hadd : (ρ.session s).registry.add (ρ.declaration d) = _ := ρ.add_registry s.registry d
    rw [List.map_cons, declare, declare, hadd]
    cases s.registry.add d with
    | error e => rfl
    | ok r =>
      have hnote :
          ({ ρ.session s with registry := ρ.registry r }).note (entered (ρ.declaration d)) =
          ρ.session ({ s with registry := r }.note (entered d)) := by
        cases d <;> simp [note, Recasting.session, Recasting.machine, Recasting.declaration,
          entered, Recasting.logEntry, Recasting.structDef, Recasting.methodDef]
      dsimp only [Recasting.lookup]
      rw [hnote]
      exact ih _

theorem freeze_recast (s : Session) :
    (ρ.session s).freeze = (ρ.session s.freeze.1, s.freeze.2.map ρ.error) := by
  have hfreeze : (ρ.session s).registry.freeze = _ := ρ.freeze_registry s.registry
  unfold freeze
  rw [hfreeze]
  cases s.registry.freeze with
  | error e => rfl
  | ok r => rfl

theorem prepare_recast (s : Session) (items : List Stmt) :
    (ρ.session s).prepare (items.map (ρ.stmt none)) =
      (ρ.session (s.prepare items).1, (s.prepare items).2.map ρ.error) := by
  unfold prepare
  rw [← ρ.body_eq_map, ρ.declarations_body, declare_recast]
  generalize s.declare (bodyDeclarations items) = res
  obtain ⟨s', _ | e⟩ := res
  · exact freeze_recast ρ s'
  · rfl

/-- Outside calls, functions are bound alike. -/
theorem hoist_recast {s : Session} (h : s.machine.owner = none) (items : List Stmt) :
    (ρ.session s).hoist (items.map (ρ.stmt none)) = ρ.session (s.hoist items) ∧
      (s.hoist items).machine.owner = none := by
  have hends := (mirrors_hoist (ρ := ρ) ScopeTree.global items).run s.machine h
  change Eval.Mirrored _ _ _ _ (Evaluation.hoist ScopeTree.global _ (ρ.session s).machine) at hends
  unfold hoist
  generalize Evaluation.hoist ScopeTree.global items s.machine = a at hends
  generalize Evaluation.hoist ScopeTree.global _ (ρ.session s).machine = b at hends
  cases hends with
  | ok hcalls => exact ⟨rfl, owner_of_calls hcalls h⟩
  | error hcalls => exact ⟨rfl, owner_of_calls hcalls h⟩

/-- Outside calls, a job is done alike. -/
theorem perform_recast {α : Type} {s : Session} (h : s.machine.owner = none) {job : Job α}
    (hjob : job.Fit) :
    (ρ.session s).perform (ρ.job none job) =
        (ρ.session (s.perform job).1, ρ.done job (s.perform job).2) ∧
      (s.perform job).1.machine.owner = none := by
  obtain ⟨strict, continues, limits, registry, order, m⟩ := s
  have hends := (mirrors_eval ρ ⟨strict, registry, order, limits.rounds⟩ limits.frames none job
    hjob).run m h
  unfold perform Recasting.session
  dsimp only
  change Eval.Mirrored ρ _ m.calls
    (eval ⟨strict, registry, order, limits.rounds⟩ limits.frames job m)
    (eval ⟨strict, ρ.registry registry, order, limits.rounds⟩ limits.frames (ρ.job none job)
      (ρ.machine m)) at hends
  generalize eval ⟨strict, registry, order, limits.rounds⟩ limits.frames job m = a at hends
  generalize eval ⟨strict, ρ.registry registry, order, limits.rounds⟩ _ _ _ = b at hends
  cases hends with
  | ok hcalls => exact ⟨rfl, owner_of_calls hcalls h⟩
  | error hcalls => exact ⟨rfl, owner_of_calls hcalls h⟩

theorem itemError?_recast (pos : Pos) (stop : Stop) :
    itemError? (ρ.place pos) (ρ.stop stop) = (itemError? pos stop).map ρ.error := by
  cases stop with
  | _ => rfl

theorem main?_recast (items : List Stmt) :
    main? (items.map (ρ.stmt none)) = (main? items).map (ρ.fnDecl none) := by
  induction items with
  | nil => rfl
  | cons item rest ih =>
    cases item with
    | fnDecl d =>
      simp only [List.map_cons, Relabelling.stmt, main?, ρ.name_fnDecl, ρ.params_fnDecl,
        List.isEmpty_map]
      split
      · rfl
      · exact ih
    | _ => exact ih

theorem jobs_recast (items : List Stmt) :
    jobs (items.map (ρ.stmt none)) = (jobs items).map fun j => (ρ.place j.1, ρ.job none j.2) := by
  unfold jobs
  rw [main?_recast, List.map_append, List.map_map, List.map_map]
  congr 1
  · refine List.map_congr_left fun item _ => ?_
    simp only [Function.comp_apply, ρ.pos_stmt, Recasting.job]
  · cases main? items with
    | none => rfl
    | some d =>
      obtain ⟨pos, name, receiver, params, ret, body⟩ := d
      rfl

theorem fit_of_mem_jobs {items : List Stmt} {j : Pos × Job Value} (h : j ∈ jobs items) :
    j.2.Fit := by
  unfold jobs at h
  rcases List.mem_append.1 h with h | h
  · obtain ⟨item, _, rfl⟩ := List.mem_map.1 h
    trivial
  · obtain ⟨d, _, rfl⟩ := Option.map_eq_some_iff.1 (Option.mem_toList.1 h)
    trivial

theorem performAll_recast {js : List (Pos × Job Value)} (hjs : ∀ j ∈ js, j.2.Fit) {s : Session}
    (h : s.machine.owner = none) (errors : List RuntimeError) :
    (ρ.session s).performAll (errors.map ρ.error)
        (js.map fun j => (ρ.place j.1, ρ.job none j.2)) =
      (ρ.session (s.performAll errors js).1, ρ.errors (s.performAll errors js).2) := by
  induction js generalizing s errors with
  | nil => rfl
  | cons j rest ih =>
    obtain ⟨pos, job⟩ := j
    obtain ⟨hperform, howner⟩ := perform_recast ρ h (hjs (pos, job) (List.mem_cons_self ..))
    have hrest : ∀ j ∈ rest, j.2.Fit := fun j hj => hjs j (List.mem_cons_of_mem _ hj)
    rw [List.map_cons, performAll_cons, performAll_cons, hperform]
    generalize s.perform job = a at howner
    obtain ⟨s', stop | v⟩ := a
    · dsimp only [Recasting.done]
      rw [itemError?_recast]
      cases itemError? pos stop with
      | none => rfl
      | some e =>
        by_cases hc : s'.continueOnError = true
        · have hnote : (ρ.session s').note (.itemAborted (ρ.error e)) =
              ρ.session (s'.note (.itemAborted e)) := by
            simp [note, Recasting.session, Recasting.machine, Recasting.logEntry]
          have herrors : errors.map ρ.error ++ [ρ.error e] = (errors ++ [e]).map ρ.error := by simp
          have hc' : (ρ.session s').continueOnError = true := hc
          simp only [Option.map_some, hc, hc', if_true, hnote, herrors]
          exact ih hrest (s := s'.note (.itemAborted e)) howner _
        · have hc' : ¬(ρ.session s').continueOnError = true := hc
          simp only [Option.map_some, hc, hc']
          rfl
    · exact ih hrest howner errors

/-- A run of a recast script is the recasting of the run. -/
theorem run_recast {s : Session} (h : s.machine.owner = none) (items : List Stmt) :
    (ρ.session s).run (items.map (ρ.stmt none)) =
      (ρ.session (s.run items).1, ρ.outcome (s.run items).2) := by
  have hprepared : (s.prepare items).1.machine.owner = none :=
    owner_of_calls (prepare_calls s items) h
  unfold run
  rw [prepare_recast]
  generalize s.prepare items = a at hprepared
  obtain ⟨s', _ | e⟩ := a
  · have horder : (ρ.session s').registry.fieldOrder = s'.registry.fieldOrder :=
      ρ.fieldOrder_registry s'.registry
    obtain ⟨hhoist, howner⟩ :=
      hoist_recast ρ (s := { s' with fieldOrder := s'.registry.fieldOrder }) hprepared items
    have hjobs := performAll_recast ρ (fun j (hj : j ∈ jobs items) => fit_of_mem_jobs hj) howner []
    rw [← jobs_recast, ← hhoist] at hjobs
    change ({ ρ.session s' with fieldOrder := s'.registry.fieldOrder }.hoist _).performAll [] _ = _
      at hjobs
    dsimp only [Option.map_none]
    rw [horder, hjobs]
    generalize ({ s' with fieldOrder := s'.registry.fieldOrder }.hoist items).performAll []
      (jobs items) = b
    obtain ⟨s'', halt | errors⟩ := b
    · rfl
    · rfl
  · rfl

end Session

end Rustlet
