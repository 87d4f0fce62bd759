import Rustlet.Evaluation
import Rustlet.Proofs.Mirror

namespace Rustlet

namespace Template

variable {α β : Type}

/-- A part with another value. -/
def Part.map (f : α → β) : Part α → Part β
  | char c => char c
  | value style v => value style (f v)

theorem fill_map (f : α → β) (fault : Option Fault) (ss : List Segment) (args : List α) :
    fill fault ss (args.map f) =
      ((fill fault ss args).1.map (Part.map f), (fill fault ss args).2) := by
  fun_induction fill fault ss args <;> simp_all [fill, Part.map]

/-- A template that is filled with other values has the same parts otherwise. -/
theorem parts_map (f : α → β) (template : String) (args : List α) :
    parts template (args.map f) =
      ((parts template args).1.map (Part.map f), (parts template args).2) :=
  fill_map f _ _ args

end Template

namespace Evaluation

open Eval

/-- A method that is called without an instance is an associated function. -/
def Job.Fit : {α : Type} → Job α → Prop
  | _, .apply (.method m none) _ _ => m.hasReceiver = false
  | _, _ => True

/-- Two runners of which the second does the recast jobs as the first does the jobs. -/
def MirrorsJobs (ρ : Recasting) (run run' : Runner) : Prop :=
  ∀ {α : Type} (owner : Option String) (job : Job α), job.Fit →
    Mirrors ρ owner (ρ.given job) (run job) (run' (ρ.job owner job))

variable {ρ : Recasting} {owner : Option String} {run run' : Runner} {s : Setting}

/-- A value of the wrong type. -/
theorem mirrors_wrongType {α β : Type} {f : α → β} (wrong : String → Fault) (v : Value)
    {pos pos' : Pos} (hpos : pos' = ρ.place pos) :
    Mirrors ρ owner f (do let type ← typeName v; fault (wrong type) pos)
      (do let type ← typeName (ρ.value v); fault (wrong type) pos') := by
  subst hpos
  exact .bind (mirrors_typeName v) fun type => mirrors_fault pos (wrong type)

section Statements

theorem mirrors_hoist (scope : ScopeId) (stmts : List Stmt) :
    Mirrors ρ owner id (hoist scope stmts) (hoist scope (stmts.map (ρ.stmt owner))) := by
  induction stmts with
  | nil => exact .pure ()
  | cons st rest ih =>
    cases st with
    | fnDecl d =>
      have hname := ρ.name_fnDecl none d
      simp only [List.map_cons, Relabelling.stmt, hoist, hname]
      exact .bind (mirrors_define scope d.name (.fn ⟨d, scope⟩)) fun _ => ih
    | _ => exact ih

variable (hrun : MirrorsJobs ρ run run')
include hrun

theorem MirrorsJobs.value (e : Expr) (scope : ScopeId) :
    Mirrors ρ owner ρ.value (run (.expr e scope)) (run' (.expr (ρ.expr owner e) scope)) :=
  hrun owner (.expr e scope) trivial

theorem MirrorsJobs.values (es : List Expr) (scope : ScopeId) :
    Mirrors ρ owner (List.map ρ.value) (run (.args es scope))
      (run' (.args (es.map (ρ.expr owner)) scope)) :=
  hrun owner (.args es scope) trivial

theorem MirrorsJobs.object (e : Expr) (scope : ScopeId) :
    Mirrors ρ owner (fun i => i) (run (.object e scope)) (run' (.object (ρ.expr owner e) scope)) :=
  hrun owner (.object e scope) trivial

theorem mirrors_sequence (scope : ScopeId) (v : Value) (stmts : List Stmt) :
    Mirrors ρ owner ρ.value (sequence run scope v stmts)
      (sequence run' scope (ρ.value v) (stmts.map (ρ.stmt owner))) := by
  induction stmts generalizing v with
  | nil => exact .pure v
  | cons st rest ih => exact .bind (hrun owner (.stmt st scope) trivial) fun v => ih v

theorem mirrors_bodyRule (stmts : List Stmt) (scope : ScopeId) :
    Mirrors ρ owner ρ.value (bodyRule run stmts scope)
      (bodyRule run' (stmts.map (ρ.stmt owner)) scope) :=
  .bind (mirrors_hoist scope stmts) fun _ => mirrors_sequence hrun scope .unit stmts

theorem mirrors_nested (stmts : List Stmt) (scope : ScopeId) :
    Mirrors ρ owner ρ.value (nested run stmts scope) (nested run' (ρ.body owner stmts) scope) := by
  rw [ρ.body_eq_map]
  exact .bind (mirrors_openScope scope) fun inner => hrun owner (.body stmts inner) trivial

theorem mirrors_letRule (name : String) (value : Expr) (scope : ScopeId) :
    Mirrors ρ owner ρ.value (letRule run name value scope)
      (letRule run' name (ρ.expr owner value) scope) := by
  have hdefine : ∀ v : Value, Mirrors ρ owner ρ.value (do define scope name v; pure Value.unit)
      (do define scope name (ρ.value v); pure Value.unit) :=
    fun v => .bind (mirrors_define scope name v) fun _ => .pure _
  refine .bind (hrun.value value scope) fun v => ?_
  cases value with
  | name pos source =>
    cases v with
    | inst id =>
      exact .bind (mirrors_markMoved scope source) fun _ => .bind (mirrors_note rfl) fun _ =>
        hdefine (.inst id)
    | _ => exact hdefine _
  | _ => exact hdefine v

theorem mirrors_assignRule (target : Place) (value : Expr) (scope : ScopeId) :
    Mirrors ρ owner ρ.value (assignRule s run target value scope)
      (assignRule (ρ.setting s) run' (ρ.target owner target) (ρ.expr owner value) scope) := by
  refine .bind (hrun.value value scope) fun v => ?_
  cases target with
  | name pos name => exact .bind (mirrors_assign scope name pos v) fun _ => .pure _
  | field pos object field =>
    refine .bind (hrun.object object scope) fun id => .bind (mirrors_instanceAt id) fun i => ?_
    have hstruct := ρ.struct_registry s.registry i.type pos
    simp only [Recasting.setting, Recasting.inst, hstruct]
    refine .bind (mirrors_ofExcept _) fun struct => ?_
    simp only [Table.contains_map]
    change Mirrors ρ owner ρ.value _
      (if (struct.hasField field || i.fields.contains field) = true then _ else _)
    split
    · exact .bind (mirrors_setField v id field) fun _ => .pure _
    · exact mirrors_fault pos _

theorem mirrors_conditionalRule (c : Conditional) (scope : ScopeId) :
    Mirrors ρ owner ρ.value (conditionalRule run c scope)
      (conditionalRule run' (ρ.choice owner c) scope) := by
  obtain ⟨pos, condition, thenBody, elseBody⟩ := c
  refine .bind (hrun.value condition scope) fun v => ?_
  cases v with
  | bool b =>
    cases b with
    | true => exact mirrors_nested hrun thenBody scope
    | false =>
      cases elseBody with
      | none => exact .pure Value.unit
      | some elseBody => exact mirrors_nested hrun elseBody scope
  | _ => exact mirrors_wrongType _ _ (ρ.pos_expr owner condition)

theorem mirrors_whileRule (condition : Expr) (body : List Stmt) (scope : ScopeId) (rounds : Nat) :
    Mirrors ρ owner ρ.value (whileRule run condition body scope rounds)
      (whileRule run' (ρ.expr owner condition) (ρ.body owner body) scope rounds) := by
  induction rounds with
  | zero => exact .throw _
  | succ rounds ih =>
    refine .bind (hrun.value condition scope) fun v => ?_
    cases v with
    | bool b =>
      cases b with
      | true => exact .bind (mirrors_nested hrun body scope) fun _ => ih
      | false => exact .pure Value.unit
    | _ => exact mirrors_wrongType _ _ (ρ.pos_expr owner condition)

theorem mirrors_returnRule (pos : Pos) (value : Option Expr) (scope : ScopeId) :
    Mirrors ρ owner ρ.value (returnRule run pos value scope)
      (returnRule run' (ρ.place pos) (ρ.expr? owner value) scope) := by
  refine .get_bind fun m _ => ?_
  change Mirrors ρ owner ρ.value _ (if m.calls.isEmpty = true then _ else _)
  split
  · exact mirrors_fault pos _
  · cases value with
    | some e => exact .bind (hrun.value e scope) fun v => .throw (.returned v)
    | none => exact .throw (.returned .unit)

theorem mirrors_stmtRule (scope : ScopeId) (st : Stmt) :
    Mirrors ρ owner ρ.value (stmtRule s run scope st)
      (stmtRule (ρ.setting s) run' scope (ρ.stmt owner st)) := by
  cases st with
  | letIn pos name type value => exact mirrors_letRule hrun name value scope
  | assign pos target value => exact mirrors_assignRule hrun target value scope
  | expr pos e terminated =>
    refine .bind (hrun.value e scope) fun v => ?_
    cases terminated with
    | true => exact .pure Value.unit
    | false => exact .pure v
  | conditional c => exact mirrors_conditionalRule hrun c scope
  | whileLoop pos condition body => exact mirrors_whileRule hrun condition body scope s.rounds
  | block pos body => exact mirrors_nested hrun body scope
  | ret pos value => exact mirrors_returnRule hrun pos value scope
  | structDecl d => exact .pure Value.unit
  | implBlock b => exact .pure Value.unit
  | fnDecl d => exact .pure Value.unit

end Statements

section Calls

theorem mirrors_bindParams (scope : ScopeId) (params : List Param) (args : List Value) :
    Mirrors ρ owner id (bindParams scope params args)
      (bindParams scope (params.map ρ.param) (args.map ρ.value)) := by
  induction params generalizing args with
  | nil => exact .pure ()
  | cons p params ih =>
    cases args with
    | nil => exact .pure ()
    | cons v args => exact .bind (mirrors_define scope p.name v) fun _ => ih args

theorem mirrors_bindSelf (e : Entry) (scope : ScopeId) (pos : Pos) :
    Mirrors ρ owner id (bindSelf s e scope pos)
      (bindSelf (ρ.setting s) (ρ.entry e) scope (ρ.place pos)) := by
  obtain ⟨decl, outer, struct?, receiver, makesSelf⟩ := e
  cases receiver with
  | some id => exact .bind (mirrors_define scope selfName (.inst id)) fun _ => .pure none
  | none =>
    cases makesSelf with
    | false => exact .pure none
    | true =>
      cases struct? with
      | none => exact .pure none
      | some name =>
        have hstruct := ρ.struct_registry s.registry name pos
        simp only [bindSelf, Recasting.entry, Recasting.setting, hstruct]
        refine .bind (mirrors_ofExcept _) fun struct => ?_
        rw [← ρ.inst_blank]
        refine .bind (mirrors_alloc struct.blank) fun id => ?_
        exact .bind (mirrors_define scope selfName (.inst id)) fun _ => .pure (some id)

/-- What a type names depends on the innermost call only. -/
theorem resolve_eq (type : TypePath) (pos : Pos) (m : Machine) :
    resolve type pos m = match type.struct? m.owner with
      | some name => .ok name m
      | none => .error (.fault ⟨.selfOutsideImpl, some pos⟩) m := by
  cases type with
  | named name => rfl
  | selfType =>
    obtain ⟨heap, scopes, calls, output, log⟩ := m
    rcases calls with _ | ⟨_ | name, calls⟩ <;> rfl

theorem mirrors_resolve (type : TypePath) (pos : Pos) :
    Mirrors ρ owner id (resolve type pos) (resolve (ρ.path owner type) (ρ.place pos)) := by
  refine ⟨fun m hm => ?_⟩
  have howner : (ρ.machine m).owner = owner := hm
  rw [resolve_eq, resolve_eq, howner, hm, ρ.struct?_path]
  cases type.struct? owner with
  | some name => exact .ok rfl
  | none => exact .error (e := .fault ⟨.selfOutsideImpl, some pos⟩) rfl

theorem label_entry (e : Entry) : (ρ.entry e).label = e.label := by
  obtain ⟨decl, scope, owner, receiver, makesSelf⟩ := e
  cases owner <;> simp [Recasting.entry, Entry.label]

variable (hrun : MirrorsJobs ρ run run')
include hrun

theorem mirrors_enterRule (e : Entry) (args : List Value) (pos : Pos) :
    Mirrors ρ owner ρ.value (enterRule s run e args pos)
      (enterRule (ρ.setting s) run' (ρ.entry e) (args.map ρ.value) (ρ.place pos)) := by
  have hparams : (ρ.entry e).decl.params = e.decl.params.map ρ.param :=
    ρ.params_fnDecl e.owner e.decl
  have hbody : (ρ.entry e).decl.body = e.decl.body.map (ρ.stmt e.owner) :=
    ρ.body_fnDecl e.owner e.decl
  unfold enterRule
  simp only [hparams, hbody, label_entry, List.length_map]
  split
  · refine .bind (mirrors_openScope e.scope) fun scope => .bind (mirrors_bindSelf e scope pos)
      fun fresh => .bind (mirrors_bindParams scope e.decl.params args) fun _ =>
      .bind (mirrors_note rfl) fun _ => ?_
    refine .bind (mirrors_withinCall e.owner (hrun e.owner (.body e.decl.body scope) trivial))
      fun v => ?_
    cases fresh with
    | none => exact .pure v
    | some id =>
      cases v with
      | unit => exact .pure (Value.inst id)
      | _ => exact .pure _
  · exact mirrors_fault pos _

theorem mirrors_callRule (pos : Pos) (callee : Expr) (args : List Expr) (scope : ScopeId) :
    Mirrors ρ owner ρ.value (callRule run pos callee args scope)
      (callRule run' (ρ.place pos) (ρ.expr owner callee) (args.map (ρ.expr owner)) scope) := by
  refine .bind (hrun.value callee scope) fun v => ?_
  cases v with
  | fn f =>
    exact .bind (hrun.values args scope) fun vs => hrun owner (.apply (.closure f) vs pos) trivial
  | _ => exact mirrors_wrongType _ _ rfl

theorem mirrors_methodCallRule (pos : Pos) (receiver : Expr) (method : String) (args : List Expr)
    (scope : ScopeId) :
    Mirrors ρ owner ρ.value (methodCallRule s run pos receiver method args scope)
      (methodCallRule (ρ.setting s) run' (ρ.place pos) (ρ.expr owner receiver) method
        (args.map (ρ.expr owner)) scope) := by
  refine .bind (hrun.object receiver scope) fun id => .bind (mirrors_instanceAt id) fun i => ?_
  have hmethod := ρ.method_registry s.registry i.type method pos
  simp only [Recasting.setting, Recasting.inst, hmethod]
  refine .bind (mirrors_ofExcept _) fun m => ?_
  rw [ρ.hasReceiver_methodDef]
  split
  · exact .bind (hrun.values args scope) fun vs =>
      hrun owner (.apply (.method m (some id)) vs pos) trivial
  · have hname : (ρ.methodDef m).decl.name = m.decl.name := ρ.name_fnDecl _ m.decl
    rw [hname]
    exact mirrors_fault pos (.noReceiver m.owner m.decl.name)

theorem mirrors_pathCallRule (pos : Pos) (type : TypePath) (name : String) (args : List Expr)
    (scope : ScopeId) :
    Mirrors ρ owner ρ.value (pathCallRule s run pos type name args scope)
      (pathCallRule (ρ.setting s) run' (ρ.place pos) (ρ.path owner type) name
        (args.map (ρ.expr owner)) scope) := by
  refine .bind (mirrors_resolve type pos) fun struct => ?_
  have hstruct := ρ.struct_registry s.registry struct pos
  have hmethod := ρ.method_registry s.registry struct name pos
  simp only [Recasting.setting, id_eq, hstruct, hmethod]
  refine .bind (mirrors_ofExcept _) fun _ => .bind (mirrors_ofExcept _) fun m =>
    .bind (hrun.values args scope) fun vs => ?_
  rw [ρ.hasReceiver_methodDef]
  split
  · cases vs with
    | nil => exact mirrors_fault pos _
    | cons v rest =>
      cases v with
      | inst id =>
        refine .bind (mirrors_instanceAt id) fun i => ?_
        change Mirrors ρ owner ρ.value _ (if i.type = struct then _ else _)
        split
        · exact hrun owner (.apply (.method m (some id)) rest pos) trivial
        · exact mirrors_fault pos _
      | _ => exact mirrors_fault pos _
  · rename_i hno
    exact hrun owner (.apply (.method m none) vs pos) (by simpa [Job.Fit] using hno)

end Calls

section Expressions

theorem mirrors_operated {r r' : Except Fault Value} {pos pos' : Pos} (hpos : pos' = ρ.place pos)
    (hr : r' = r.map ρ.value) :
    Mirrors ρ owner ρ.value (operated pos r) (operated pos' r') := by
  subst hpos hr
  cases r with
  | ok v => exact .pure v
  | error f => exact mirrors_fault pos f

theorem mirrors_nameRule (pos : Pos) (name : String) (scope : ScopeId) :
    Mirrors ρ owner ρ.value (nameRule s pos name scope)
      (nameRule (ρ.setting s) (ρ.place pos) name scope) := by
  refine .bind (mirrors_find scope name pos) fun b => ?_
  change Mirrors ρ owner ρ.value _ (if b.moved = true then _ else _)
  split
  · change Mirrors ρ owner ρ.value _ (if s.strictMoves = true then _ else _)
    split
    · exact mirrors_fault pos _
    · exact .bind (mirrors_note rfl) fun _ => .pure b.value
  · exact .pure b.value

theorem equal?_value (a b : Value) : (ρ.value a).equal? (ρ.value b) = a.equal? b := by
  cases a <;> cases b <;> rfl

theorem binary_value (h : Heap) (op : BinaryOp) (a b : Value) :
    Value.binary (ρ.heap h) op (ρ.value a) (ρ.value b) = (Value.binary h op a b).map ρ.value := by
  have ha := ρ.typeName_value h a
  have hb := ρ.typeName_value h b
  cases op with
  | equal =>
    simp only [Value.binary, equal?_value, ha, hb]
    cases a.equal? b <;> rfl
  | notEqual =>
    simp only [Value.binary, equal?_value, ha, hb]
    cases a.equal? b <;> rfl
  | order op => cases a <;> cases b <;> simp_all [Value.binary, Recasting.value, Except.map]
  | arith op =>
    cases op <;> cases a <;> cases b <;> simp_all [Value.binary, Recasting.value, Except.map]

theorem unary_value (h : Heap) (op : UnaryOp) (a : Value) :
    Value.unary (ρ.heap h) op (ρ.value a) = (Value.unary h op a).map ρ.value := by
  have ha := ρ.typeName_value h a
  cases op <;> cases a <;> simp_all [Value.unary, Recasting.value, Except.map]

variable (hrun : MirrorsJobs ρ run run')
include hrun

theorem mirrors_argsRule (scope : ScopeId) (es : List Expr) :
    Mirrors ρ owner (List.map ρ.value) (argsRule run scope es)
      (argsRule run' scope (es.map (ρ.expr owner))) := by
  induction es with
  | nil => exact .pure []
  | cons e rest ih => exact .bind (hrun.value e scope) fun v => .bind ih fun vs => .pure (v :: vs)

theorem mirrors_instanceRule (e : Expr) (scope : ScopeId) :
    Mirrors ρ owner (fun i => i) (instanceRule run e scope)
      (instanceRule run' (ρ.expr owner e) scope) := by
  refine .bind (hrun.value e scope) fun v => ?_
  cases v with
  | inst id => exact .pure id
  | _ => exact mirrors_wrongType _ _ (ρ.pos_expr owner e)

theorem mirrors_logicRule (op : LogicOp) (left right : Expr) (scope : ScopeId) :
    Mirrors ρ owner ρ.value (logicRule run op left right scope)
      (logicRule run' op (ρ.expr owner left) (ρ.expr owner right) scope) := by
  refine .bind (hrun.value left scope) fun v => ?_
  cases v with
  | bool a =>
    change Mirrors ρ owner ρ.value (if decides op a = true then _ else _)
      (if decides op a = true then _ else _)
    split
    · exact .pure (Value.bool a)
    · refine .bind (hrun.value right scope) fun w => ?_
      cases w with
      | bool b => exact .pure (Value.bool b)
      | _ => exact mirrors_wrongType _ _ (ρ.pos_expr owner left)
  | _ => exact mirrors_wrongType _ _ (ρ.pos_expr owner left)

theorem mirrors_initFields (struct : StructDef) (id : InstanceId) (scope : ScopeId)
    (seen : List String) (fields : List FieldInit) :
    Mirrors ρ owner (fun u => u) (initFields run struct id scope seen fields)
      (initFields run' (ρ.structDef struct) id scope seen (fields.map (ρ.init owner))) := by
  induction fields generalizing seen with
  | nil => exact .pure ()
  | cons f rest ih =>
    obtain ⟨pos, name, value⟩ := f
    rw [List.map_cons, initFields, initFields]
    change Mirrors ρ owner (fun u => u) (if struct.hasField name = true then _ else _)
      (if struct.hasField name = true then _ else _)
    split
    · change Mirrors ρ owner (fun u => u) (if name ∈ seen then _ else _)
        (if name ∈ seen then _ else _)
      split
      · exact mirrors_fault pos _
      · exact .bind (hrun.value value scope) fun v => .bind (mirrors_setField v id name) fun _ =>
          ih _
    · exact mirrors_fault pos _

theorem mirrors_structLitRule (pos : Pos) (type : TypePath) (fields : List FieldInit)
    (scope : ScopeId) :
    Mirrors ρ owner ρ.value (structLitRule s run pos type fields scope)
      (structLitRule (ρ.setting s) run' (ρ.place pos) (ρ.path owner type)
        (fields.map (ρ.init owner)) scope) := by
  refine .bind (mirrors_resolve type pos) fun name => ?_
  have hstruct := ρ.struct_registry s.registry name pos
  simp only [Recasting.setting, id_eq, hstruct]
  refine .bind (mirrors_ofExcept _) fun struct => ?_
  rw [← ρ.inst_blank]
  exact .bind (mirrors_alloc struct.blank) fun id =>
    .bind (mirrors_initFields hrun struct id scope [] fields) fun _ => .pure (Value.inst id)

theorem mirrors_fieldRule (pos : Pos) (object : Expr) (field : String) (scope : ScopeId) :
    Mirrors ρ owner ρ.value (fieldRule run pos object field scope)
      (fieldRule run' (ρ.place pos) (ρ.expr owner object) field scope) := by
  refine .bind (hrun.object object scope) fun id => .bind (mirrors_instanceAt id) fun i => ?_
  simp only [Recasting.inst, Table.get?_map]
  cases i.fields.get? field with
  | some v => exact .pure v
  | none => exact mirrors_fault pos _

theorem mirrors_binaryRule (op : BinaryOp) (left right : Expr) (scope : ScopeId) :
    Mirrors ρ owner ρ.value (binaryRule run op left right scope)
      (binaryRule run' op (ρ.expr owner left) (ρ.expr owner right) scope) := by
  refine .bind (hrun.value left scope) fun a => .bind (hrun.value right scope) fun b =>
    .get_bind fun m _ => ?_
  exact mirrors_operated (ρ.pos_expr owner left) (binary_value m.heap op a b)

theorem mirrors_unaryRule (pos : Pos) (op : UnaryOp) (operand : Expr) (scope : ScopeId) :
    Mirrors ρ owner ρ.value (unaryRule run pos op operand scope)
      (unaryRule run' (ρ.place pos) op (ρ.expr owner operand) scope) := by
  refine .bind (hrun.value operand scope) fun a => .get_bind fun m _ => ?_
  exact mirrors_operated rfl (unary_value m.heap op a)

theorem mirrors_exprRule (scope : ScopeId) (e : Expr) :
    Mirrors ρ owner ρ.value (exprRule s run scope e)
      (exprRule (ρ.setting s) run' scope (ρ.expr owner e)) := by
  cases e with
  | number pos n => exact .pure (Value.number n)
  | text pos content =>
    rw [ρ.expr_text]
    exact .pure (Value.text content)
  | bool pos b => exact .pure (Value.bool b)
  | name pos name => exact mirrors_nameRule pos name scope
  | unary pos op operand => exact mirrors_unaryRule hrun pos op operand scope
  | binary op left right => exact mirrors_binaryRule hrun op left right scope
  | logic op left right => exact hrun owner (.logic op left right scope) trivial
  | field pos object field => exact mirrors_fieldRule hrun pos object field scope
  | call pos callee args =>
    simp only [Relabelling.expr, ρ.exprs_eq_map]
    exact mirrors_callRule hrun pos callee args scope
  | pathCall pos type name args =>
    simp only [Relabelling.expr, ρ.exprs_eq_map]
    exact mirrors_pathCallRule hrun pos type name args scope
  | methodCall pos receiver method args =>
    simp only [Relabelling.expr, ρ.exprs_eq_map]
    exact mirrors_methodCallRule hrun pos receiver method args scope
  | macroCall pos name args =>
    simp only [Relabelling.expr, ρ.exprs_eq_map]
    exact hrun owner (.macroCall pos name args scope) trivial
  | structLit pos type fields =>
    simp only [Relabelling.expr, ρ.inits_eq_map]
    exact hrun owner (.structLit pos type fields scope) trivial
  | conditional c => exact hrun owner (.stmt (.conditional c) scope) trivial

end Expressions

section Printing

theorem mirrors_mapM {α β γ : Type} {f : α → Eval γ} {g : β → Eval γ} {k : α → β}
    (h : ∀ a, Mirrors ρ owner (fun c => c) (f a) (g (k a))) (as : List α) :
    Mirrors ρ owner (fun cs => cs) (as.mapM f) ((as.map k).mapM g) := by
  induction as with
  | nil => exact .pure []
  | cons a as ih =>
    rw [List.map_cons, List.mapM_cons, List.mapM_cons]
    exact .bind (h a) fun c => .bind ih fun cs => .pure (c :: cs)

theorem mirrors_styled (frames : Nat) (style : Template.Style) (v : Value) :
    Mirrors ρ owner (fun text => text) (styled s frames style v)
      (styled (ρ.setting s) frames style (ρ.value v)) := by
  refine .get_bind fun m _ => ?_
  have hstyled := ρ.styled?_heap m.heap s.fieldOrder frames style v
  simp only [Recasting.machine, Recasting.setting, hstyled]
  exact mirrors_ofDepth _

theorem mirrors_joined (frames : Nat) (style : Template.Style) (vs : List Value) :
    Mirrors ρ owner (fun text => text) (joined s frames style vs)
      (joined (ρ.setting s) frames style (vs.map ρ.value)) :=
  .bind (mirrors_mapM (mirrors_styled frames style) vs) fun _ => .pure _

theorem mirrors_partText (frames : Nat) (part : Template.Part Value) :
    Mirrors ρ owner (fun text => text) (partText s frames part)
      (partText (ρ.setting s) frames (part.map ρ.value)) := by
  cases part with
  | char c => exact .pure c.toString
  | value style v => exact mirrors_styled frames style v

theorem mirrors_expand (frames : Nat) (template : String) (vs : List Value) (pos : Pos) :
    Mirrors ρ owner (fun text => text) (expand s frames template vs pos)
      (expand (ρ.setting s) frames template (vs.map ρ.value) (ρ.place pos)) := by
  unfold expand
  rw [Template.parts_map]
  generalize Template.parts template vs = filled
  obtain ⟨parts, wrong⟩ := filled
  refine .bind (mirrors_mapM (mirrors_partText frames) parts) fun texts => ?_
  cases wrong with
  | none => exact .pure _
  | some f => exact mirrors_fault pos _

theorem mirrors_template (pos : Pos) (name : String) (es : List Expr) :
    Mirrors ρ owner (fun text => text) (template pos name es)
      (template (ρ.place pos) name (es.map (ρ.expr owner))) := by
  cases es with
  | nil => exact .pure ""
  | cons e rest =>
    cases e with
    | text pos content =>
      rw [List.map_cons, ρ.expr_text]
      exact .pure content
    | _ => exact mirrors_fault pos _

theorem mirrors_printed (frames : Nat) (template : String) (vs : List Value) :
    Mirrors ρ owner (fun text => text) (printed s frames template vs)
      (printed (ρ.setting s) frames template (vs.map ρ.value)) := by
  cases vs with
  | nil => exact .pure _
  | cons v vs => exact mirrors_joined frames .debug (v :: vs)

variable (hrun : MirrorsJobs ρ run run')
include hrun

theorem mirrors_panicMessage (frames : Nat) (pos : Pos) (args : List Expr) (scope : ScopeId) :
    Mirrors ρ owner (fun text => text) (panicMessage s frames run pos args scope)
      (panicMessage (ρ.setting s) frames run' (ρ.place pos) (args.map (ρ.expr owner)) scope) := by
  have hvalues : ∀ args : List Expr, Mirrors ρ owner (fun text => text)
      (do let vs ← run (.args args scope); joined s frames .display vs)
      (do let vs ← run' (.args (args.map (ρ.expr owner)) scope)
          joined (ρ.setting s) frames .display vs) :=
    fun args => .bind (hrun.values args scope) fun vs => mirrors_joined frames .display vs
  cases args with
  | nil => exact .pure "explicit panic"
  | cons e rest =>
    cases e with
    | text textPos content =>
      rw [List.map_cons, ρ.expr_text]
      exact .bind (hrun.values rest scope) fun vs => mirrors_expand frames content vs pos
    | _ => exact hvalues (_ :: rest)

theorem mirrors_macroRule (frames : Nat) (pos : Pos) (name : String) (args : List Expr)
    (scope : ScopeId) :
    Mirrors ρ owner ρ.value (macroRule s frames run pos name args scope)
      (macroRule (ρ.setting s) frames run' (ρ.place pos) name (args.map (ρ.expr owner)) scope) := by
  -- The arguments after the template, and what is done with their values.
  have hargs : ∀ {k l : String → List Value → Eval Value},
      (∀ t vs, Mirrors ρ owner ρ.value (k t vs) (l t (vs.map ρ.value))) →
      Mirrors ρ owner ρ.value
        (do
          let t ← template pos name args
          let vs ← run (.args args.tail scope)
          k t vs)
        (do
          let t ← template (ρ.place pos) name (args.map (ρ.expr owner))
          let vs ← run' (.args (args.map (ρ.expr owner)).tail scope)
          l t vs) := by
    intro k l hkl
    rw [← List.map_tail]
    exact .bind (mirrors_template pos name args) fun t => .bind (hrun.values args.tail scope)
      fun vs => hkl t vs
  unfold macroRule
  split
  · exact mirrors_fault pos _
  · exact .bind (mirrors_panicMessage hrun frames pos args scope) fun _ => mirrors_fault pos _
  · exact hargs fun t vs => .bind (mirrors_expand frames t vs pos) fun text =>
      .pure (Value.text text)
  · exact hargs fun t vs => .bind (mirrors_printed frames t vs) fun text =>
      .bind (mirrors_print text) fun _ => .pure Value.unit
  · exact hargs fun t vs => .bind (mirrors_printed frames t vs) fun text =>
      .bind (mirrors_print _) fun _ => .pure Value.unit

end Printing

theorem entry_ofCallee {callee : Callee} {vs : List Value} {pos : Pos}
    (h : (Job.apply callee vs pos).Fit) :
    ρ.entry (.ofCallee callee) = .ofCallee (ρ.callee callee) := by
  cases callee with
  | closure f => rfl
  | method m receiver =>
    cases receiver with
    | some id => rfl
    | none =>
      have hno : m.hasReceiver = false := h
      have hreturns : (ρ.methodDef m).returnsSelf = m.returnsSelf :=
        ρ.returnsSelf_methodDef (by simpa [MethodDef.hasReceiver] using hno)
      simp only [Recasting.entry, Recasting.callee, Entry.ofCallee, hreturns]
      rfl

/-- One step of the evaluator: the rule of a job, if the jobs inside it mirror each other. -/
theorem mirrors_rule (frames : Nat) (hrun : MirrorsJobs ρ run run') {α : Type} {job : Job α}
    (hjob : job.Fit) :
    Mirrors ρ owner (ρ.given job) (job.rule s frames run)
      ((ρ.job owner job).rule (ρ.setting s) frames run') := by
  cases job with
  | stmt st scope => exact mirrors_stmtRule hrun scope st
  | body stmts scope => exact mirrors_bodyRule hrun stmts scope
  | expr e scope => exact mirrors_exprRule hrun scope e
  | args es scope => exact mirrors_argsRule hrun scope es
  | object e scope => exact mirrors_instanceRule hrun e scope
  | logic op left right scope => exact mirrors_logicRule hrun op left right scope
  | structLit pos type fields scope => exact mirrors_structLitRule hrun pos type fields scope
  | macroCall pos name args scope => exact mirrors_macroRule hrun frames pos name args scope
  | apply callee args pos =>
    simp only [Job.rule, Recasting.job, ← entry_ofCallee hjob]
    exact hrun owner (.enter (.ofCallee callee) args pos) trivial
  | enter entry args pos => exact mirrors_enterRule hrun entry args pos

/-- A script and its recasting do every job alike. -/
theorem mirrors_eval (ρ : Recasting) (s : Setting) (frames : Nat) :
    MirrorsJobs ρ (eval s frames) (eval (ρ.setting s) frames) := by
  induction frames with
  | zero => exact fun owner job _ => .throw _
  | succ frames ih => exact fun owner job hjob => mirrors_rule frames ih hjob

end Evaluation

end Rustlet
