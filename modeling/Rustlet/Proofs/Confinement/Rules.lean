import Rustlet.Proofs.Changes.Rules
import Rustlet.Proofs.Confinement

/-! Rules bind names in scopes they have just opened, bodies and `let` in their own. -/
namespace Rustlet.Evaluation

open Eval ScopeTree

variable {base : ScopeId} {run : Runner} {scope : ScopeId}

/-- Names may be bound in the scope `base` and in those opened after it. -/
def Since (base : ScopeId) : ScopeId → String → Prop := fun s _ => base ≤ s

/-- A runner that is confined in every job whose own names may be bound. -/
def Contains (base : ScopeId) (run : Runner) : Prop :=
  ∀ {α : Type} (job : Job α), job.Allowed (Since base) → Confined base (run job)

section Statements

theorem confined_hoist (h : base ≤ scope) (stmts : List Stmt) :
    Confined base (hoist scope stmts) := by
  induction stmts with
  | nil => exact .pure ()
  | cons st rest ih =>
    cases st with
    | fnDecl d => exact .bind (confined_define _ _ h) fun _ => ih
    | _ => exact ih

variable (hrun : Contains base run)
include hrun

theorem confined_sequence (h : base ≤ scope) (v : Value) (stmts : List Stmt) :
    Confined base (sequence run scope v stmts) := by
  induction stmts generalizing v with
  | nil => exact .pure v
  | cons st rest ih =>
    exact .bind (hrun (.stmt st scope) (st.allowed_of_all fun _ => h)) fun v => ih v

theorem confined_bodyRule (h : base ≤ scope) (stmts : List Stmt) :
    Confined base (bodyRule run stmts scope) :=
  .bind (confined_hoist h stmts) fun _ => confined_sequence hrun h ..

/-- The names of a nested body are bound in the scope that is opened for it. -/
theorem confined_nested (stmts : List Stmt) (scope : ScopeId) :
    Confined base (nested run stmts scope) :=
  confined_openScope_bind (fun inner h => hrun (.body stmts inner) fun _ => h) scope

theorem confined_letRule (h : base ≤ scope) (name : String) (value : Expr) :
    Confined base (letRule run name value scope) := by
  refine .bind (hrun (.expr value scope) trivial) fun v => ?_
  have hdefine : Confined base (do define scope name v; pure Value.unit) :=
    .bind (confined_define _ _ h) fun _ => .pure _
  split
  · exact .bind (confined_markMoved ..) fun _ => .bind (confined_note _) fun _ => hdefine
  · exact hdefine

theorem confined_assignRule (s : Setting) (target : Place) (value : Expr) (scope : ScopeId) :
    Confined base (assignRule s run target value scope) := by
  refine .bind (hrun (.expr value scope) trivial) fun v => ?_
  cases target with
  | name pos name => exact .bind (confined_assign ..) fun _ => .pure _
  | field pos object field =>
    refine .bind (hrun (.object object scope) trivial) fun id =>
      .bind (confined_instanceAt _) fun i => .bind (confined_ofExcept _) fun struct => ?_
    split
    · exact .bind (confined_setField ..) fun _ => .pure _
    · exact confined_fault ..

theorem confined_conditionalRule (c : Conditional) (scope : ScopeId) :
    Confined base (conditionalRule run c scope) := by
  refine .bind (hrun (.expr c.condition scope) trivial) fun v => ?_
  split
  · exact confined_nested hrun ..
  · split
    · exact confined_nested hrun ..
    · exact .pure _
  · exact .bind (confined_typeName _) fun _ => confined_fault ..

theorem confined_whileRule (condition : Expr) (body : List Stmt) (scope : ScopeId) (rounds : Nat) :
    Confined base (whileRule run condition body scope rounds) := by
  induction rounds with
  | zero => exact .throw _
  | succ rounds ih =>
    refine .bind (hrun (.expr condition scope) trivial) fun v => ?_
    split
    · exact .bind (confined_nested hrun ..) fun _ => ih
    · exact .pure _
    · exact .bind (confined_typeName _) fun _ => confined_fault ..

theorem confined_returnRule (pos : Pos) (value : Option Expr) (scope : ScopeId) :
    Confined base (returnRule run pos value scope) := by
  refine .get_bind fun m => ?_
  split
  · exact confined_fault ..
  · cases value with
    | some e => exact .bind (hrun (.expr e scope) trivial) fun v => .throw _
    | none => exact .throw _

theorem confined_stmtRule (s : Setting) (st : Stmt) (h : st.Allowed (Since base) scope) :
    Confined base (stmtRule s run scope st) := by
  cases st with
  | letIn pos name type value => exact confined_letRule hrun h name value
  | assign pos target value => exact confined_assignRule hrun ..
  | expr pos e terminated => exact .bind (hrun (.expr e scope) trivial) fun v => .pure _
  | conditional c => exact confined_conditionalRule hrun ..
  | whileLoop pos condition body => exact confined_whileRule hrun ..
  | block pos body => exact confined_nested hrun ..
  | ret pos value => exact confined_returnRule hrun ..
  | structDecl d => exact .pure _
  | implBlock b => exact .pure _
  | fnDecl d => exact .pure _

end Statements

section Calls

theorem confined_bindParams (h : base ≤ scope) (params : List Param) (args : List Value) :
    Confined base (bindParams scope params args) := by
  induction params generalizing args with
  | nil => exact .pure ()
  | cons p params ih =>
    cases args with
    | nil => exact .pure ()
    | cons v args => exact .bind (confined_define _ _ h) fun _ => ih args

theorem confined_bindSelf (s : Setting) (e : Entry) (h : base ≤ scope) (pos : Pos) :
    Confined base (bindSelf s e scope pos) := by
  unfold bindSelf
  split
  · exact .bind (confined_define _ _ h) fun _ => .pure _
  · exact .bind (confined_ofExcept _) fun struct => .bind (confined_alloc _) fun id =>
      .bind (confined_define _ _ h) fun _ => .pure _
  · exact .pure _

theorem confined_resolve (type : TypePath) (pos : Pos) : Confined base (resolve type pos) := by
  cases type with
  | named name => exact .pure name
  | selfType =>
    refine .get_bind fun m => ?_
    split
    · exact .pure _
    · exact confined_fault ..

variable (hrun : Contains base run)
include hrun

/-- The scope of a function's body is new, also if the function sees an old one. -/
theorem confined_enterRule (s : Setting) (e : Entry) (args : List Value) (pos : Pos) :
    Confined base (enterRule s run e args pos) := by
  unfold enterRule
  split
  · refine confined_openScope_bind (fun scope h => ?_) e.scope
    refine .bind (confined_bindSelf s e h pos) fun fresh =>
      .bind (confined_bindParams h ..) fun _ => .bind (confined_note _) fun _ =>
      .bind (confined_withinCall _ (hrun (.body e.decl.body scope) fun _ => h)) fun v => ?_
    split
    · exact .pure _
    · exact .pure _
  · exact confined_fault ..

theorem confined_callRule (pos : Pos) (callee : Expr) (args : List Expr) (scope : ScopeId) :
    Confined base (callRule run pos callee args scope) := by
  refine .bind (hrun (.expr callee scope) trivial) fun v => ?_
  split
  · exact .bind (hrun (.args args scope) trivial) fun vs => hrun (.apply ..) trivial
  · exact .bind (confined_typeName _) fun _ => confined_fault ..

theorem confined_methodCallRule (s : Setting) (pos : Pos) (receiver : Expr) (method : String)
    (args : List Expr) (scope : ScopeId) :
    Confined base (methodCallRule s run pos receiver method args scope) := by
  refine .bind (hrun (.object receiver scope) trivial) fun id =>
    .bind (confined_instanceAt _) fun i => .bind (confined_ofExcept _) fun m => ?_
  split
  · exact .bind (hrun (.args args scope) trivial) fun vs => hrun (.apply ..) trivial
  · exact confined_fault ..

theorem confined_pathCallRule (s : Setting) (pos : Pos) (type : TypePath) (name : String)
    (args : List Expr) (scope : ScopeId) :
    Confined base (pathCallRule s run pos type name args scope) := by
  refine .bind (confined_resolve ..) fun owner => .bind (confined_ofExcept _) fun _ =>
    .bind (confined_ofExcept _) fun m => .bind (hrun (.args args scope) trivial) fun vs => ?_
  split
  · split
    · exact confined_fault ..
    · refine .bind (confined_instanceAt _) fun i => ?_
      split
      · exact hrun (.apply ..) trivial
      · exact confined_fault ..
    · exact confined_fault ..
  · exact hrun (.apply ..) trivial

end Calls

section Expressions

theorem confined_operated (pos : Pos) (r : Except Fault Value) :
    Confined base (operated pos r) := by
  cases r with
  | ok v => exact .pure v
  | error f => exact confined_fault ..

theorem confined_nameRule (s : Setting) (pos : Pos) (name : String) (scope : ScopeId) :
    Confined base (nameRule s pos name scope) := by
  refine .bind (confined_find ..) fun b => ?_
  split
  · split
    · exact confined_fault ..
    · exact .bind (confined_note _) fun _ => .pure _
  · exact .pure _

variable (hrun : Contains base run)
include hrun

theorem confined_argsRule (scope : ScopeId) (es : List Expr) :
    Confined base (argsRule run scope es) := by
  induction es with
  | nil => exact .pure []
  | cons e rest ih =>
    exact .bind (hrun (.expr e scope) trivial) fun v => .bind ih fun vs => .pure _

theorem confined_instanceRule (e : Expr) (scope : ScopeId) :
    Confined base (instanceRule run e scope) := by
  refine .bind (hrun (.expr e scope) trivial) fun v => ?_
  split
  · exact .pure _
  · exact .bind (confined_typeName _) fun _ => confined_fault ..

theorem confined_logicRule (op : LogicOp) (left right : Expr) (scope : ScopeId) :
    Confined base (logicRule run op left right scope) := by
  refine .bind (hrun (.expr left scope) trivial) fun v => ?_
  split
  · split
    · exact .pure _
    · refine .bind (hrun (.expr right scope) trivial) fun w => ?_
      split
      · exact .pure _
      · exact .bind (confined_typeName _) fun _ => confined_fault ..
  · exact .bind (confined_typeName _) fun _ => confined_fault ..

theorem confined_initFields (struct : StructDef) (id : InstanceId) (scope : ScopeId)
    (seen : List String) (fields : List FieldInit) :
    Confined base (initFields run struct id scope seen fields) := by
  induction fields generalizing seen with
  | nil => exact .pure ()
  | cons f rest ih =>
    unfold initFields
    split
    · split
      · exact confined_fault ..
      · exact .bind (hrun (.expr f.value scope) trivial) fun v =>
          .bind (confined_setField ..) fun _ => ih _
    · exact confined_fault ..

theorem confined_structLitRule (s : Setting) (pos : Pos) (type : TypePath) (fields : List FieldInit)
    (scope : ScopeId) : Confined base (structLitRule s run pos type fields scope) :=
  .bind (confined_resolve ..) fun _ => .bind (confined_ofExcept _) fun _ =>
    .bind (confined_alloc _) fun _ => .bind (confined_initFields hrun ..) fun _ => .pure _

theorem confined_fieldRule (pos : Pos) (object : Expr) (field : String) (scope : ScopeId) :
    Confined base (fieldRule run pos object field scope) := by
  refine .bind (hrun (.object object scope) trivial) fun id =>
    .bind (confined_instanceAt _) fun i => ?_
  split
  · exact .pure _
  · exact confined_fault ..

theorem confined_binaryRule (op : BinaryOp) (left right : Expr) (scope : ScopeId) :
    Confined base (binaryRule run op left right scope) :=
  .bind (hrun (.expr left scope) trivial) fun _ =>
    .bind (hrun (.expr right scope) trivial) fun _ => .get_bind fun _ => confined_operated ..

theorem confined_unaryRule (pos : Pos) (op : UnaryOp) (operand : Expr) (scope : ScopeId) :
    Confined base (unaryRule run pos op operand scope) :=
  .bind (hrun (.expr operand scope) trivial) fun _ => .get_bind fun _ => confined_operated ..

theorem confined_exprRule (s : Setting) (scope : ScopeId) (e : Expr) :
    Confined base (exprRule s run scope e) := by
  cases e with
  | number pos n => exact .pure _
  | text pos content => exact .pure _
  | bool pos b => exact .pure _
  | name pos name => exact confined_nameRule ..
  | unary pos op operand => exact confined_unaryRule hrun ..
  | binary op left right => exact confined_binaryRule hrun ..
  | logic op left right => exact hrun (.logic ..) trivial
  | field pos object field => exact confined_fieldRule hrun ..
  | call pos callee args => exact confined_callRule hrun ..
  | pathCall pos type name args => exact confined_pathCallRule hrun ..
  | methodCall pos receiver method args => exact confined_methodCallRule hrun ..
  | macroCall pos name args => exact hrun (.macroCall ..) trivial
  | structLit pos type fields => exact hrun (.structLit ..) trivial
  | conditional c => exact hrun (.stmt (.conditional c) scope) trivial

end Expressions

section Printing

theorem confined_mapM {α β : Type} {f : α → Eval β} (h : ∀ a, Confined base (f a)) (as : List α) :
    Confined base (as.mapM f) := by
  induction as with
  | nil => exact .pure []
  | cons a as ih =>
    rw [List.mapM_cons]
    exact .bind (h a) fun b => .bind ih fun bs => .pure _

theorem confined_styled (s : Setting) (frames : Nat) (style : Template.Style) (v : Value) :
    Confined base (styled s frames style v) :=
  .get_bind fun _ => confined_ofDepth _

theorem confined_joined (s : Setting) (frames : Nat) (style : Template.Style) (vs : List Value) :
    Confined base (joined s frames style vs) :=
  .bind (confined_mapM (confined_styled s frames style) vs) fun _ => .pure _

theorem confined_expand (s : Setting) (frames : Nat) (template : String) (vs : List Value)
    (pos : Pos) : Confined base (expand s frames template vs pos) := by
  have hpart : ∀ p, Confined base (partText s frames p) := by
    intro p
    cases p with
    | char c => exact .pure _
    | value style v => exact confined_styled ..
  refine .bind (confined_mapM hpart _) fun texts => ?_
  split
  · exact .pure _
  · exact confined_fault ..

theorem confined_template (pos : Pos) (name : String) (es : List Expr) :
    Confined base (template pos name es) := by
  unfold template
  split
  · exact .pure _
  · exact .pure _
  · exact confined_fault ..

theorem confined_printed (s : Setting) (frames : Nat) (template : String) (vs : List Value) :
    Confined base (printed s frames template vs) := by
  cases vs with
  | nil => exact .pure _
  | cons v vs => exact confined_joined ..

variable (hrun : Contains base run)
include hrun

theorem confined_panicMessage (s : Setting) (frames : Nat) (pos : Pos) (args : List Expr)
    (scope : ScopeId) : Confined base (panicMessage s frames run pos args scope) := by
  unfold panicMessage
  split
  · exact .pure _
  · exact .bind (hrun (.args ..) trivial) fun vs => confined_expand ..
  · exact .bind (hrun (.args ..) trivial) fun vs => confined_joined ..

theorem confined_macroRule (s : Setting) (frames : Nat) (pos : Pos) (name : String)
    (args : List Expr) (scope : ScopeId) :
    Confined base (macroRule s frames run pos name args scope) := by
  -- The arguments after the template, and what is done with their values.
  have hargs : ∀ {f : String → List Value → Eval Value}, (∀ t vs, Confined base (f t vs)) →
      Confined base (do
        let t ← template pos name args
        let vs ← run (.args args.tail scope)
        f t vs) :=
    fun hf => .bind (confined_template ..) fun t =>
      .bind (hrun (.args ..) trivial) fun vs => hf t vs
  unfold macroRule
  split
  · exact confined_fault ..
  · exact .bind (confined_panicMessage hrun ..) fun _ => confined_fault ..
  · exact hargs fun t vs => .bind (confined_expand ..) fun _ => .pure _
  · exact hargs fun t vs => .bind (confined_printed ..) fun _ =>
      .bind (confined_print _) fun _ => .pure _
  · exact hargs fun t vs => .bind (confined_printed ..) fun _ =>
      .bind (confined_print _) fun _ => .pure _

end Printing

/-- One step of the evaluator: the rule of a job, given that the jobs inside it are confined. -/
theorem confined_rule (s : Setting) (frames : Nat) (hrun : Contains base run) {α : Type}
    {job : Job α} (hjob : job.Allowed (Since base)) : Confined base (job.rule s frames run) := by
  cases job with
  | stmt st scope => exact confined_stmtRule hrun s st hjob
  | body stmts scope => exact confined_bodyRule hrun (hjob "") stmts
  | expr e scope => exact confined_exprRule hrun ..
  | args es scope => exact confined_argsRule hrun ..
  | object e scope => exact confined_instanceRule hrun ..
  | logic op left right scope => exact confined_logicRule hrun ..
  | structLit pos type fields scope => exact confined_structLitRule hrun ..
  | macroCall pos name args scope => exact confined_macroRule hrun ..
  | apply callee args pos => exact hrun (.enter ..) trivial
  | enter entry args pos => exact confined_enterRule hrun ..

/-- Every job is confined, however many jobs may be under way. -/
theorem confined_eval (s : Setting) (base : ScopeId) (frames : Nat) :
    Contains base (eval s frames) := by
  induction frames with
  | zero => exact fun job _ => .throw _
  | succ frames ih => exact fun job hjob => confined_rule s frames ih hjob

end Rustlet.Evaluation
