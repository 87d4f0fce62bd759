import Rustlet.Evaluation
import Rustlet.Proofs.Lockstep

namespace Rustlet.Evaluation

open Eval

variable {escapes : Stop → Prop} {s t : Setting} {run run' : Runner} {frames frames' : Nat}

/-- The rounds that a loop may take in each of two runs: the same number, or more in the second if
it escapes the comparison that the first does not end. -/
def Rounds (escapes : Stop → Prop) (rounds rounds' : Nat) : Prop :=
  rounds' = rounds ∨ escapes .unfinished ∧ rounds ≤ rounds'

/-- Two settings that differ at most in how they read names and show values, with `frames` and
`frames'` jobs left, and agree on these as well. -/
structure Setting.Similar (escapes : Stop → Prop) (s t : Setting) (frames frames' : Nat) :
    Prop where
  registry : s.registry.Alike t.registry
  rounds : Rounds escapes s.rounds t.rounds
  name : ∀ pos name scope, Lockstep escapes (nameRule s pos name scope) (nameRule t pos name scope)
  styled : ∀ style v, Lockstep escapes (styled s frames style v) (styled t frames' style v)

section Statements

theorem lockstep_hoist (scope : ScopeId) (stmts : List Stmt) :
    Lockstep escapes (hoist scope stmts) (hoist scope stmts) := by
  induction stmts with
  | nil => exact .pure ()
  | cons st rest ih =>
    cases st with
    | fnDecl d => exact .bind (lockstep_define ..) fun _ => ih
    | _ => exact ih

variable (hrun : ∀ {α : Type} (job : Job α), Lockstep escapes (run job) (run' job))
include hrun

theorem lockstep_sequence (scope : ScopeId) (v : Value) (stmts : List Stmt) :
    Lockstep escapes (sequence run scope v stmts) (sequence run' scope v stmts) := by
  induction stmts generalizing v with
  | nil => exact .pure v
  | cons st rest ih => exact .bind (hrun _) fun v => ih v

theorem lockstep_bodyRule (stmts : List Stmt) (scope : ScopeId) :
    Lockstep escapes (bodyRule run stmts scope) (bodyRule run' stmts scope) :=
  .bind (lockstep_hoist ..) fun _ => lockstep_sequence hrun ..

theorem lockstep_nested (stmts : List Stmt) (scope : ScopeId) :
    Lockstep escapes (nested run stmts scope) (nested run' stmts scope) :=
  .bind (lockstep_openScope ..) fun _ => hrun _

theorem lockstep_letRule (name : String) (value : Expr) (scope : ScopeId) :
    Lockstep escapes (letRule run name value scope) (letRule run' name value scope) := by
  refine .bind (hrun _) fun v => ?_
  have hdefine : Lockstep escapes (do define scope name v; pure Value.unit)
      (do define scope name v; pure Value.unit) :=
    .bind (lockstep_define ..) fun _ => .pure _
  split
  · exact .bind (lockstep_markMoved ..) fun _ => .bind (lockstep_note _) fun _ => hdefine
  · exact hdefine

theorem lockstep_assignRule (hreg : s.registry.Alike t.registry) (target : Place) (value : Expr)
    (scope : ScopeId) :
    Lockstep escapes (assignRule s run target value scope)
      (assignRule t run' target value scope) := by
  refine .bind (hrun _) fun v => ?_
  cases target with
  | name pos name => exact .bind (lockstep_assign ..) fun _ => .pure _
  | field pos object field =>
    refine .bind (hrun _) fun id => .bind (lockstep_instanceAt _) fun i => ?_
    rw [hreg.struct]
    refine .bind (lockstep_ofExcept _) fun struct => ?_
    split
    · exact .bind (lockstep_setField ..) fun _ => .pure _
    · exact lockstep_fault ..

theorem lockstep_conditionalRule (c : Conditional) (scope : ScopeId) :
    Lockstep escapes (conditionalRule run c scope) (conditionalRule run' c scope) := by
  refine .bind (hrun _) fun v => ?_
  split
  · exact lockstep_nested hrun ..
  · split
    · exact lockstep_nested hrun ..
    · exact .pure _
  · exact .bind (lockstep_typeName _) fun _ => lockstep_fault ..

theorem lockstep_whileRule (condition : Expr) (body : List Stmt) (scope : ScopeId)
    {rounds rounds' : Nat} (h : Rounds escapes rounds rounds') :
    Lockstep escapes (whileRule run condition body scope rounds)
      (whileRule run' condition body scope rounds') := by
  induction rounds generalizing rounds' with
  | zero =>
    rcases h with rfl | ⟨hescapes, -⟩
    · exact .throw _
    · exact .escape hescapes _
  | succ rounds ih =>
    obtain ⟨n, rfl, hn⟩ : ∃ n, rounds' = n + 1 ∧ Rounds escapes rounds n := by
      rcases h with rfl | ⟨hescapes, hle⟩
      · exact ⟨rounds, rfl, .inl rfl⟩
      · exact ⟨rounds' - 1, by omega, .inr ⟨hescapes, by omega⟩⟩
    refine .bind (hrun _) fun v => ?_
    split
    · exact .bind (lockstep_nested hrun ..) fun _ => ih hn
    · exact .pure _
    · exact .bind (lockstep_typeName _) fun _ => lockstep_fault ..

theorem lockstep_returnRule (pos : Pos) (value : Option Expr) (scope : ScopeId) :
    Lockstep escapes (returnRule run pos value scope) (returnRule run' pos value scope) := by
  refine .get_bind fun m n h => ?_
  rw [h.calls]
  split
  · exact lockstep_fault ..
  · cases value with
    | some e => exact .bind (hrun _) fun v => .throw _
    | none => exact .throw _

theorem lockstep_stmtRule (hs : s.Similar escapes t frames frames') (scope : ScopeId)
    (st : Stmt) : Lockstep escapes (stmtRule s run scope st) (stmtRule t run' scope st) := by
  cases st with
  | letIn pos name type value => exact lockstep_letRule hrun ..
  | assign pos target value => exact lockstep_assignRule hrun hs.registry ..
  | expr pos e terminated => exact .bind (hrun _) fun v => .pure _
  | conditional c => exact lockstep_conditionalRule hrun ..
  | whileLoop pos condition body => exact lockstep_whileRule hrun condition body scope hs.rounds
  | block pos body => exact lockstep_nested hrun ..
  | ret pos value => exact lockstep_returnRule hrun ..
  | structDecl d => exact .pure _
  | implBlock b => exact .pure _
  | fnDecl d => exact .pure _

end Statements

section Calls

theorem lockstep_bindParams (scope : ScopeId) (params : List Param) (args : List Value) :
    Lockstep escapes (bindParams scope params args) (bindParams scope params args) := by
  induction params generalizing args with
  | nil => exact .pure ()
  | cons p params ih =>
    cases args with
    | nil => exact .pure ()
    | cons v args => exact .bind (lockstep_define ..) fun _ => ih args

theorem lockstep_bindSelf (hreg : s.registry.Alike t.registry) (e : Entry) (scope : ScopeId)
    (pos : Pos) : Lockstep escapes (bindSelf s e scope pos) (bindSelf t e scope pos) := by
  unfold bindSelf
  simp only [hreg.struct]
  split
  · exact .bind (lockstep_define ..) fun _ => .pure _
  · refine .bind (lockstep_ofExcept _) fun struct => .bind (lockstep_alloc _) fun id => ?_
    exact .bind (lockstep_define ..) fun _ => .pure _
  · exact .pure _

theorem lockstep_resolve (type : TypePath) (pos : Pos) :
    Lockstep escapes (resolve type pos) (resolve type pos) := by
  cases type with
  | named name => exact .pure name
  | selfType =>
    refine .get_bind fun m n h => ?_
    rw [h.calls]
    split
    · exact .pure _
    · exact lockstep_fault ..

variable (hrun : ∀ {α : Type} (job : Job α), Lockstep escapes (run job) (run' job))
include hrun

theorem lockstep_enterRule (hr : ∀ v, ¬ escapes (.returned v)) (hreg : s.registry.Alike t.registry)
    (e : Entry) (args : List Value) (pos : Pos) :
    Lockstep escapes (enterRule s run e args pos) (enterRule t run' e args pos) := by
  unfold enterRule
  split
  · refine .bind (lockstep_openScope _) fun scope => .bind (lockstep_bindSelf hreg ..) fun fresh =>
      .bind (lockstep_bindParams ..) fun _ => .bind (lockstep_note _) fun _ =>
      .bind (lockstep_withinCall hr _ (hrun _)) fun v => ?_
    split
    · exact .pure _
    · exact .pure _
  · exact lockstep_fault ..

theorem lockstep_callRule (pos : Pos) (callee : Expr) (args : List Expr) (scope : ScopeId) :
    Lockstep escapes (callRule run pos callee args scope)
      (callRule run' pos callee args scope) := by
  refine .bind (hrun _) fun v => ?_
  split
  · exact .bind (hrun _) fun vs => hrun _
  · exact .bind (lockstep_typeName _) fun _ => lockstep_fault ..

theorem lockstep_methodCallRule (hreg : s.registry.Alike t.registry) (pos : Pos) (receiver : Expr)
    (method : String) (args : List Expr) (scope : ScopeId) :
    Lockstep escapes (methodCallRule s run pos receiver method args scope)
      (methodCallRule t run' pos receiver method args scope) := by
  unfold methodCallRule
  simp only [hreg.method]
  refine .bind (hrun _) fun id => .bind (lockstep_instanceAt _) fun i =>
    .bind (lockstep_ofExcept _) fun m => ?_
  split
  · exact .bind (hrun _) fun vs => hrun _
  · exact lockstep_fault ..

theorem lockstep_pathCallRule (hreg : s.registry.Alike t.registry) (pos : Pos) (type : TypePath)
    (name : String) (args : List Expr) (scope : ScopeId) :
    Lockstep escapes (pathCallRule s run pos type name args scope)
      (pathCallRule t run' pos type name args scope) := by
  unfold pathCallRule
  simp only [hreg.struct, hreg.method]
  refine .bind (lockstep_resolve ..) fun owner => .bind (lockstep_ofExcept _) fun _ =>
    .bind (lockstep_ofExcept _) fun m => .bind (hrun _) fun vs => ?_
  split
  · split
    · exact lockstep_fault ..
    · refine .bind (lockstep_instanceAt _) fun i => ?_
      split
      · exact hrun _
      · exact lockstep_fault ..
    · exact lockstep_fault ..
  · exact hrun _

end Calls

section Expressions

theorem lockstep_operated (pos : Pos) (r : Except Fault Value) :
    Lockstep escapes (operated pos r) (operated pos r) := by
  cases r with
  | ok v => exact .pure v
  | error f => exact lockstep_fault ..

variable (hrun : ∀ {α : Type} (job : Job α), Lockstep escapes (run job) (run' job))
include hrun

theorem lockstep_argsRule (scope : ScopeId) (es : List Expr) :
    Lockstep escapes (argsRule run scope es) (argsRule run' scope es) := by
  induction es with
  | nil => exact .pure []
  | cons e rest ih => exact .bind (hrun _) fun v => .bind ih fun vs => .pure _

theorem lockstep_instanceRule (e : Expr) (scope : ScopeId) :
    Lockstep escapes (instanceRule run e scope) (instanceRule run' e scope) := by
  refine .bind (hrun _) fun v => ?_
  split
  · exact .pure _
  · exact .bind (lockstep_typeName _) fun _ => lockstep_fault ..

theorem lockstep_logicRule (op : LogicOp) (left right : Expr) (scope : ScopeId) :
    Lockstep escapes (logicRule run op left right scope) (logicRule run' op left right scope) := by
  refine .bind (hrun _) fun v => ?_
  split
  · split
    · exact .pure _
    · refine .bind (hrun _) fun w => ?_
      split
      · exact .pure _
      · exact .bind (lockstep_typeName _) fun _ => lockstep_fault ..
  · exact .bind (lockstep_typeName _) fun _ => lockstep_fault ..

theorem lockstep_initFields (struct : StructDef) (id : InstanceId) (scope : ScopeId)
    (seen : List String) (fields : List FieldInit) :
    Lockstep escapes (initFields run struct id scope seen fields)
      (initFields run' struct id scope seen fields) := by
  induction fields generalizing seen with
  | nil => exact .pure ()
  | cons f rest ih =>
    unfold initFields
    split
    · split
      · exact lockstep_fault ..
      · exact .bind (hrun _) fun v => .bind (lockstep_setField ..) fun _ => ih _
    · exact lockstep_fault ..

theorem lockstep_structLitRule (hreg : s.registry.Alike t.registry) (pos : Pos) (type : TypePath)
    (fields : List FieldInit) (scope : ScopeId) :
    Lockstep escapes (structLitRule s run pos type fields scope)
      (structLitRule t run' pos type fields scope) := by
  unfold structLitRule
  simp only [hreg.struct]
  exact .bind (lockstep_resolve ..) fun name => .bind (lockstep_ofExcept _) fun struct =>
    .bind (lockstep_alloc _) fun id => .bind (lockstep_initFields hrun ..) fun _ => .pure _

theorem lockstep_fieldRule (pos : Pos) (object : Expr) (field : String) (scope : ScopeId) :
    Lockstep escapes (fieldRule run pos object field scope)
      (fieldRule run' pos object field scope) := by
  refine .bind (hrun _) fun id => .bind (lockstep_instanceAt _) fun i => ?_
  split
  · exact .pure _
  · exact lockstep_fault ..

theorem lockstep_binaryRule (op : BinaryOp) (left right : Expr) (scope : ScopeId) :
    Lockstep escapes (binaryRule run op left right scope)
      (binaryRule run' op left right scope) := by
  refine .bind (hrun _) fun a => .bind (hrun _) fun b => .get_bind fun m n h => ?_
  rw [h.heap]
  exact lockstep_operated ..

theorem lockstep_unaryRule (pos : Pos) (op : UnaryOp) (operand : Expr) (scope : ScopeId) :
    Lockstep escapes (unaryRule run pos op operand scope)
      (unaryRule run' pos op operand scope) := by
  refine .bind (hrun _) fun a => .get_bind fun m n h => ?_
  rw [h.heap]
  exact lockstep_operated ..

omit hrun in
/-- Names are read alike if both runs are as strict about moves. -/
theorem lockstep_nameRule_of_eq (h : t.strictMoves = s.strictMoves) (pos : Pos) (name : String)
    (scope : ScopeId) :
    Lockstep escapes (nameRule s pos name scope) (nameRule t pos name scope) := by
  unfold nameRule
  rw [h]
  refine .bind (lockstep_find ..) fun b => ?_
  split
  · split
    · exact lockstep_fault ..
    · exact .bind (lockstep_note _) fun _ => .pure _
  · exact .pure _

theorem lockstep_exprRule (hs : s.Similar escapes t frames frames') (scope : ScopeId)
    (e : Expr) : Lockstep escapes (exprRule s run scope e) (exprRule t run' scope e) := by
  cases e with
  | number pos n => exact .pure _
  | text pos content => exact .pure _
  | bool pos b => exact .pure _
  | name pos name => exact hs.name ..
  | unary pos op operand => exact lockstep_unaryRule hrun ..
  | binary op left right => exact lockstep_binaryRule hrun ..
  | logic op left right => exact hrun _
  | field pos object field => exact lockstep_fieldRule hrun ..
  | call pos callee args => exact lockstep_callRule hrun ..
  | pathCall pos type name args => exact lockstep_pathCallRule hrun hs.registry ..
  | methodCall pos receiver method args => exact lockstep_methodCallRule hrun hs.registry ..
  | macroCall pos name args => exact hrun _
  | structLit pos type fields => exact hrun _
  | conditional c => exact hrun _

end Expressions

section Printing

theorem lockstep_mapM {α β : Type} {f g : α → Eval β} (h : ∀ a, Lockstep escapes (f a) (g a))
    (as : List α) : Lockstep escapes (as.mapM f) (as.mapM g) := by
  induction as with
  | nil => exact .pure []
  | cons a as ih =>
    rw [List.mapM_cons, List.mapM_cons]
    exact .bind (h a) fun b => .bind ih fun bs => .pure _

theorem lockstep_template (pos : Pos) (name : String) (es : List Expr) :
    Lockstep escapes (template pos name es) (template pos name es) := by
  unfold template
  split
  · exact .pure _
  · exact .pure _
  · exact lockstep_fault ..

/-- Values are shown in lockstep if each heap shows them alike, or runs out of depth in the first
run and this escapes the comparison. -/
theorem lockstep_styled {style : Template.Style} {v : Value}
    (h : ∀ heap : Heap,
      heap.styled? s.fieldOrder frames style v = none ∧ escapes .overflow ∨
        heap.styled? t.fieldOrder frames' style v = heap.styled? s.fieldOrder frames style v) :
    Lockstep escapes (styled s frames style v) (styled t frames' style v) := by
  refine .get_bind fun m n hmn => ?_
  rw [hmn.heap]
  rcases h m.heap with ⟨hnone, hescapes⟩ | hsame
  · rw [hnone]
    exact .escape hescapes _
  · rw [hsame]
    cases m.heap.styled? s.fieldOrder frames style v with
    | some text => exact .pure text
    | none => exact .throw _

variable (hs : s.Similar escapes t frames frames')
include hs

theorem lockstep_joined (style : Template.Style) (vs : List Value) :
    Lockstep escapes (joined s frames style vs) (joined t frames' style vs) :=
  .bind (lockstep_mapM (hs.styled style) vs) fun _ => .pure _

theorem lockstep_expand (template : String) (vs : List Value) (pos : Pos) :
    Lockstep escapes (expand s frames template vs pos) (expand t frames' template vs pos) := by
  have hpart : ∀ p, Lockstep escapes (partText s frames p) (partText t frames' p) := by
    intro p
    cases p with
    | char c => exact .pure _
    | value style v => exact hs.styled style v
  refine .bind (lockstep_mapM hpart _) fun texts => ?_
  split
  · exact .pure _
  · exact lockstep_fault ..

theorem lockstep_printed (template : String) (vs : List Value) :
    Lockstep escapes (printed s frames template vs) (printed t frames' template vs) := by
  cases vs with
  | nil => exact .pure _
  | cons v vs => exact lockstep_joined hs ..

variable (hrun : ∀ {α : Type} (job : Job α), Lockstep escapes (run job) (run' job))
include hrun

theorem lockstep_panicMessage (pos : Pos) (args : List Expr) (scope : ScopeId) :
    Lockstep escapes (panicMessage s frames run pos args scope)
      (panicMessage t frames' run' pos args scope) := by
  unfold panicMessage
  split
  · exact .pure _
  · exact .bind (hrun _) fun vs => lockstep_expand hs ..
  · exact .bind (hrun _) fun vs => lockstep_joined hs ..

theorem lockstep_macroRule (pos : Pos) (name : String) (args : List Expr) (scope : ScopeId) :
    Lockstep escapes (macroRule s frames run pos name args scope)
      (macroRule t frames' run' pos name args scope) := by
  unfold macroRule
  split
  · exact lockstep_fault ..
  · exact .bind (lockstep_panicMessage hs hrun ..) fun _ => lockstep_fault ..
  · exact .bind (lockstep_template ..) fun _ => .bind (hrun _) fun vs =>
      .bind (lockstep_expand hs ..) fun _ => .pure _
  · exact .bind (lockstep_template ..) fun _ => .bind (hrun _) fun vs =>
      .bind (lockstep_printed hs ..) fun _ => .bind (lockstep_print _) fun _ => .pure _
  · exact .bind (lockstep_template ..) fun _ => .bind (hrun _) fun vs =>
      .bind (lockstep_printed hs ..) fun _ => .bind (lockstep_print _) fun _ => .pure _

end Printing

/-- One step of the evaluator: the rule of a job, given that the jobs inside it go in lockstep. -/
theorem lockstep_rule {α : Type} (hr : ∀ v, ¬ escapes (.returned v))
    (hs : s.Similar escapes t frames frames')
    (hrun : ∀ {α : Type} (job : Job α), Lockstep escapes (run job) (run' job)) (job : Job α) :
    Lockstep escapes (job.rule s frames run) (job.rule t frames' run') := by
  cases job with
  | stmt st scope => exact lockstep_stmtRule hrun hs ..
  | body stmts scope => exact lockstep_bodyRule hrun ..
  | expr e scope => exact lockstep_exprRule hrun hs ..
  | args es scope => exact lockstep_argsRule hrun ..
  | object e scope => exact lockstep_instanceRule hrun ..
  | logic op left right scope => exact lockstep_logicRule hrun ..
  | structLit pos type fields scope => exact lockstep_structLitRule hrun hs.registry ..
  | macroCall pos name args scope => exact lockstep_macroRule hs hrun ..
  | apply callee args pos => exact hrun _
  | enter entry args pos => exact lockstep_enterRule hrun hr hs.registry ..

/-- Settings that are similar however many frames are left do every job in lockstep. -/
theorem lockstep_eval (hr : ∀ v, ¬ escapes (.returned v))
    (hs : ∀ frames, s.Similar escapes t frames frames) (frames : Nat) {α : Type} (job : Job α) :
    Lockstep escapes (eval s frames job) (eval t frames job) := by
  induction frames generalizing α with
  | zero => exact .throw _
  | succ frames ih => exact lockstep_rule hr (hs frames) ih job

/-- Settings that are similar however many more frames are left in the second run do every job in
lockstep if running out of frames escapes the comparison. -/
theorem lockstep_eval_of_le (hr : ∀ v, ¬ escapes (.returned v)) (ho : escapes .overflow)
    (hs : ∀ {frames frames'}, frames ≤ frames' → s.Similar escapes t frames frames')
    (h : frames ≤ frames') {α : Type} (job : Job α) :
    Lockstep escapes (eval s frames job) (eval t frames' job) := by
  induction frames generalizing frames' α with
  | zero => exact .escape ho _
  | succ frames ih =>
    obtain ⟨n, rfl⟩ := Nat.exists_eq_add_of_le h
    rw [show frames + 1 + n = (frames + n) + 1 by omega]
    exact lockstep_rule hr (hs (Nat.le_add_right frames n)) (ih (Nat.le_add_right frames n)) job

end Rustlet.Evaluation
