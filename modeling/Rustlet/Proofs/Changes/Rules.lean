import Rustlet.Evaluation
import Rustlet.Proofs.Changes

namespace Rustlet

open Machine

/-- Every struct is entered under its own name. -/
def Registry.Named (r : Registry) : Prop := ∀ {name d}, r.structs.get? name = some d → d.name = name

theorem Registry.get?_of_struct {r : Registry} {name : String} {pos : Option Pos} {d : StructDef}
    (h : r.struct name pos = .ok d) : r.structs.get? name = some d := by
  unfold Registry.struct at h
  split at h
  · cases h
    assumption
  · cases h

/-- The name that a statement binds in its own scope may be bound there. -/
def Stmt.Allowed (may : ScopeId → String → Prop) (scope : ScopeId) : Stmt → Prop
  | .letIn _ name _ _ => may scope name
  | _ => True

theorem Stmt.allowed_of_all {may : ScopeId → String → Prop} {scope : ScopeId}
    (h : ∀ name, may scope name) (st : Stmt) : st.Allowed may scope := by
  cases st with
  | letIn pos name type value => exact h name
  | _ => trivial

namespace Evaluation

open Eval

/-- What is entered refers only to what is there. -/
structure Entry.Known (m : Machine) (e : Entry) : Prop where
  scope : e.scope < m.scopes.next
  receiver : ∀ id ∈ e.receiver, id < m.heap.size

/-- What is called refers only to what is there. -/
def Callee.Known (m : Machine) : Callee → Prop
  | .closure f => f.scope < m.scopes.next
  | .method _ receiver => ∀ id ∈ receiver, id < m.heap.size

/-- A job refers only to what is there. -/
def Job.Known (m : Machine) : {α : Type} → Job α → Prop
  | _, .stmt _ scope => scope < m.scopes.next
  | _, .body _ scope => scope < m.scopes.next
  | _, .expr _ scope => scope < m.scopes.next
  | _, .args _ scope => scope < m.scopes.next
  | _, .object _ scope => scope < m.scopes.next
  | _, .logic _ _ _ scope => scope < m.scopes.next
  | _, .structLit _ _ _ scope => scope < m.scopes.next
  | _, .macroCall _ _ _ scope => scope < m.scopes.next
  | _, .apply callee vs _ => callee.Known m ∧ ∀ v ∈ vs, v.Known m
  | _, .enter entry vs _ => entry.Known m ∧ ∀ v ∈ vs, v.Known m

/-- The names that a job binds in its own scope may be bound there. -/
def Job.Allowed (may : ScopeId → String → Prop) : {α : Type} → Job α → Prop
  | _, .stmt st scope => st.Allowed may scope
  | _, .body _ scope => ∀ name, may scope name
  | _, _ => True

theorem Job.allowed_of_all {may : ScopeId → String → Prop} (h : ∀ s name, may s name) {α : Type}
    (job : Job α) : job.Allowed may := by
  cases job with
  | stmt st scope => exact st.allowed_of_all (h scope)
  | body stmts scope => exact h scope
  | _ => trivial

/-- If an expression is a name, its value is what the name means. -/
def Means (m : Machine) (scope : ScopeId) : Expr → Value → Prop
  | .name _ name, v => ∃ b, m.scopes.find? scope name = some b ∧ b.value = v
  | _, _ => True

/-- What a job gives refers only to what is there. -/
def Job.Gives (m : Machine) : {α : Type} → Job α → α → Prop
  | _, .expr e scope, v => v.Known m ∧ Means m scope e v
  | _, .args .., vs => ∀ v ∈ vs, v.Known m
  | _, .object .., id => id < m.heap.size
  | _, .stmt .., v => v.Known m
  | _, .body .., v => v.Known m
  | _, .logic .., v => v.Known m
  | _, .structLit .., v => v.Known m
  | _, .macroCall .., v => v.Known m
  | _, .apply .., v => v.Known m
  | _, .enter .., v => v.Known m

/-- A runner that follows a path with every job, and gives only what is there. -/
def Runs (r : Registry) (run : Runner) : Prop :=
  ∀ {α : Type} (job : Job α) {may : ScopeId → String → Prop} {m : Machine}, job.Known m →
    job.Allowed may → Follows r may m (run job) fun a m' => job.Gives m' a

variable {r : Registry} {run : Runner} {may : ScopeId → String → Prop} {m : Machine}
  {scope : ScopeId}

section Statements

theorem follows_hoist (hscope : scope < m.scopes.next) (hall : ∀ name, may scope name)
    (stmts : List Stmt) : Follows r may m (hoist scope stmts) fun _ _ => True := by
  induction stmts generalizing m with
  | nil => exact .pure trivial
  | cons st rest ih =>
    cases st with
    | fnDecl d =>
      have hv : (Value.fn ⟨d, scope⟩).Known m := hscope
      refine (Follows.define (hall d.name) hv).bind fun _ m' hg _ => ?_
      exact ih (Nat.lt_of_lt_of_le hscope hg.scopes)
    | _ => exact ih hscope

variable (hrun : Runs r run)
include hrun

/-- The value of an expression that is a part of a job. -/
theorem Runs.value (hscope : scope < m.scopes.next) (e : Expr) :
    Follows r may m (run (.expr e scope)) fun v m' => v.Known m' :=
  (hrun (.expr e scope) hscope trivial).mono fun _ _ _ h => h.1

theorem Runs.values (hscope : scope < m.scopes.next) (es : List Expr) :
    Follows r may m (run (.args es scope)) fun vs m' => ∀ v ∈ vs, v.Known m' :=
  hrun (.args es scope) hscope trivial

theorem follows_sequence (hscope : scope < m.scopes.next) (hall : ∀ name, may scope name)
    {v : Value} (hv : v.Known m) (stmts : List Stmt) :
    Follows r may m (sequence run scope v stmts) fun v m' => v.Known m' := by
  induction stmts generalizing m v with
  | nil => exact .pure hv
  | cons st rest ih =>
    refine (hrun (.stmt st scope) hscope (st.allowed_of_all hall)).bind fun v m' hg hv => ?_
    exact ih (Nat.lt_of_lt_of_le hscope hg.scopes) hv

theorem follows_bodyRule (hscope : scope < m.scopes.next) (hall : ∀ name, may scope name)
    (stmts : List Stmt) : Follows r may m (bodyRule run stmts scope) fun v m' => v.Known m' := by
  refine (follows_hoist hscope hall stmts).bind fun _ m' hg _ => ?_
  have hunit : Value.unit.Known m' := trivial
  exact follows_sequence hrun (Nat.lt_of_lt_of_le hscope hg.scopes) hall hunit stmts

theorem follows_nested (hscope : scope < m.scopes.next) (stmts : List Stmt) :
    Follows r may m (nested run stmts scope) fun v m' => v.Known m' :=
  (Follows.openScope hscope).bind fun inner _ _ h => hrun (.body stmts inner) h.1 h.2

theorem follows_letRule (hscope : scope < m.scopes.next) {name : String} (hmay : may scope name)
    (value : Expr) :
    Follows r may m (letRule run name value scope) fun v m' => v.Known m' := by
  have hdefine : ∀ {v : Value} {m : Machine}, v.Known m →
      Follows r may m (do define scope name v; pure Value.unit) fun v m' => v.Known m' :=
    fun hv => (Follows.define hmay hv).bind fun _ _ _ _ => .pure trivial
  refine (hrun (.expr value scope) hscope trivial).bind fun v m' hg hv => ?_
  split
  · obtain ⟨hknown, b, hb, hvalue⟩ := hv
    refine (Follows.markMoved hb hvalue).bind fun _ _ hg _ =>
      (Follows.note _).bind fun _ _ hg' _ => ?_
    exact hdefine (hg'.known (hg.known hknown))
  · exact hdefine hv.1

theorem follows_conditionalRule (hscope : scope < m.scopes.next) (c : Conditional) :
    Follows r may m (conditionalRule run c scope) fun v m' => v.Known m' := by
  refine (hrun.value hscope c.condition).bind fun v m' hg hv => ?_
  have hscope := Nat.lt_of_lt_of_le hscope hg.scopes
  split
  · exact follows_nested hrun hscope _
  · split
    · exact follows_nested hrun hscope _
    · exact .pure trivial
  · exact .typeName_bind (.fault nofun)

theorem follows_whileRule (hscope : scope < m.scopes.next) (condition : Expr) (body : List Stmt)
    (rounds : Nat) :
    Follows r may m (whileRule run condition body scope rounds) fun v m' => v.Known m' := by
  induction rounds generalizing m with
  | zero => exact .throw trivial
  | succ rounds ih =>
    refine (hrun.value hscope condition).bind fun v m' hg hv => ?_
    have hscope := Nat.lt_of_lt_of_le hscope hg.scopes
    split
    · refine (follows_nested hrun hscope body).bind fun _ _ hg _ => ?_
      exact ih (Nat.lt_of_lt_of_le hscope hg.scopes)
    · exact .pure trivial
    · exact .typeName_bind (.fault nofun)

/-- A return is from a call that is under way. -/
theorem follows_returnRule (hscope : scope < m.scopes.next) (pos : Pos) (value : Option Expr) :
    Follows r may m (returnRule run pos value scope) fun v m' => v.Known m' := by
  refine .get_bind ?_
  split
  · exact .fault nofun
  · rename_i hcalls
    have hne : m.calls ≠ [] := fun h => hcalls (by rw [h]; rfl)
    cases value with
    | none =>
      exact .throw ⟨trivial, hne⟩
    | some e => exact (hrun.value hscope e).returning hne

variable {s : Setting} (hreg : s.registry = r)
include hreg

theorem follows_assignRule (hscope : scope < m.scopes.next) (target : Place) (value : Expr) :
    Follows r may m (assignRule s run target value scope) fun v m' => v.Known m' := by
  refine (hrun.value hscope value).bind fun v m' hg hv => ?_
  cases target with
  | name pos name => exact (Follows.assign hv).bind fun _ _ _ _ => .pure trivial
  | field pos object field =>
    have hscope := Nat.lt_of_lt_of_le hscope hg.scopes
    refine (hrun (.object object scope) hscope trivial).bind fun id m' hg hid => ?_
    refine .instanceAt_bind ((Follows.struct ..).bind fun struct m'' _ h => ?_)
    obtain ⟨rfl, hstruct⟩ := h
    rw [hreg] at hstruct
    split
    · rename_i hfield
      refine (Follows.setField hid (Registry.get?_of_struct hstruct) ?_ (hg.known hv)).bind
        fun _ _ _ _ => .pure trivial
      exact Bool.or_eq_true_iff.1 hfield
    · exact .fault nofun

theorem follows_stmtRule (hscope : scope < m.scopes.next) {st : Stmt} (hst : st.Allowed may scope) :
    Follows r may m (stmtRule s run scope st) fun v m' => v.Known m' := by
  cases st with
  | letIn pos name type value => exact follows_letRule hrun hscope hst value
  | assign pos target value => exact follows_assignRule hrun hreg hscope ..
  | expr pos e terminated =>
    refine (hrun.value hscope e).bind fun v m' _ hv => .pure ?_
    cases terminated with
    | true => trivial
    | false => exact hv
  | conditional c => exact follows_conditionalRule hrun hscope c
  | whileLoop pos condition body => exact follows_whileRule hrun hscope ..
  | block pos body => exact follows_nested hrun hscope body
  | ret pos value => exact follows_returnRule hrun hscope ..
  | structDecl d => exact .pure trivial
  | implBlock b => exact .pure trivial
  | fnDecl d => exact .pure trivial

end Statements

section Calls

theorem follows_bindParams (hall : ∀ name, may scope name) (params : List Param)
    {args : List Value} (hargs : ∀ v ∈ args, v.Known m) :
    Follows r may m (bindParams scope params args) fun _ _ => True := by
  induction params generalizing m args with
  | nil => exact .pure trivial
  | cons p params ih =>
    cases args with
    | nil => exact .pure trivial
    | cons v args =>
      refine (Follows.define (hall p.name) (hargs v List.mem_cons_self)).bind fun _ m' hg _ => ?_
      exact ih fun w hw => hg.known (hargs w (List.mem_cons_of_mem _ hw))

theorem follows_bindSelf {s : Setting} (hreg : s.registry = r) (hall : ∀ name, may scope name)
    {e : Entry} (he : e.Known m) (pos : Pos) :
    Follows r may m (bindSelf s e scope pos) fun fresh m' => ∀ id ∈ fresh, id < m'.heap.size := by
  have hdefine : ∀ {id : InstanceId} {fresh : Option InstanceId} {m : Machine}, id < m.heap.size →
      (∀ i ∈ fresh, i = id) →
      Follows r may m (do define scope selfName (.inst id); pure fresh)
        fun fresh m' => ∀ i ∈ fresh, i < m'.heap.size := by
    intro id fresh m hid hfresh
    have hv : (Value.inst id).Known m := hid
    refine (Follows.define (hall selfName) hv).bind fun _ m' hg _ => .pure fun i hi => ?_
    rw [hfresh i hi]
    exact Nat.lt_of_lt_of_le hid hg.heap
  unfold bindSelf
  split
  · rename_i hreceiver
    exact hdefine (he.receiver _ hreceiver) nofun
  · refine (Follows.struct ..).bind fun struct m' _ h => ?_
    obtain ⟨rfl, hstruct⟩ := h
    rw [hreg] at hstruct
    refine (Follows.alloc (Registry.get?_of_struct hstruct)).bind fun id m' _ hid => ?_
    exact hdefine hid.1 fun i hi => (Option.some.inj hi).symm
  · exact .pure nofun

theorem follows_resolve (type : TypePath) (pos : Pos) :
    Follows r may m (resolve type pos) fun _ m' => m' = m := by
  cases type with
  | named name => exact .pure rfl
  | selfType =>
    refine .get_bind ?_
    split
    · exact .pure rfl
    · exact .fault nofun

variable (hrun : Runs r run) {s : Setting} (hreg : s.registry = r)

include hrun

theorem follows_enterRule (hreg : s.registry = r) {e : Entry} (he : e.Known m) {args : List Value}
    (hargs : ∀ v ∈ args, v.Known m) (pos : Pos) :
    Follows r may m (enterRule s run e args pos) fun v m' => v.Known m' := by
  unfold enterRule
  split
  · refine (Follows.openScope he.scope).bind fun scope m₁ hg₁ h => ?_
    have he₁ : e.Known m₁ :=
      ⟨Nat.lt_of_lt_of_le he.scope hg₁.scopes, fun id hid =>
        Nat.lt_of_lt_of_le (he.receiver id hid) hg₁.heap⟩
    refine (follows_bindSelf hreg h.2 he₁ pos).bind fun fresh m₂ hg₂ hfresh => ?_
    have hargs₂ : ∀ v ∈ args, v.Known m₂ := fun v hv => hg₂.known (hg₁.known (hargs v hv))
    refine (follows_bindParams h.2 _ hargs₂).bind fun _ m₃ hg₃ _ =>
      (Follows.note _).bind fun _ m₄ hg₄ _ => ?_
    have hg := (hg₂.trans hg₃).trans hg₄
    have hbody : Follows r may { m₄ with calls := e.owner :: m₄.calls }
        (run (.body e.decl.body scope)) fun v m' => v.Known m' :=
      hrun (.body e.decl.body scope) (Nat.lt_of_lt_of_le h.1 hg.scopes) h.2
    refine (Follows.withinCall hbody).bind fun v m₅ hg₅ hv => ?_
    split
    · exact .pure (Nat.lt_of_lt_of_le (hfresh _ rfl) ((hg₃.trans hg₄).trans hg₅).heap)
    · exact .pure hv
  · exact .fault nofun

theorem follows_callRule (hscope : scope < m.scopes.next) (pos : Pos) (callee : Expr)
    (args : List Expr) :
    Follows r may m (callRule run pos callee args scope) fun v m' => v.Known m' := by
  refine (hrun.value hscope callee).bind fun v m' hg hv => ?_
  split
  · refine (hrun.values (Nat.lt_of_lt_of_le hscope hg.scopes) args).bind fun vs m'' hg' hvs => ?_
    exact hrun (.apply _ vs pos) ⟨Nat.lt_of_lt_of_le hv hg'.scopes, hvs⟩ trivial
  · exact .typeName_bind (.fault nofun)

theorem follows_methodCallRule (hscope : scope < m.scopes.next) (pos : Pos) (receiver : Expr)
    (method : String) (args : List Expr) :
    Follows r may m (methodCallRule s run pos receiver method args scope)
      fun v m' => v.Known m' := by
  refine (hrun (.object receiver scope) hscope trivial).bind fun id m' hg hid => ?_
  refine .instanceAt_bind ((Follows.method ..).bind fun method m'' _ h => ?_)
  obtain rfl := h
  split
  · refine (hrun.values (Nat.lt_of_lt_of_le hscope hg.scopes) args).bind fun vs m'' hg' hvs => ?_
    refine hrun (.apply _ vs pos) ⟨fun i hi => ?_, hvs⟩ trivial
    cases hi
    exact Nat.lt_of_lt_of_le hid hg'.heap
  · exact .fault nofun

theorem follows_pathCallRule (hscope : scope < m.scopes.next) (pos : Pos) (type : TypePath)
    (name : String) (args : List Expr) :
    Follows r may m (pathCallRule s run pos type name args scope) fun v m' => v.Known m' := by
  refine (follows_resolve type pos).bind fun owner m₁ _ h₁ => (Follows.struct ..).bind
    fun struct m₂ _ h₂ => (Follows.method ..).bind fun method m₃ _ h₃ => ?_
  obtain ⟨rfl, rfl, rfl⟩ : m₃ = m₂ ∧ m₂ = m₁ ∧ m₁ = m := ⟨h₃, h₂.1, h₁⟩
  refine (hrun.values hscope args).bind fun vs m' hg hvs => ?_
  split
  · split
    · exact .fault nofun
    · rename_i id rest
      refine .instanceAt_bind ?_
      split
      · refine hrun (.apply _ rest pos) ⟨fun i hi => ?_, fun v hv => ?_⟩ trivial
        · cases hi
          exact hvs _ List.mem_cons_self
        · exact hvs v (List.mem_cons_of_mem _ hv)
      · exact .fault nofun
    · exact .fault nofun
  · exact hrun (.apply _ vs pos) ⟨nofun, hvs⟩ trivial

end Calls

section Expressions

/-- An operator gives a value that is there, or fails for another reason than a moved name. -/
structure Operates (m : Machine) (res : Except Fault Value) : Prop where
  known : ∀ v, res = .ok v → v.Known m
  unmoved : ∀ f, res = .error f → ∀ name, f ≠ .movedValue name

theorem follows_operated {res : Except Fault Value} (h : Operates m res) (pos : Pos) :
    Follows r may m (operated pos res) fun v m' => v.Known m' := by
  cases res with
  | ok v => exact .pure (h.known v rfl)
  | error f => exact .fault (h.unmoved f rfl)

/-- Operators give numbers, texts and truth values only. -/
theorem operates_binary (h : Heap) (op : BinaryOp) (a b : Value) :
    Operates m (Value.binary h op a b) := by
  constructor
  · intro v hv
    unfold Value.binary at hv
    split at hv
    · split at hv <;> cases hv
      trivial
    · split at hv <;> cases hv
      trivial
    all_goals cases hv <;> trivial
  · intro f hf
    unfold Value.binary at hf
    split at hf
    · split at hf <;> cases hf
      nofun
    · split at hf <;> cases hf
      nofun
    all_goals cases hf <;> nofun

theorem operates_unary (h : Heap) (op : UnaryOp) (a : Value) : Operates m (Value.unary h op a) := by
  constructor
  · intro v hv
    unfold Value.unary at hv
    split at hv
    all_goals cases hv
    all_goals trivial
  · intro f hf
    unfold Value.unary at hf
    split at hf
    all_goals cases hf
    nofun

/-- The value of a name is what the name means afterwards. -/
theorem follows_nameRule (s : Setting) (pos : Pos) (name : String) (scope : ScopeId) :
    Follows r may m (nameRule s pos name scope) fun v m' =>
      v.Known m' ∧ Means m' scope (.name pos name) v := by
  refine .of_fair fun hm => (Follows.find scope name pos).bind fun b m' _ h => ?_
  obtain ⟨rfl, hb⟩ := h
  have hknown := hm.found hb
  split
  · rename_i hmoved
    have hread : m'.scopes.isMoved scope name = true := by
      simpa [ScopeTree.isMoved, hb] using hmoved
    split
    · refine .throw ⟨rfl, fun name' hname => ⟨scope, ?_⟩⟩
      obtain rfl := Fault.movedValue.inj hname
      exact hread
    · refine (Follows.modify (fun _ => .noted _) rfl).bind fun _ m'' hg hm'' => .pure ?_
      subst hm''
      exact ⟨hg.known hknown, b, hb, rfl⟩
  · exact .pure ⟨hknown, b, hb, rfl⟩

variable (hrun : Runs r run)
include hrun

theorem follows_argsRule (hscope : scope < m.scopes.next) (es : List Expr) :
    Follows r may m (argsRule run scope es) fun vs m' => ∀ v ∈ vs, v.Known m' := by
  induction es generalizing m with
  | nil => exact .pure nofun
  | cons e rest ih =>
    refine (hrun.value hscope e).bind fun v m' hg hv => ?_
    refine (ih (Nat.lt_of_lt_of_le hscope hg.scopes)).bind fun vs m'' hg' hvs => .pure ?_
    exact List.forall_mem_cons.2 ⟨hg'.known hv, hvs⟩

theorem follows_instanceRule (hscope : scope < m.scopes.next) (e : Expr) :
    Follows r may m (instanceRule run e scope) fun id m' => id < m'.heap.size := by
  refine (hrun.value hscope e).bind fun v m' _ hv => ?_
  split
  · exact .pure hv
  · exact .typeName_bind (.fault nofun)

theorem follows_logicRule (hscope : scope < m.scopes.next) (op : LogicOp) (left right : Expr) :
    Follows r may m (logicRule run op left right scope) fun v m' => v.Known m' := by
  refine (hrun.value hscope left).bind fun v m' hg _ => ?_
  split
  · split
    · exact .pure trivial
    · refine (hrun.value (Nat.lt_of_lt_of_le hscope hg.scopes) right).bind fun w m'' _ _ => ?_
      split
      · exact .pure trivial
      · exact .typeName_bind (.fault nofun)
  · exact .typeName_bind (.fault nofun)

/-- The instance that is being made keeps its struct while the values of its fields are found. -/
theorem follows_initFields {struct : StructDef} {id : InstanceId} (hscope : scope < m.scopes.next)
    (hd : r.structs.get? struct.name = some struct) (hid : id < m.heap.size)
    (htype : (m.heap.get id).type = struct.name) (seen : List String) (fields : List FieldInit) :
    Follows r may m (initFields run struct id scope seen fields)
      fun _ m' => id < m'.heap.size := by
  induction fields generalizing m seen with
  | nil => exact .pure hid
  | cons f rest ih =>
    unfold initFields
    split
    · rename_i hfield
      split
      · exact .fault nofun
      · refine (hrun.value hscope f.value).bind fun v m₁ hg₁ hv => ?_
        have hid₁ := Nat.lt_of_lt_of_le hid hg₁.heap
        have htype₁ := (hg₁.types id hid).trans htype
        refine (Follows.setField hid₁ (htype₁ ▸ hd) (.inl hfield) hv).bind fun _ m₂ hg₂ _ => ?_
        exact ih (Nat.lt_of_lt_of_le hscope (hg₁.trans hg₂).scopes)
          (Nat.lt_of_lt_of_le hid₁ hg₂.heap) ((hg₂.types id hid₁).trans htype₁) _
    · exact .fault nofun

theorem follows_structLitRule {s : Setting} (hreg : s.registry = r) (hnamed : r.Named)
    (hscope : scope < m.scopes.next) (pos : Pos) (type : TypePath) (fields : List FieldInit) :
    Follows r may m (structLitRule s run pos type fields scope) fun v m' => v.Known m' := by
  refine (follows_resolve type pos).bind fun name m₁ _ h₁ => (Follows.struct ..).bind
    fun struct m₂ _ h₂ => ?_
  obtain ⟨rfl, rfl⟩ : m₂ = m₁ ∧ m₁ = m := ⟨h₂.1, h₁⟩
  have hd := hreg ▸ Registry.get?_of_struct h₂.2
  refine (Follows.alloc hd).bind fun id m₃ hg₃ hid => ?_
  refine (follows_initFields hrun (Nat.lt_of_lt_of_le hscope hg₃.scopes) ?_ hid.1 hid.2 _ _).bind
    fun _ m₄ _ hid => .pure hid
  rwa [hnamed hd]

theorem follows_fieldRule (hscope : scope < m.scopes.next) (pos : Pos) (object : Expr)
    (field : String) :
    Follows r may m (fieldRule run pos object field scope) fun v m' => v.Known m' := by
  refine (hrun (.object object scope) hscope trivial).bind fun id m' _ hid => .instanceAt_bind ?_
  split
  · rename_i hv
    exact .of_fair fun hm => .pure (hm.fields hv)
  · exact .fault nofun

theorem follows_binaryRule (hscope : scope < m.scopes.next) (op : BinaryOp) (left right : Expr) :
    Follows r may m (binaryRule run op left right scope) fun v m' => v.Known m' := by
  refine (hrun.value hscope left).bind fun a m₁ hg₁ ha => ?_
  refine (hrun.value (Nat.lt_of_lt_of_le hscope hg₁.scopes) right).bind fun b m₂ _ hb => ?_
  exact .get_bind (follows_operated (operates_binary ..) _)

theorem follows_unaryRule (hscope : scope < m.scopes.next) (pos : Pos) (op : UnaryOp)
    (operand : Expr) :
    Follows r may m (unaryRule run pos op operand scope) fun v m' => v.Known m' := by
  refine (hrun.value hscope operand).bind fun a m₁ hg₁ ha => ?_
  exact .get_bind (follows_operated (operates_unary ..) _)

theorem follows_exprRule (s : Setting) (hscope : scope < m.scopes.next) (e : Expr) :
    Follows r may m (exprRule s run scope e) fun v m' => v.Known m' ∧ Means m' scope e v := by
  -- Only a name has to mean something.
  have hvalue : ∀ {e : Expr} {x : Eval Value}, (∀ v m', Means m' scope e v) →
      Follows r may m x (fun v m' => v.Known m') →
      Follows r may m x fun v m' => v.Known m' ∧ Means m' scope e v :=
    fun hmeans hx => hx.mono fun v m' _ hv => ⟨hv, hmeans v m'⟩
  cases e with
  | number pos n => exact .pure ⟨trivial, trivial⟩
  | text pos content => exact .pure ⟨trivial, trivial⟩
  | bool pos b => exact .pure ⟨trivial, trivial⟩
  | name pos name => exact follows_nameRule ..
  | unary pos op operand => exact hvalue (fun _ _ => trivial) (follows_unaryRule hrun hscope ..)
  | binary op left right => exact hvalue (fun _ _ => trivial) (follows_binaryRule hrun hscope ..)
  | logic op left right =>
    exact hvalue (fun _ _ => trivial) (hrun (.logic op left right scope) hscope trivial)
  | field pos object field =>
    exact hvalue (fun _ _ => trivial) (follows_fieldRule hrun hscope ..)
  | call pos callee args => exact hvalue (fun _ _ => trivial) (follows_callRule hrun hscope ..)
  | pathCall pos type name args =>
    exact hvalue (fun _ _ => trivial) (follows_pathCallRule hrun hscope ..)
  | methodCall pos receiver method args =>
    exact hvalue (fun _ _ => trivial) (follows_methodCallRule hrun hscope ..)
  | macroCall pos name args =>
    exact hvalue (fun _ _ => trivial) (hrun (.macroCall pos name args scope) hscope trivial)
  | structLit pos type fields =>
    exact hvalue (fun _ _ => trivial) (hrun (.structLit pos type fields scope) hscope trivial)
  | conditional c =>
    exact hvalue (fun _ _ => trivial) (hrun (.stmt (.conditional c) scope) hscope trivial)

end Expressions

section Printing

theorem follows_mapM {α β : Type} {f : α → Eval β}
    (h : ∀ a m, Follows r may m (f a) fun _ _ => True) (as : List α) :
    Follows r may m (as.mapM f) fun _ _ => True := by
  induction as generalizing m with
  | nil => exact .pure trivial
  | cons a as ih =>
    rw [List.mapM_cons]
    exact (h a m).bind fun _ _ _ _ => ih.bind fun _ _ _ _ => .pure trivial

theorem follows_styled (s : Setting) (frames : Nat) (style : Template.Style) (v : Value) :
    Follows r may m (styled s frames style v) fun _ _ => True :=
  .get_bind (.ofDepth _)

theorem follows_joined (s : Setting) (frames : Nat) (style : Template.Style) (vs : List Value) :
    Follows r may m (joined s frames style vs) fun _ _ => True :=
  (follows_mapM (fun v _ => follows_styled s frames style v) vs).bind fun _ _ _ _ => .pure trivial

theorem follows_expand (s : Setting) (frames : Nat) (template : String) (vs : List Value)
    (pos : Pos) : Follows r may m (expand s frames template vs pos) fun _ _ => True := by
  have hpart : ∀ (p : Template.Part Value) m, Follows r may m (partText s frames p)
      fun _ _ => True := by
    intro p m
    cases p with
    | char c => exact .pure trivial
    | value style v => exact follows_styled s frames style v
  refine (follows_mapM hpart _).bind fun texts m' _ _ => ?_
  split
  · exact .pure trivial
  · exact .fault nofun

theorem follows_template (pos : Pos) (name : String) (es : List Expr) :
    Follows r may m (template pos name es) fun _ m' => m' = m := by
  unfold template
  split
  · exact .pure rfl
  · exact .pure rfl
  · exact .fault nofun

theorem follows_printed (s : Setting) (frames : Nat) (template : String) (vs : List Value) :
    Follows r may m (printed s frames template vs) fun _ _ => True := by
  cases vs with
  | nil => exact .pure trivial
  | cons v vs => exact follows_joined ..

variable (hrun : Runs r run)
include hrun

theorem follows_panicMessage (s : Setting) (frames : Nat) (hscope : scope < m.scopes.next)
    (pos : Pos) (args : List Expr) :
    Follows r may m (panicMessage s frames run pos args scope) fun _ _ => True := by
  unfold panicMessage
  split
  · exact .pure trivial
  · exact (hrun.values hscope _).bind fun _ _ _ _ => follows_expand ..
  · exact (hrun.values hscope _).bind fun _ _ _ _ => follows_joined ..

theorem follows_macroRule (s : Setting) (frames : Nat) (hscope : scope < m.scopes.next) (pos : Pos)
    (name : String) (args : List Expr) :
    Follows r may m (macroRule s frames run pos name args scope) fun v m' => v.Known m' := by
  -- The arguments after the template, and what is done with their values.
  have hargs : ∀ {f : String → List Value → Eval Value},
      (∀ t vs m, Follows r may m (f t vs) fun v m' => v.Known m') →
      Follows r may m (do
        let t ← template pos name args
        let vs ← run (.args args.tail scope)
        f t vs) fun v m' => v.Known m' := by
    intro f hf
    refine (follows_template pos name args).bind fun t m' _ hm' => ?_
    subst hm'
    exact (hrun.values hscope _).bind fun vs m' _ _ => hf t vs m'
  unfold macroRule
  split
  · exact .fault nofun
  · exact (follows_panicMessage hrun s frames hscope pos args).bind fun _ _ _ _ => .fault nofun
  · exact hargs fun t vs m => (follows_expand ..).bind fun _ _ _ _ => .pure trivial
  · exact hargs fun t vs m => (follows_printed ..).bind fun _ _ _ _ =>
      (Follows.print _).bind fun _ _ _ _ => .pure trivial
  · exact hargs fun t vs m => (follows_printed ..).bind fun _ _ _ _ =>
      (Follows.print _).bind fun _ _ _ _ => .pure trivial

end Printing

/-- One step of the evaluator: the rule of a job, given that the jobs inside it follow paths. -/
theorem follows_rule {s : Setting} (hnamed : s.registry.Named) (frames : Nat)
    (hrun : Runs s.registry run) {α : Type} {job : Job α} (hjob : job.Known m)
    (hmay : job.Allowed may) :
    Follows s.registry may m (job.rule s frames run) fun a m' => job.Gives m' a := by
  cases job with
  | stmt st scope => exact follows_stmtRule hrun rfl hjob hmay
  | body stmts scope => exact follows_bodyRule hrun hjob hmay stmts
  | expr e scope => exact follows_exprRule hrun s hjob e
  | args es scope => exact follows_argsRule hrun hjob es
  | object e scope => exact follows_instanceRule hrun hjob e
  | logic op left right scope => exact follows_logicRule hrun hjob ..
  | structLit pos type fields scope => exact follows_structLitRule hrun rfl hnamed hjob ..
  | macroCall pos name args scope => exact follows_macroRule hrun s frames hjob ..
  | apply callee args pos =>
    refine .of_fair fun hm => hrun (.enter (.ofCallee callee) args pos) ⟨?_, hjob.2⟩ trivial
    cases callee with
    | closure f => exact ⟨hjob.1, nofun⟩
    | method method receiver => exact ⟨hm.root, hjob.1⟩
  | enter entry args pos => exact follows_enterRule hrun rfl hjob.1 hjob.2 pos

/-- Every job follows a path of changes, however many jobs may be under way. -/
theorem follows_eval {s : Setting} (hnamed : s.registry.Named) (frames : Nat) :
    Runs s.registry (eval s frames) := by
  induction frames with
  | zero => exact fun job _ _ _ _ => .throw trivial
  | succ frames ih => exact fun job _ _ hjob hmay => follows_rule hnamed frames ih hjob hmay

end Evaluation

end Rustlet
