import Rustlet.Session

/-! Which declarations of a script are entered. -/
namespace Rustlet

mutual

/-- All declarations in an expression. They stand in the bodies of its choices. -/
def Expr.allDeclarations : Expr → List Declaration
  | .number .. | .text .. | .bool .. | .name .. => []
  | .unary _ _ operand => operand.allDeclarations
  | .binary _ left right => left.allDeclarations ++ right.allDeclarations
  | .logic _ left right => left.allDeclarations ++ right.allDeclarations
  | .field _ object _ => object.allDeclarations
  | .call _ callee args => callee.allDeclarations ++ exprsAllDeclarations args
  | .pathCall _ _ _ args => exprsAllDeclarations args
  | .methodCall _ receiver _ args => receiver.allDeclarations ++ exprsAllDeclarations args
  | .macroCall _ _ args => exprsAllDeclarations args
  | .structLit _ _ fields => initsAllDeclarations fields
  | .conditional c => c.allDeclarations

/-- All declarations in expressions. -/
def exprsAllDeclarations : List Expr → List Declaration
  | [] => []
  | e :: rest => e.allDeclarations ++ exprsAllDeclarations rest

/-- All declarations in an expression that may be missing. -/
def exprAllDeclarations? : Option Expr → List Declaration
  | none => []
  | some e => e.allDeclarations

/-- All declarations in a field of a struct literal. -/
def FieldInit.allDeclarations : FieldInit → List Declaration
  | ⟨_, _, value⟩ => value.allDeclarations

/-- All declarations in fields of a struct literal. -/
def initsAllDeclarations : List FieldInit → List Declaration
  | [] => []
  | f :: rest => f.allDeclarations ++ initsAllDeclarations rest

/-- All declarations in a choice, its condition included. -/
def Conditional.allDeclarations : Conditional → List Declaration
  | ⟨_, condition, thenBody, elseBody⟩ =>
    condition.allDeclarations ++ bodyAllDeclarations thenBody ++ bodyAllDeclarations? elseBody

/-- All declarations in a target of an assignment. -/
def Place.allDeclarations : Place → List Declaration
  | .name .. => []
  | .field _ object _ => object.allDeclarations

/-- All declarations in a function, which is not one itself. -/
def FnDecl.allDeclarations : FnDecl → List Declaration
  | ⟨_, _, _, _, _, body⟩ => bodyAllDeclarations body

/-- All methods of a struct, each with the declarations in it after it. -/
def methodsAllDeclarations (owner : String) : List FnDecl → List Declaration
  | [] => []
  | m :: rest =>
    .method (.ofDecl owner m) :: m.allDeclarations ++ methodsAllDeclarations owner rest

/-- All methods, each with the declarations in it after it. -/
def ImplBlock.allDeclarations : ImplBlock → List Declaration
  | ⟨_, type, methods⟩ => methodsAllDeclarations type methods

/-- All declarations in a statement. -/
def Stmt.allDeclarations : Stmt → List Declaration
  | .letIn _ _ _ value => value.allDeclarations
  | .assign _ target value => target.allDeclarations ++ value.allDeclarations
  | .expr _ value _ => value.allDeclarations
  | .conditional c => c.allDeclarations
  | .whileLoop _ condition body => condition.allDeclarations ++ bodyAllDeclarations body
  | .block _ body => bodyAllDeclarations body
  | .ret _ value => exprAllDeclarations? value
  | .structDecl d => [.struct (.ofDecl d)]
  | .implBlock b => b.allDeclarations
  | .fnDecl d => d.allDeclarations

/-- All declarations in statements. -/
def bodyAllDeclarations : List Stmt → List Declaration
  | [] => []
  | s :: rest => s.allDeclarations ++ bodyAllDeclarations rest

/-- All declarations in statements that may be missing. -/
def bodyAllDeclarations? : Option (List Stmt) → List Declaration
  | none => []
  | some body => bodyAllDeclarations body

end

mutual

/-- The declarations in the expressions of a statement. -/
def Stmt.hiddenDeclarations : Stmt → List Declaration
  | .letIn _ _ _ value => value.allDeclarations
  | .assign _ target value => target.allDeclarations ++ value.allDeclarations
  | .expr _ value _ => value.allDeclarations
  | .conditional c => c.hiddenDeclarations
  | .whileLoop _ condition body => condition.allDeclarations ++ bodyHiddenDeclarations body
  | .block _ body => bodyHiddenDeclarations body
  | .ret _ value => exprAllDeclarations? value
  | .structDecl _ => []
  | .implBlock b => b.hiddenDeclarations
  | .fnDecl d => d.hiddenDeclarations

/-- The declarations in the expressions of statements. -/
def bodyHiddenDeclarations : List Stmt → List Declaration
  | [] => []
  | s :: rest => s.hiddenDeclarations ++ bodyHiddenDeclarations rest

/-- The declarations in the expressions of statements that may be missing. -/
def bodyHiddenDeclarations? : Option (List Stmt) → List Declaration
  | none => []
  | some body => bodyHiddenDeclarations body

/-- The declarations in the expressions of a choice that is a statement. -/
def Conditional.hiddenDeclarations : Conditional → List Declaration
  | ⟨_, condition, thenBody, elseBody⟩ =>
    condition.allDeclarations ++ bodyHiddenDeclarations thenBody ++ bodyHiddenDeclarations? elseBody

/-- The declarations in the expressions of a function. -/
def FnDecl.hiddenDeclarations : FnDecl → List Declaration
  | ⟨_, _, _, _, _, body⟩ => bodyHiddenDeclarations body

/-- The declarations in the expressions of methods. -/
def methodsHiddenDeclarations : List FnDecl → List Declaration
  | [] => []
  | m :: rest => m.hiddenDeclarations ++ methodsHiddenDeclarations rest

/-- The declarations in the expressions of methods. -/
def ImplBlock.hiddenDeclarations : ImplBlock → List Declaration
  | ⟨_, _, methods⟩ => methodsHiddenDeclarations methods

end

mutual

/-- A declaration in a statement is entered or stands in one of its expressions. -/
theorem Stmt.mem_allDeclarations (d : Declaration) (s : Stmt) :
    d ∈ s.allDeclarations ↔ d ∈ s.declarations ∨ d ∈ s.hiddenDeclarations := by
  cases s with
  | letIn pos name type value =>
    simp [Stmt.allDeclarations, Stmt.declarations, Stmt.hiddenDeclarations]
  | assign pos target value =>
    simp [Stmt.allDeclarations, Stmt.declarations, Stmt.hiddenDeclarations]
  | expr pos value terminated =>
    simp [Stmt.allDeclarations, Stmt.declarations, Stmt.hiddenDeclarations]
  | conditional c => exact c.mem_allDeclarations d
  | whileLoop pos condition body =>
    have ih := mem_bodyAllDeclarations d body
    simp only [Stmt.allDeclarations, Stmt.declarations, Stmt.hiddenDeclarations, List.mem_append]
    grind
  | block pos body => exact mem_bodyAllDeclarations d body
  | ret pos value => simp [Stmt.allDeclarations, Stmt.declarations, Stmt.hiddenDeclarations]
  | structDecl decl => simp [Stmt.allDeclarations, Stmt.declarations, Stmt.hiddenDeclarations]
  | implBlock b => exact b.mem_allDeclarations d
  | fnDecl decl => exact decl.mem_allDeclarations d

theorem mem_bodyAllDeclarations (d : Declaration) (body : List Stmt) :
    d ∈ bodyAllDeclarations body ↔ d ∈ bodyDeclarations body ∨ d ∈ bodyHiddenDeclarations body := by
  cases body with
  | nil => simp [bodyAllDeclarations, bodyDeclarations, bodyHiddenDeclarations]
  | cons s rest =>
    have ih := s.mem_allDeclarations d
    have ihr := mem_bodyAllDeclarations d rest
    simp only [bodyAllDeclarations, bodyDeclarations, bodyHiddenDeclarations, List.mem_append]
    grind

theorem Conditional.mem_allDeclarations (d : Declaration) (c : Conditional) :
    d ∈ c.allDeclarations ↔ d ∈ c.declarations ∨ d ∈ c.hiddenDeclarations := by
  obtain ⟨pos, condition, thenBody, elseBody⟩ := c
  have ih := mem_bodyAllDeclarations d thenBody
  cases elseBody with
  | none =>
    simp only [Conditional.allDeclarations, Conditional.declarations,
      Conditional.hiddenDeclarations, bodyAllDeclarations?, bodyHiddenDeclarations?,
      List.mem_append]
    grind
  | some elseBody =>
    have ihe := mem_bodyAllDeclarations d elseBody
    simp only [Conditional.allDeclarations, Conditional.declarations,
      Conditional.hiddenDeclarations, bodyAllDeclarations?, bodyHiddenDeclarations?,
      List.mem_append]
    grind

theorem FnDecl.mem_allDeclarations (d : Declaration) (decl : FnDecl) :
    d ∈ decl.allDeclarations ↔ d ∈ decl.declarations ∨ d ∈ decl.hiddenDeclarations := by
  obtain ⟨pos, name, receiver, params, ret, body⟩ := decl
  exact mem_bodyAllDeclarations d body

theorem mem_methodsAllDeclarations (d : Declaration) (owner : String) (methods : List FnDecl) :
    d ∈ methodsAllDeclarations owner methods ↔
      d ∈ methodDeclarations owner methods ∨ d ∈ methodsHiddenDeclarations methods := by
  cases methods with
  | nil => simp [methodsAllDeclarations, methodDeclarations, methodsHiddenDeclarations]
  | cons m rest =>
    have ih := m.mem_allDeclarations d
    have ihr := mem_methodsAllDeclarations d owner rest
    simp only [methodsAllDeclarations, methodDeclarations, methodsHiddenDeclarations,
      List.mem_append, List.mem_cons]
    grind

theorem ImplBlock.mem_allDeclarations (d : Declaration) (b : ImplBlock) :
    d ∈ b.allDeclarations ↔ d ∈ b.declarations ∨ d ∈ b.hiddenDeclarations := by
  obtain ⟨pos, type, methods⟩ := b
  exact mem_methodsAllDeclarations d type methods

end

/-- The name of a declared struct. -/
def Declaration.structName? : Declaration → Option String
  | .struct s => some s.name
  | .method _ => none

/-- The names of a declared method and its struct. -/
def Declaration.methodName? : Declaration → Option (String × String)
  | .struct _ => none
  | .method m => some (m.owner, m.decl.name)

/-- The names of the structs among declarations. -/
def structNames (ds : List Declaration) : List String := ds.filterMap Declaration.structName?

/-- The names of the methods among declarations, each with that of its struct. -/
def methodNames (ds : List Declaration) : List (String × String) :=
  ds.filterMap Declaration.methodName?

theorem Registry.addStruct_names {r r' : Registry} {d : StructDef} (h : r.addStruct d = .ok r') :
    r'.structs.names = r.structs.names ++ [d.name] ∧ r'.methods = r.methods := by
  unfold Registry.addStruct at h
  split at h
  · cases h
  · split at h
    · cases h
    · rename_i hnew
      cases h
      refine ⟨?_, rfl⟩
      rw [Table.names_insert, if_neg]
      rwa [← Table.contains_iff_mem_names]

theorem Registry.methodsOf_insert (r : Registry) (owner o : String) (t : Table MethodDef) :
    methodsOf { r with methods := r.methods.insert owner t } o =
      if owner = o then t else r.methodsOf o := by
  simp only [Registry.methodsOf, Table.get?_insert]
  split <;> rfl

theorem Registry.addMethod_names {r r' : Registry} {m : MethodDef} (h : r.addMethod m = .ok r') :
    r'.structs = r.structs ∧
      ∀ owner name, (r'.methodsOf owner).contains name = true ↔
        (r.methodsOf owner).contains name = true ∨ (owner, name) = (m.owner, m.decl.name) := by
  unfold Registry.addMethod at h
  split at h
  · cases h
  · split at h
    · cases h
    · cases h
      refine ⟨rfl, fun owner name => ?_⟩
      rw [Registry.methodsOf_insert]
      by_cases ho : m.owner = owner
      · subst ho
        rw [if_pos rfl, Table.contains_insert]
        grind
      · simp [ho, Ne.symm ho]

/-- What is entered when all of some declarations are accepted. -/
theorem Session.declare_names {s s' : Session} {ds : List Declaration}
    (h : s.declare ds = (s', none)) :
    s'.registry.structs.names = s.registry.structs.names ++ structNames ds ∧
      ∀ owner name, (s'.registry.methodsOf owner).contains name = true ↔
        (s.registry.methodsOf owner).contains name = true ∨ (owner, name) ∈ methodNames ds := by
  induction ds generalizing s with
  | nil =>
    obtain rfl : s = s' := congrArg Prod.fst h
    simp [structNames, methodNames]
  | cons d rest ih =>
    unfold Session.declare at h
    split at h
    · cases h
    · rename_i r hr
      obtain ⟨hs, hm⟩ := ih h
      cases d with
      | struct d =>
        obtain ⟨hnames, hmethods⟩ := Registry.addStruct_names hr
        have hof : ∀ owner, r.methodsOf owner = s.registry.methodsOf owner := by
          intro owner
          simp only [Registry.methodsOf, hmethods]
        refine ⟨?_, fun owner name => ?_⟩
        · rw [hs]
          simp [Session.note, hnames, structNames, Declaration.structName?]
        · rw [hm]
          simp [Session.note, hof, methodNames, Declaration.methodName?]
      | method m =>
        obtain ⟨hstructs, hnames⟩ := Registry.addMethod_names hr
        refine ⟨?_, fun owner name => ?_⟩
        · rw [hs]
          simp only [Session.note, hstructs, structNames, Declaration.structName?,
            List.filterMap_cons]
        · rw [hm]
          simp only [Session.note, hnames, methodNames, Declaration.methodName?,
            List.filterMap_cons, List.mem_cons, or_assoc]

theorem structNames_allDeclarations (items : List Stmt) (name : String) :
    name ∈ structNames (bodyAllDeclarations items) ↔
      name ∈ structNames (bodyDeclarations items) ∨
        name ∈ structNames (bodyHiddenDeclarations items) := by
  simp only [structNames, List.mem_filterMap, mem_bodyAllDeclarations, or_and_right, exists_or]

theorem methodNames_allDeclarations (items : List Stmt) (name : String × String) :
    name ∈ methodNames (bodyAllDeclarations items) ↔
      name ∈ methodNames (bodyDeclarations items) ∨
        name ∈ methodNames (bodyHiddenDeclarations items) := by
  simp only [methodNames, List.mem_filterMap, mem_bodyAllDeclarations, or_and_right, exists_or]

/-- If a fresh session accepts the declarations of a script, it has exactly the structs and methods
that stand outside of expressions. These are all the structs and methods of the script just if those
in the bodies of choices that are expressions have no names of their own. -/
theorem Session.declare_complete_iff (strictMoves continueOnError : Bool) (limits : Limits)
    (items : List Stmt) (s : Session)
    (h : (Session.start strictMoves continueOnError limits).declare (bodyDeclarations items) =
      (s, none)) :
    s.registry.structs.names = structNames (bodyDeclarations items) ∧
      (∀ owner name, (s.registry.methodsOf owner).contains name = true ↔
        (owner, name) ∈ methodNames (bodyDeclarations items)) ∧
      ((∀ name, name ∈ s.registry.structs.names ↔
            name ∈ structNames (bodyAllDeclarations items)) ∧
          (∀ owner name, (s.registry.methodsOf owner).contains name = true ↔
            (owner, name) ∈ methodNames (bodyAllDeclarations items)) ↔
        structNames (bodyHiddenDeclarations items) ⊆ structNames (bodyDeclarations items) ∧
          methodNames (bodyHiddenDeclarations items) ⊆ methodNames (bodyDeclarations items)) := by
  obtain ⟨hs, hm⟩ := Session.declare_names h
  have hstructs : s.registry.structs.names = structNames (bodyDeclarations items) := hs
  have hmethods : ∀ owner name, (s.registry.methodsOf owner).contains name = true ↔
      (owner, name) ∈ methodNames (bodyDeclarations items) := by
    intro owner name
    rw [hm]
    simp [Session.start, Registry.empty, Registry.methodsOf, Table.contains]
  refine ⟨hstructs, hmethods, ?_⟩
  simp only [hstructs, hmethods, structNames_allDeclarations, methodNames_allDeclarations]
  constructor
  · rintro ⟨hs, hm⟩
    exact ⟨fun name hn => (hs name).2 (.inr hn), fun pair hn => (hm pair.1 pair.2).2 (.inr hn)⟩
  · rintro ⟨hs, hm⟩
    exact ⟨fun name => ⟨.inl, fun hn => hn.elim id fun hn => hs hn⟩,
      fun owner name => ⟨.inl, fun hn => hn.elim id fun hn => hm hn⟩⟩

/-- A struct and a method inside a function are entered, and a choice that is an expression and
holds no declarations of its own does no harm. -/
theorem Session.declare_complete_iff_in_function :
    let empty : List Stmt := []
    let method : FnDecl := ⟨.start, "get", some .shared, [], .unit, empty⟩
    let outer : FnDecl := ⟨.start, "f", none, [], .unit,
      [.structDecl ⟨.start, "A", []⟩, .implBlock ⟨.start, "A", [method]⟩]⟩
    let items : List Stmt := [.fnDecl outer,
      .letIn .start "x" none (.conditional ⟨.start, .bool .start true, empty, some empty⟩)]
    ∃ s : Session,
      (Session.start false true .default).declare (bodyDeclarations items) = (s, none) ∧
      (∀ name, name ∈ s.registry.structs.names ↔
        name ∈ structNames (bodyAllDeclarations items)) ∧
      (∀ owner name, (s.registry.methodsOf owner).contains name = true ↔
        (owner, name) ∈ methodNames (bodyAllDeclarations items)) := by
  intro empty method outer items
  refine ⟨_, rfl, ?_⟩
  refine (declare_complete_iff false true .default items _ rfl).2.2.2 ?_
  exact ⟨List.nil_subset _, List.nil_subset _⟩

/-- A struct in a body of a choice that is the value of a binding is not entered. -/
theorem Session.declare_misses_choice :
    let empty : List Stmt := []
    let items : List Stmt := [.letIn .start "x" none (.conditional
      ⟨.start, .bool .start true, [.structDecl ⟨.start, "A", []⟩], some empty⟩)]
    ∃ s : Session,
      (Session.start false true .default).declare (bodyDeclarations items) = (s, none) ∧
      "A" ∈ structNames (bodyAllDeclarations items) ∧ "A" ∉ s.registry.structs.names :=
  ⟨_, rfl, by decide, by decide⟩

end Rustlet
