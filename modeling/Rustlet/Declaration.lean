import Rustlet.Registry

/-! Structs and methods count wherever a statement can stand: at the top, in the bodies of functions
and methods, and in the bodies of choices, loops and blocks that are statements themselves. -/
namespace Rustlet

/-- What a script declares for the registry. -/
inductive Declaration
  | struct (s : StructDef)
  | method (m : MethodDef)

mutual

/-- The declarations in a statement, in order. -/
def Stmt.declarations : Stmt → List Declaration
  | .structDecl d => [.struct (.ofDecl d)]
  | .implBlock b => b.declarations
  | .fnDecl d => d.declarations
  | .conditional c => c.declarations
  | .whileLoop _ _ body => bodyDeclarations body
  | .block _ body => bodyDeclarations body
  | .letIn .. | .assign .. | .expr .. | .ret .. => []

/-- The declarations in a list of statements, in order. -/
def bodyDeclarations : List Stmt → List Declaration
  | [] => []
  | s :: rest => s.declarations ++ bodyDeclarations rest

/-- The declarations in a function, which is not one itself. -/
def FnDecl.declarations : FnDecl → List Declaration
  | ⟨_, _, _, _, _, body⟩ => bodyDeclarations body

/-- The declarations in a choice. -/
def Conditional.declarations : Conditional → List Declaration
  | ⟨_, _, thenBody, none⟩ => bodyDeclarations thenBody
  | ⟨_, _, thenBody, some elseBody⟩ => bodyDeclarations thenBody ++ bodyDeclarations elseBody

/-- Methods, each with the declarations in it after it. -/
def ImplBlock.declarations : ImplBlock → List Declaration
  | ⟨_, type, methods⟩ => methodDeclarations type methods

/-- Methods of a struct, each with the declarations in it after it. -/
def methodDeclarations (owner : String) : List FnDecl → List Declaration
  | [] => []
  | m :: rest => .method (.ofDecl owner m) :: m.declarations ++ methodDeclarations owner rest

end

/-- Enters a declaration. -/
def Registry.add (r : Registry) : Declaration → Except RuntimeError Registry
  | .struct s => r.addStruct s
  | .method m => r.addMethod m

end Rustlet
