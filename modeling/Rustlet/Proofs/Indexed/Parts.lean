import Rustlet.Proofs.Indexed.Tracking

/-! A construct reads its parts at a later index or, where it starts itself, at a lower rank. -/
namespace Rustlet

namespace Indexed

open Grammar (Goal Reader)

namespace Construct

variable {α : Type}

/-- The goal that says whether struct literals are allowed. -/
def goal (literals : Bool) : {α : Type} → Construct α → Goal α
  | _, .program => .program
  | _, .stmt => .stmt
  | _, .block => .block
  | _, .decl => .decl
  | _, .structDecl => .structDecl
  | _, .implBlock => .implBlock
  | _, .fnDecl => .fnDecl
  | _, .receiver => .receiver
  | _, .param => .param
  | _, .type => .type
  | _, .letStmt => .letStmt
  | _, .conditional => .conditional
  | _, .whileStmt => .whileStmt
  | _, .returnStmt => .returnStmt
  | _, .exprStmt => .exprStmt
  | _, .expr => .expr literals
  | _, .disjunction => .disjunction literals
  | _, .conjunction => .conjunction literals
  | _, .comparison => .comparison literals
  | _, .sum => .sum literals
  | _, .product => .product literals
  | _, .unary => .unary literals
  | _, .postfixed => .postfixed literals
  | _, .primary => .primary literals
  | _, .args => .args
  | _, .structLit t => .structLit t

/-- A part that is read at the index where the construct starts has a lower rank. -/
def rank : {α : Type} → Construct α → Nat
  | _, .program => 13
  | _, .stmt => 12
  | _, .exprStmt => 11
  | _, .expr => 10
  | _, .disjunction => 9
  | _, .conjunction => 8
  | _, .comparison => 7
  | _, .sum => 6
  | _, .product => 5
  | _, .unary => 4
  | _, .postfixed => 3
  | _, .primary => 2
  | _, .decl => 2
  | _, _ => 1

/-- Whether the construct reads an expression in which struct literals are allowed if they are
allowed around it. Its goal does not say so, because it takes them to be allowed. -/
def inherits : {α : Type} → Construct α → Bool
  | _, .program | _, .stmt | _, .letStmt | _, .returnStmt | _, .exprStmt | _, .structLit _ => true
  | _, _ => false

/-- The least index at which the construct can end if it starts at an index: a script ends at the
end mark, a receiver may be missing, and everything else takes a token. -/
def reach (last j : Nat) : {α : Type} → Construct α → Nat
  | _, .program => last
  | _, .receiver => j
  | _, _ => j + 1

/-- Reading the goal of a construct takes for granted what holds in a state. -/
def Told (m : Construct α) (s : State) : Prop :=
  s.Plain ∧ (m.inherits = true → s.literals = true)

end Construct

/-- The parts of a construct of a given rank that starts at an index are read well. -/
def Parts {ι : Type} (s : State) (j r : Nat) (run : ι → Runner) (read : ι → Reader) : Prop :=
  ∀ (β : Type) (m : Construct β) (literals : Bool) (k : Nat), j < k ∨ j ≤ k ∧ m.rank < r →
    Tracks (m.Told (s.allow literals)) (s.allow literals) k
      (fun _ k' => m.reach s.tokens.length k ≤ k') (fun i => run i m)
      fun i => read i (m.goal literals)

variable {ι β : Type} {F : Prop} {s : State} {j k r : Nat} {run : ι → Runner} {read : ι → Reader}
  {n : ι → Nat}

namespace Parts

theorem allow (h : Parts s j r run read) (literals : Bool) :
    Parts (s.allow literals) j r run read :=
  fun _ m b k hk => h _ m b k hk

/-- A part whose goal takes nothing for granted. -/
theorem part (h : Parts s j r run read) (m : Construct β) (hs : F → s.Plain)
    (hm : m.inherits = false ∧ m.reach s.tokens.length k = k + 1)
    (hk : j < k ∨ j ≤ k ∧ m.rank < r) :
    Tracks F s k (Past k) (fun i => run i m) fun i => read i (m.goal s.literals) := by
  have htold : F → m.Told s := by
    refine fun hF => ⟨hs hF, fun hinherits => ?_⟩
    rw [hm.1] at hinherits
    cases hinherits
  refine ((h _ m s.literals k hk).mono fun a k' hk' => ?_).congr
    fun hF => ⟨htold hF, fun _ => rfl⟩
  rw [hm.2] at hk'
  exact hk'

/-- A part that needs struct literals to be allowed, in a construct that needs the same. -/
theorem inherited (h : Parts s j r run read) (m : Construct β)
    (hs : F → s.Plain ∧ s.literals = true) (hm : m.reach s.tokens.length k = k + 1)
    (hk : j < k ∨ j ≤ k ∧ m.rank < r) :
    Tracks F s k (Past k) (fun i => run i m) fun i => read i (m.goal true) := by
  refine ((h _ m s.literals k hk).mono fun a k' hk' => ?_).congr
    fun hF => ⟨⟨(hs hF).1, fun _ => (hs hF).2⟩, fun _ => ?_⟩
  · rw [hm] at hk'
    exact hk'
  · rw [(hs hF).2]

end Parts

/-- Rounds that are enough at an index are enough at a later one. -/
theorem rounds_left (hn : ∀ i, s.tokens.length - j < n i) (hk : j ≤ k) (i : ι) :
    s.tokens.length - k < n i := by
  have hi := hn i
  omega

end Indexed

end Rustlet
