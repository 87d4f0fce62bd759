import Rustlet.Evaluation
import Rustlet.Proofs.Proper.Rules

/-! Bodies that end in a semicolon. -/
namespace Rustlet

mutual

/-- Whether a statement gives no value, whatever happens in it. -/
def Stmt.isSilent : Stmt → Bool
  | .expr _ _ terminated => terminated
  | .conditional c => c.isSilent
  | .block _ body => bodySilent body
  | .letIn .. | .assign .. | .whileLoop .. | .ret .. => true
  | .structDecl _ | .implBlock _ | .fnDecl _ => true

/-- Whether neither body of a choice gives a value. -/
def Conditional.isSilent : Conditional → Bool
  | ⟨_, _, thenBody, none⟩ => bodySilent thenBody
  | ⟨_, _, thenBody, some elseBody⟩ => bodySilent thenBody && bodySilent elseBody

/-- Whether the last statement of a body gives no value. -/
def bodySilent : List Stmt → Bool
  | [] => true
  | [s] => s.isSilent
  | _ :: s :: rest => bodySilent (s :: rest)

end

/-- Whether a statement is a choice or a block, whose value is that of a body in it. -/
def Stmt.holdsBody : Stmt → Bool
  | .conditional _ | .block .. => true
  | _ => false

theorem bodySilent_iff (body : List Stmt) :
    bodySilent body = true ↔ ∀ s ∈ body.getLast?, s.isSilent = true := by
  induction body with
  | nil => simp [bodySilent]
  | cons s rest ih =>
    cases rest with
    | nil => simp [bodySilent]
    | cons t rest => simpa [bodySilent] using ih

/-- Only an expression without a semicolon gives a value of its own. -/
theorem Stmt.isSilent_of_not_open {s : Stmt} (hopen : s.isOpen = false)
    (hbody : s.holdsBody = true → s.isSilent = true) : s.isSilent = true := by
  cases s with
  | expr pos e terminated => simpa [Stmt.isOpen, Stmt.isSilent] using hopen
  | conditional c => exact hbody rfl
  | block pos body => exact hbody rfl
  | _ => rfl

namespace Grammar

open Parse

/-- If a semicolon stands before the brace that ends a block, the last statement is not open. -/
theorem block_last_not_open {depth : Nat} {c c' : Cursor} {body : List Stmt} {taken : List Token}
    {p q : Pos} (h : parse depth .block c = .ok (body, c'))
    (hend : c.rest = taken ++ ⟨.symbol .semicolon, p⟩ :: ⟨.symbol .closeBrace, q⟩ :: c'.rest) :
    ∀ s ∈ body.getLast?, s.isOpen = false := by
  have hnames : ∀ d : Cursor, d.Names fun _ => True := fun _ _ _ _ _ => trivial
  cases depth with
  | zero => cases h
  | succ depth =>
    obtain ⟨_, c₁, hopen, h⟩ := bind_eq_ok h
    obtain ⟨body, c₂, hbody, h⟩ := bind_eq_ok h
    obtain ⟨_, c₃, hclose, h⟩ := bind_eq_ok h
    cases h
    obtain ⟨hfirst, -, hopen⟩ := (takes_symbol _ c (hnames c)).result hopen
    obtain ⟨hlater, hread⟩ :=
      (takes_bodyMany (takes_blockRound (takes_parse depth)) c₁ (hnames c₁)).result hbody
    obtain ⟨hbrace, rfl⟩ := expect_eq_ok hclose
    obtain ⟨last, hlast, -⟩ := Cursor.rest_of_lexeme hbrace
    have hsame : c₂.rest = ⟨.symbol .closeBrace, q⟩ :: c₂.advance.rest := by
      have hbrace : ⟨.symbol .closeBrace, q⟩ :: c₂.advance.rest <:+ c.rest :=
        ⟨taken ++ [⟨.symbol .semicolon, p⟩], by rw [hend, List.append_assoc]; rfl⟩
      refine (List.suffix_of_suffix_length_le (hlater.trans hfirst) hbrace ?_).eq_of_length ?_
      · rw [hlast, List.length_cons, List.length_cons]
      · rw [hlast, List.length_cons, List.length_cons]
    have hsemicolon : Cursor.EndsIn (· = .symbol .semicolon) c c₂ :=
      ⟨⟨.symbol .semicolon, p⟩, ⟨taken, by rw [hend, hsame]⟩, rfl⟩
    refine hread.last (hsemicolon.later hfirst hlater fun heq => ?_)
    -- The body is not empty, or the semicolon would be the opening brace.
    obtain ⟨l, hl, hbrace⟩ := (hsemicolon.congr heq).unique hopen
    cases hl.symm.trans hbrace

end Grammar

namespace Eval

variable {α β : Type} {P : α → Prop} {Q : β → Prop}

/-- Whatever a step gives has a property. -/
structure Gives (x : Eval α) (P : α → Prop) : Prop where
  result : ∀ m a m', x m = .ok a m' → P a

theorem bind_eq_ok {x : Eval α} {f : α → Eval β} {m m'' : Machine} {b : β}
    (h : (x >>= f) m = .ok b m'') : ∃ a m', x m = .ok a m' ∧ f a m' = .ok b m'' := by
  change EStateM.bind x f m = _ at h
  unfold EStateM.bind at h
  cases hx : x m with
  | ok a m' =>
    rw [hx] at h
    exact ⟨a, m', rfl, h⟩
  | error e m' =>
    rw [hx] at h
    cases h

namespace Gives

protected theorem pure {a : α} (h : P a) : Gives (pure a) P := by
  refine ⟨fun m b m' hb => ?_⟩
  cases hb
  exact h

protected theorem throw (e : Stop) : Gives (throw e : Eval α) P := ⟨fun _ _ _ h => by cases h⟩

protected theorem bind {x : Eval α} {f : α → Eval β} (hx : Gives x P)
    (hf : ∀ a, P a → Gives (f a) Q) : Gives (x >>= f) Q := by
  refine ⟨fun m b m' hb => ?_⟩
  obtain ⟨a, m₁, ha, hb⟩ := bind_eq_ok hb
  exact (hf a (hx.result m a m₁ ha)).result m₁ b m' hb

/-- What the first of two steps gives does not matter. -/
theorem skip {x : Eval α} {f : α → Eval β} (hf : ∀ a, Gives (f a) Q) : Gives (x >>= f) Q := by
  refine ⟨fun m b m' hb => ?_⟩
  obtain ⟨a, m₁, -, hb⟩ := bind_eq_ok hb
  exact (hf a).result m₁ b m' hb

end Gives

end Eval

namespace Evaluation

open Eval

/-- Only the unit value is given. -/
def GivesUnit (x : Eval Value) : Prop := Gives x (· = .unit)

section Rules

variable {s : Setting} {run : Runner}

variable (hstmt : ∀ st scope, st.isSilent = true → GivesUnit (run (.stmt st scope)))
  (hbody : ∀ body scope, bodySilent body = true → GivesUnit (run (.body body scope)))

include hbody in
theorem nested_givesUnit {body : List Stmt} (scope : ScopeId) (h : bodySilent body = true) :
    GivesUnit (nested run body scope) :=
  .skip fun inner => hbody body inner h

include hstmt in
theorem sequence_givesUnit (scope : ScopeId) {v : Value} {body : List Stmt}
    (hv : body = [] → v = .unit) (h : bodySilent body = true) :
    GivesUnit (sequence run scope v body) := by
  induction body generalizing v with
  | nil => exact .pure (hv rfl)
  | cons st rest ih =>
    cases rest with
    | nil => exact (hstmt st scope h).bind fun _ hunit => .pure hunit
    | cons st' rest => exact .skip fun _ => ih nofun h

theorem whileRule_givesUnit (condition : Expr) (body : List Stmt) (scope : ScopeId)
    (rounds : Nat) : GivesUnit (whileRule run condition body scope rounds) := by
  induction rounds with
  | zero => exact .throw _
  | succ rounds ih =>
    refine .skip fun v => ?_
    split
    · exact .skip fun _ => ih
    · exact .pure rfl
    · exact .skip fun _ => .throw _

include hbody in
theorem conditionalRule_givesUnit {c : Conditional} (scope : ScopeId) (h : c.isSilent = true) :
    GivesUnit (conditionalRule run c scope) := by
  obtain ⟨pos, condition, thenBody, elseBody⟩ := c
  refine .skip fun v => ?_
  split
  · refine nested_givesUnit hbody scope ?_
    cases elseBody with
    | none => exact h
    | some elseBody => exact (Bool.and_eq_true_iff.1 h).1
  · cases elseBody with
    | none => exact .pure rfl
    | some elseBody => exact nested_givesUnit hbody scope (Bool.and_eq_true_iff.1 h).2
  · exact .skip fun _ => .throw _

theorem assignRule_givesUnit (target : Place) (value : Expr) (scope : ScopeId) :
    GivesUnit (assignRule s run target value scope) := by
  refine .skip fun v => ?_
  cases target with
  | name pos name => exact .skip fun _ => .pure rfl
  | field pos object field =>
    refine .skip fun id => .skip fun i => .skip fun struct => ?_
    split
    · exact .skip fun _ => .pure rfl
    · exact .throw _

theorem letRule_givesUnit (name : String) (value : Expr) (scope : ScopeId) :
    GivesUnit (letRule run name value scope) := by
  refine .skip fun v => ?_
  split
  · exact .skip fun _ => .skip fun _ => .skip fun _ => .pure rfl
  · exact .skip fun _ => .pure rfl

theorem returnRule_givesUnit (pos : Pos) (value : Option Expr) (scope : ScopeId) :
    GivesUnit (returnRule run pos value scope) := by
  refine .skip fun m => ?_
  split
  · exact .throw _
  · cases value with
    | some e => exact .skip fun _ => .throw _
    | none => exact .throw _

include hbody in
theorem stmtRule_givesUnit {st : Stmt} (scope : ScopeId) (h : st.isSilent = true) :
    GivesUnit (stmtRule s run scope st) := by
  cases st with
  | letIn pos name type value => exact letRule_givesUnit ..
  | assign pos target value => exact assignRule_givesUnit ..
  | expr pos e terminated =>
    obtain rfl : terminated = true := h
    exact .skip fun _ => .pure rfl
  | conditional c => exact conditionalRule_givesUnit hbody scope h
  | whileLoop pos condition body => exact whileRule_givesUnit ..
  | block pos body => exact nested_givesUnit hbody scope h
  | ret pos value => exact returnRule_givesUnit ..
  | structDecl d => exact .pure rfl
  | implBlock b => exact .pure rfl
  | fnDecl d => exact .pure rfl

end Rules

/-- A body whose last statement gives no value gives none, and neither does such a statement. -/
theorem eval_silent (s : Setting) (frames : Nat) :
    (∀ st scope, st.isSilent = true → GivesUnit (eval s frames (.stmt st scope))) ∧
      ∀ body scope, bodySilent body = true → GivesUnit (eval s frames (.body body scope)) := by
  induction frames with
  | zero => exact ⟨fun _ _ _ => .throw _, fun _ _ _ => .throw _⟩
  | succ frames ih =>
    refine ⟨fun st scope h => stmtRule_givesUnit ih.2 scope h, fun body scope h => ?_⟩
    exact .skip fun _ => sequence_givesUnit ih.1 scope (fun _ => rfl) h

/-- A body that ends in a semicolon gives no value if its last statement gives none where that is a
choice or a block. -/
theorem eval_body_of_semicolon {depth frames : Nat} {c c' : Cursor} {body : List Stmt}
    {taken : List Token} {p q : Pos} {s : Setting} {scope : ScopeId} {m m' : Machine} {v : Value}
    (hread : Grammar.parse depth .block c = .ok (body, c'))
    (hend : c.rest = taken ++ ⟨.symbol .semicolon, p⟩ :: ⟨.symbol .closeBrace, q⟩ :: c'.rest)
    (hlast : ∀ st ∈ body.getLast?, st.holdsBody = true → st.isSilent = true)
    (hv : eval s frames (.body body scope) m = .ok v m') : v = .unit := by
  have hsilent : bodySilent body = true := by
    refine (bodySilent_iff body).2 fun st hst => Stmt.isSilent_of_not_open ?_ (hlast st hst)
    exact Grammar.block_last_not_open hread hend st hst
  exact ((eval_silent s frames).2 body scope hsilent).result m v m' hv

/-- A choice between bodies that end in semicolons gives no value, with a semicolon after it too. -/
theorem eval_body_of_semicolon_choice :
    let between : List Lexeme := [.keyword .ifKw, .keyword .trueKw, .symbol .openBrace, .text "x",
      .symbol .semicolon, .symbol .closeBrace]
    let taken : List Token := (.symbol .openBrace :: between).map (⟨·, .start⟩)
    let tokens : List Token :=
      taken ++ [⟨.symbol .semicolon, .start⟩, ⟨.symbol .closeBrace, .start⟩]
    let s : Setting := ⟨false, .empty, .empty, 10⟩
    ∃ body v m, Grammar.parse 20 .block ⟨tokens, .start⟩ = .ok (body, ⟨[], .start⟩) ∧
      (∀ st ∈ body.getLast?, st.holdsBody = true → st.isSilent = true) ∧
      eval s 10 (.body body ScopeTree.global) .start = .ok v m ∧ v = .unit := by
  intro between taken tokens s
  let body : List Stmt := [.conditional ⟨.start, .bool .start true,
    [.expr .start (.text .start "x") true], none⟩]
  have hread : Grammar.parse 20 .block ⟨tokens, .start⟩ = .ok (body, ⟨[], .start⟩) := rfl
  have hend : (⟨tokens, .start⟩ : Cursor).rest =
      taken ++ ⟨.symbol .semicolon, .start⟩ :: ⟨.symbol .closeBrace, .start⟩ :: [] := rfl
  have hlast : ∀ st ∈ body.getLast?, st.holdsBody = true → st.isSilent = true := by
    rintro _ ⟨⟩ -
    rfl
  have hv : eval s 10 (.body body ScopeTree.global) .start = .ok .unit _ := rfl
  exact ⟨body, .unit, _, hread, hlast, hv, eval_body_of_semicolon hread hend hlast hv⟩

/-- A semicolon after a choice stands alone: the body has the value that the choice has. -/
theorem eval_body_value_of_semicolon :
    let between : List Lexeme := [.keyword .ifKw, .keyword .trueKw, .symbol .openBrace, .text "x",
      .symbol .closeBrace]
    let taken : List Token := (.symbol .openBrace :: between).map (⟨·, .start⟩)
    let tokens : List Token :=
      taken ++ [⟨.symbol .semicolon, .start⟩, ⟨.symbol .closeBrace, .start⟩]
    let s : Setting := ⟨false, .empty, .empty, 10⟩
    ∃ body m, Grammar.parse 20 .block ⟨tokens, .start⟩ = .ok (body, ⟨[], .start⟩) ∧
      eval s 10 (.body body ScopeTree.global) .start = .ok (.text "x") m := by
  intro between taken tokens s
  exact ⟨_, _, rfl, rfl⟩

end Evaluation

end Rustlet
