import Rustlet.Proofs.Confinement.Rules
import Rustlet.Proofs.Traces

namespace Rustlet

namespace ScopeTree

variable {t : ScopeTree} {s p : ScopeId} {name : String} {b : Binding} {res : Option Binding}

theorem parent?_of_link? (h : t.link? s = some p) (hlt : p < s) : t.parent? s = some ⟨p, hlt⟩ := by
  unfold link? at h
  unfold parent?
  rw [h]
  exact dif_pos hlt

theorem parent?_of_outermost (h : t.link? s = none) : t.parent? s = none := by
  unfold link? at h
  unfold parent?
  rw [h]

theorem owner?_of_local? (h : t.local? s name = some b) : t.owner? s name = some s := by
  rw [owner?, h]
  rfl

theorem owner?_of_link? (h : t.local? s name = none) (hp : t.link? s = some p) (hlt : p < s) :
    t.owner? s name = t.owner? p name := by
  rw [owner?, h, parent?_of_link? hp hlt]
  rfl

theorem owner?_of_outermost (h : t.local? s name = none) (hp : t.link? s = none) :
    t.owner? s name = none := by
  rw [owner?, h, parent?_of_outermost hp]
  rfl

theorem find?_of_local? (h : t.local? s name = some b) : t.find? s name = some b := by
  rw [find?, owner?_of_local? h, Option.bind_some, h]

theorem find?_of_link? (h : t.local? s name = none) (hp : t.link? s = some p) (hlt : p < s) :
    t.find? s name = t.find? p name := by
  rw [find?, owner?_of_link? h hp hlt, find?]

theorem find?_of_outermost (h : t.local? s name = none) (hp : t.link? s = none) :
    t.find? s name = none := by
  rw [find?, owner?_of_outermost h hp, Option.bind_none]

/-- A search for a name that ends: it goes from a scope to the scope in which that was opened until
one of them binds the name or there is none further out. Nothing else keeps it from going on. -/
inductive Search (t : ScopeTree) (name : String) : ScopeId → Option Binding → Prop
  | here {s : ScopeId} {b : Binding} (h : t.local? s name = some b) : Search t name s (some b)
  | outward {s p : ScopeId} {res : Option Binding} (h : t.local? s name = none)
    (hp : t.link? s = some p) (hres : Search t name p res) : Search t name s res
  | missing {s : ScopeId} (h : t.local? s name = none) (hp : t.link? s = none) :
    Search t name s none

/-- Each scope was opened after its parent. -/
def Rising (t : ScopeTree) : Prop := ∀ s p, t.link? s = some p → p < s

/-- From each scope a search ends, with what the name means there. -/
theorem Rising.search (h : t.Rising) (s : ScopeId) (name : String) :
    t.Search name s (t.find? s name) := by
  induction s using Nat.strongRecOn with
  | ind s ih =>
    cases hlocal : t.local? s name with
    | some b =>
      rw [find?_of_local? hlocal]
      exact .here hlocal
    | none =>
      cases hp : t.link? s with
      | some p =>
        have hlt := h s p hp
        rw [find?_of_link? hlocal hp hlt]
        exact .outward hlocal hp (ih p hlt)
      | none =>
        rw [find?_of_outermost hlocal hp]
        exact .missing hlocal hp

/-- There is one result at most. -/
theorem Search.unique (h : t.Search name s res) {res' : Option Binding}
    (h' : t.Search name s res') : res' = res := by
  induction h with
  | here hb =>
    cases h' with
    | here hb' => rw [← hb, hb']
    | outward hnone _ _ => simp [hb] at hnone
    | missing hnone _ => simp [hb] at hnone
  | outward hnone hp _ ih =>
    cases h' with
    | here hb' => simp [hnone] at hb'
    | outward _ hp' hres' =>
      obtain rfl := Option.some.inj (hp.symm.trans hp')
      exact ih hres'
    | missing _ hp' => simp [hp] at hp'
  | missing hnone hp =>
    cases h' with
    | here hb' => simp [hnone] at hb'
    | outward _ hp' _ => simp [hp] at hp'
    | missing _ _ => rfl

theorem rising_root : root.Rising := by
  intro s p h
  cases s with
  | zero => cases h
  | succ s => cases h

theorem Rising.openIn (h : t.Rising) (hp : p < t.next) : (t.openIn p).Rising := by
  intro s q hq
  rw [link?_openIn] at hq
  split at hq
  · rename_i hs
    obtain rfl := Option.some.inj hq
    exact hs ▸ hp
  · exact h s q hq

theorem Rising.of_link? (h : t.Rising) {t' : ScopeTree} (hlink : ∀ s, t'.link? s = t.link? s) :
    t'.Rising := by
  intro s p hp
  exact h s p ((hlink s).symm.trans hp)

end ScopeTree

open Machine ScopeTree

theorem Machine.Change.rising {r : Registry} {may : ScopeId → String → Prop} {m m' : Machine}
    (h : Change r may m m') (hm : m.scopes.Rising) : m'.scopes.Rising := by
  cases h with
  | opened h => exact hm.openIn h
  | bound h hv => exact hm.of_link? (link?_define _ _ · _ _)
  | assigned hv => exact hm.of_link? (link?_update _ _ · _ _)
  | moved hb hid => exact hm.of_link? (link?_update _ _ · _ _)
  | _ => exact hm

theorem Machine.trace_rising {m m' : Machine} (h : Trace m m') (hm : m.scopes.Rising) :
    m'.scopes.Rising := by
  induction h with
  | refl => exact hm
  | tail _ hc ih =>
    obtain ⟨r, hc⟩ := hc
    exact hc.rising ih

namespace Evaluation

open Eval

/-- A `let` stops without having bound its name, or binding it is the last thing it does. -/
theorem letRule_scopes {base : ScopeId} {run : Runner} (hrun : Contains base run) (name : String)
    (value : Expr) (scope : ScopeId) {m : Machine} (hm : base ≤ m.scopes.next) :
    ∃ u, SameBelow base m.scopes u ∧
      ((∃ e m', letRule run name value scope m = .error e m' ∧ m'.scopes = u) ∨
        ∃ v m', letRule run name value scope m = .ok .unit m' ∧
          m'.scopes = u.define scope name v) := by
  have hvalue : SameBelow base m.scopes (endState (run (.expr value scope) m)).scopes :=
    (hrun (.expr value scope) trivial).run m hm
  cases h : run (.expr value scope) m with
  | error e m' =>
    rw [h] at hvalue
    exact ⟨m'.scopes, hvalue, .inl ⟨e, m', bind_of_error h, rfl⟩⟩
  | ok v m' =>
    rw [h] at hvalue
    rw [letRule, bind_of_ok h]
    split
    · exact ⟨_, hvalue.trans (sameBelow_update ..), .inr ⟨_, _, rfl, rfl⟩⟩
    · exact ⟨m'.scopes, hvalue, .inr ⟨_, _, rfl, rfl⟩⟩

variable {t : Setting} {frames : Nat} {m m' : Machine}

/-- A job that binds no name of its own keeps the parents and the names of all scopes. -/
theorem sameBelow_eval {α : Type} (job : Job α) (hjob : job.Allowed (Since m.scopes.next))
    (h : endState (eval t frames job m) = m') : SameBelow m.scopes.next m.scopes m'.scopes :=
  h ▸ (confined_eval t m.scopes.next frames job hjob).run m (Nat.le_refl _)

/-- A `let` keeps the parents of all scopes, and their names except that it may add its own to the
scope it is run in. -/
theorem eval_let_scopes {pos : Pos} {name : String} {type : Option TypeExpr} {value : Expr}
    {scope s : ScopeId}
    (h : endState (eval t frames (.stmt (.letIn pos name type value) scope) m) = m')
    (hs : s < m.scopes.next) :
    m'.scopes.link? s = m.scopes.link? s ∧
      (m'.scopes.names s = m.scopes.names s ∨
        s = scope ∧ m'.scopes.names s = m.scopes.names s ++ [name]) := by
  cases frames with
  | zero =>
    obtain rfl : m = m' := h
    exact ⟨rfl, .inl rfl⟩
  | succ frames =>
    have hrun : Contains m.scopes.next (eval t frames) := confined_eval t _ frames
    have hm' : endState (letRule (eval t frames) name value scope m) = m' := h
    obtain ⟨u, hu, ⟨e, m₁, heval, hend⟩ | ⟨v, m₁, heval, hend⟩⟩ :=
      letRule_scopes hrun name value scope (Nat.le_refl _)
    · rw [heval] at hm'
      obtain rfl : m₁ = m' := hm'
      rw [hend]
      exact ⟨hu.link s hs, .inl (hu.names s hs)⟩
    · rw [heval] at hm'
      obtain rfl : m₁ = m' := hm'
      rw [hend, link?_define, names_define, hu.link s hs, hu.names s hs]
      refine ⟨rfl, ?_⟩
      split
      · rename_i hnew
        exact .inr ⟨hnew.1, rfl⟩
      · exact .inl rfl

/-- A `let` that ends with a value has bound its name. -/
theorem mem_names_of_let {pos : Pos} {name : String} {type : Option TypeExpr} {value : Expr}
    {scope : ScopeId} {v : Value}
    (h : eval t frames (.stmt (.letIn pos name type value) scope) m = .ok v m')
    (hscope : scope < m.scopes.next) : name ∈ m'.scopes.names scope := by
  cases frames with
  | zero => cases h
  | succ frames =>
    have hrun : Contains m.scopes.next (eval t frames) := confined_eval t _ frames
    have hm' : letRule (eval t frames) name value scope m = .ok v m' := h
    obtain ⟨u, hu, ⟨e, m₁, heval, -⟩ | ⟨w, m₁, heval, hend⟩⟩ :=
      letRule_scopes hrun name value scope (Nat.le_refl _)
    · cases heval.symm.trans hm'
    · cases heval.symm.trans hm'
      rw [hend]
      exact mem_names_define (Nat.lt_of_lt_of_le hscope hu.next) name w

/-- What any statement may do to the scopes that are there. -/
theorem eval_stmt_scopes {st : Stmt} {scope s : ScopeId}
    (h : endState (eval t frames (.stmt st scope) m) = m') (hs : s < m.scopes.next) :
    m'.scopes.link? s = m.scopes.link? s ∧
      (m'.scopes.names s = m.scopes.names s ∨
        s = scope ∧ ∃ pos name type value, st = .letIn pos name type value ∧
          m'.scopes.names s = m.scopes.names s ++ [name]) := by
  -- Only a `let` is not confined, as the scope it is run in is an old one.
  have hother : st.Allowed (Since m.scopes.next) scope → m'.scopes.link? s = m.scopes.link? s ∧
      m'.scopes.names s = m.scopes.names s := by
    intro hst
    have hsame := sameBelow_eval (.stmt st scope) hst h
    exact ⟨hsame.link s hs, hsame.names s hs⟩
  cases st with
  | letIn pos name type value =>
    obtain ⟨hlink, hnames | ⟨hscope, hnames⟩⟩ := eval_let_scopes h hs
    · exact ⟨hlink, .inl hnames⟩
    · exact ⟨hlink, .inr ⟨hscope, pos, name, type, value, rfl, hnames⟩⟩
  | _ => exact (hother trivial).imp_right .inl

end Evaluation

namespace Session

open Eval Evaluation

theorem Reached.rising {s : Session} (h : s.Reached) : s.machine.scopes.Rising :=
  trace_rising h.trace rising_root

/-- Names do not get from one scope into another. Whatever the state, and however a statement ends,
each scope that was there before keeps its parent and its names, except that a `let` may add its own
name to the scope in which it is run, and has done so if it ends with a value; an expression keeps
them all. In every state that a session reaches, also in the middle of a job, each scope was opened
after its parent, so that a search for a name along the parents ends, and what it ends with is what
the name means. -/
theorem names_stay :
    (∀ (t : Setting) (frames : Nat) (st : Stmt) (scope : ScopeId) (m m' : Machine),
      endState (eval t frames (.stmt st scope) m) = m' → ∀ s < m.scopes.next,
        m'.scopes.link? s = m.scopes.link? s ∧
          (m'.scopes.names s = m.scopes.names s ∨
            s = scope ∧ ∃ pos name type value, st = .letIn pos name type value ∧
              m'.scopes.names s = m.scopes.names s ++ [name])) ∧
    (∀ (t : Setting) (frames : Nat) (pos : Pos) (name : String) (type : Option TypeExpr)
      (value : Expr) (scope : ScopeId) (m m' : Machine) (v : Value),
      eval t frames (.stmt (.letIn pos name type value) scope) m = .ok v m' →
        scope < m.scopes.next → name ∈ m'.scopes.names scope) ∧
    (∀ (t : Setting) (frames : Nat) (e : Expr) (scope : ScopeId) (m m' : Machine),
      endState (eval t frames (.expr e scope) m) = m' → ∀ s < m.scopes.next,
        m'.scopes.link? s = m.scopes.link? s ∧ m'.scopes.names s = m.scopes.names s) ∧
    ∀ s : Session, s.Reached →
      (∀ scope p, s.machine.scopes.link? scope = some p → p < scope) ∧
      ∀ scope name res, s.machine.scopes.Search name scope res ↔
        res = s.machine.scopes.find? scope name := by
  refine ⟨?_, ?_, ?_, ?_⟩
  · intro t frames st scope m m' h s hs
    exact eval_stmt_scopes h hs
  · intro t frames pos name type value scope m m' v h hscope
    exact mem_names_of_let h hscope
  · intro t frames e scope m m' h s hs
    have hsame := sameBelow_eval (.expr e scope) trivial h
    exact ⟨hsame.link s hs, hsame.names s hs⟩
  · intro s h
    refine ⟨h.rising, fun scope name res => ?_⟩
    have hsearch := h.rising.search scope name
    constructor
    · intro hres
      exact hsearch.unique hres
    · rintro rfl
      exact hsearch

/-- After `let x = true; { let y = x; }` a further block with a `let` of its own leaves the names of
both scopes alone, a `let` in the outermost scope adds its name there, and a search for `x` from the
inner scope ends in the outermost. -/
theorem names_stay_block :
    let items : List Stmt :=
      [.letIn .start "x" none (.bool .start true),
        .block .start [.letIn .start "y" none (.name .start "x")]]
    let block : Stmt := .block .start [.letIn .start "z" none (.name .start "x")]
    let s := ((start true true ⟨40, 1⟩).run items).1
    let after := fun st =>
      (endState (eval s.setting 40 (.stmt st ScopeTree.global) s.machine)).scopes
    s.Reached ∧ s.machine.scopes.next = 2 ∧
      s.machine.scopes.names 0 = ["x"] ∧ s.machine.scopes.names 1 = ["y"] ∧
      s.machine.scopes.link? 1 = some 0 ∧
      (∀ id < 2, (after block).link? id = s.machine.scopes.link? id ∧
        (after block).names id = s.machine.scopes.names id) ∧ (after block).names 2 = ["z"] ∧
      (after (.letIn .start "z" none (.bool .start true))).names 0 = ["x", "z"] ∧
      s.machine.scopes.Search "x" 1 (s.machine.scopes.find? 1 "x") ∧
      (s.machine.scopes.find? 1 "x").isSome = true := by
  intro items block s after
  have hs : s.Reached := (Reached.start true true ⟨40, 1⟩).run items
  have hnext : s.machine.scopes.next = 2 := by decide +kernel
  obtain ⟨hstmt, -, -, hreached⟩ := names_stay
  refine ⟨hs, hnext, by decide +kernel, by decide +kernel, by decide +kernel, ?_,
    by decide +kernel, by decide +kernel, ((hreached s hs).2 1 "x" _).2 rfl, by decide +kernel⟩
  intro id hid
  obtain ⟨hlink, hnames | ⟨-, pos, name, type, value, hlet, -⟩⟩ :=
    hstmt s.setting 40 block ScopeTree.global s.machine _ rfl id (hnext ▸ hid)
  · exact ⟨hlink, hnames⟩
  · have hblock : Stmt.block .start _ = .letIn pos name type value := hlet
    cases hblock

end Session

end Rustlet
