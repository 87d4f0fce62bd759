import Rustlet.Proofs.CallForms
import Rustlet.Proofs.Moves
import Rustlet.Proofs.Scoping

/-! The function that a script starts with, and the function that the name `main` means. -/
namespace Rustlet

open ScopeTree

namespace ScopeTree

variable {t t' : ScopeTree} {s p : ScopeId} {name : String} {b : Binding}

/-- Every scope but the outermost was opened in another. -/
def Rooted (t : ScopeTree) : Prop :=
  ∀ s, s ≠ global → s < t.next → ∃ p, t.link? s = some p

theorem rooted_root : root.Rooted := by
  intro s hs hlt
  exact absurd (Nat.lt_one_iff.1 hlt) hs

theorem Rooted.openIn (h : t.Rooted) (p : ScopeId) : (t.openIn p).Rooted := by
  intro s hs hlt
  rw [link?_openIn]
  by_cases hnew : s = t.next
  · exact ⟨p, if_pos hnew⟩
  · rw [if_neg hnew]
    rw [next_openIn] at hlt
    exact h s hs (Nat.lt_of_le_of_ne (Nat.le_of_lt_succ hlt) hnew)

theorem Rooted.of_link? (h : t.Rooted) (hnext : t'.next = t.next)
    (hlink : ∀ s, t'.link? s = t.link? s) : t'.Rooted := by
  intro s hs hlt
  rw [hlink]
  exact h s hs (hnext ▸ hlt)

/-- A scope that has not been opened binds nothing. -/
theorem local?_of_le (h : t.next ≤ s) (name : String) : t.local? s name = none := by
  unfold local?
  rw [Array.getElem?_eq_none h]
  rfl

/-- A name that only the outermost scope binds means the same everywhere. -/
theorem Rooted.owner?_eq (h : t.Rooted) (hrising : t.Rising)
    (hglobal : t.local? global name = some b)
    (hothers : ∀ s, s ≠ global → t.local? s name = none) (hs : s < t.next) :
    t.owner? s name = some global := by
  induction s using Nat.strongRecOn with
  | ind s ih =>
    by_cases hroot : s = global
    · rw [hroot]
      exact owner?_of_local? hglobal
    · obtain ⟨p, hp⟩ := h s hroot hs
      have hlt := hrising s p hp
      rw [owner?_of_link? (hothers s hroot) hp hlt]
      exact ih p hlt (Nat.lt_trans hlt hs)

end ScopeTree

namespace Machine

variable {name : String} {m m' : Machine} {r : Registry} {may : ScopeId → String → Prop}

theorem Change.rooted (h : Change r may m m') (hm : m.scopes.Rooted) : m'.scopes.Rooted := by
  cases h with
  | opened h => exact hm.openIn _
  | bound h hv => exact hm.of_link? (next_define ..) (link?_define _ _ · _ _)
  | assigned hv => exact hm.of_link? (next_update ..) (link?_update _ _ · _ _)
  | moved hb hid => exact hm.of_link? (next_update ..) (link?_update _ _ · _ _)
  | _ => exact hm

theorem trace_rooted (h : Trace m m') (hm : m.scopes.Rooted) : m'.scopes.Rooted := by
  induction h with
  | refl => exact hm
  | tail _ hc ih =>
    obtain ⟨r, hc⟩ := hc
    exact hc.rooted ih

/-- Between two states a name is bound in some scope, or is assigned to. -/
def Rebinds (name : String) (m m' : Machine) : Prop :=
  ∃ s v, m' = { m with scopes := m.scopes.define s name v } ∨
    m' = { m with scopes := m.scopes.assign s name v }

/-- Changes one after the other, none of which binds a name or assigns to it. -/
abbrev Sparing (name : String) : Machine → Machine → Prop :=
  Relation.ReflTransGen fun m m' =>
    (∃ r, Change r (fun _ _ => True) m m') ∧ ¬ Rebinds name m m'

theorem trace_of_sparing (h : Sparing name m m') : Trace m m' :=
  Relation.ReflTransGen.mono (fun _ _ hc => hc.1) _ _ h

/-- Only an instance is ever marked as moved, so anything else stays bound to a name that is not
bound again. -/
theorem Change.local?_eq (h : Change r may m m') (hspared : ¬ Rebinds name m m') {s : ScopeId}
    (hs : ∀ b id, m.scopes.local? s name = some b → b.value ≠ .inst id) :
    m'.scopes.local? s name = m.scopes.local? s name := by
  cases h with
  | opened h => rw [local?_openIn]
  | @bound u x v h hv =>
    have hx : x ≠ name := by
      rintro rfl
      exact hspared ⟨u, v, .inl rfl⟩
    rw [local?_define, if_neg fun h => hx h.2.1]
  | @assigned u x v hv =>
    have hx : x ≠ name := by
      rintro rfl
      exact hspared ⟨u, v, .inr rfl⟩
    rw [assign, local?_update, if_neg fun h => hx h.2]
  | @moved u x b id hb hid =>
    rw [markMoved, local?_update, if_neg]
    rintro ⟨howner, rfl⟩
    rw [find?, howner, Option.bind_some] at hb
    exact hs b id hb hid
  | _ => rfl

theorem sparing_local? (h : Sparing name m m') {s : ScopeId}
    (hs : ∀ b id, m.scopes.local? s name = some b → b.value ≠ .inst id) :
    m'.scopes.local? s name = m.scopes.local? s name := by
  induction h with
  | refl => rfl
  | tail _ hc ih =>
    obtain ⟨⟨r, hc⟩, hspared⟩ := hc
    rw [hc.local?_eq hspared (ih ▸ hs), ih]

end Machine

namespace Evaluation

open Eval

section Hoisting

variable {scope : ScopeId}

theorem hoist_append (a b : List Stmt) (m : Machine) :
    hoist scope (a ++ b) m = (do hoist scope a; hoist scope b : Eval Unit) m := by
  induction a generalizing m with
  | nil => rfl
  | cons st rest ih =>
    cases st with
    | fnDecl d => exact ih { m with scopes := m.scopes.define scope d.name (.fn ⟨d, scope⟩) }
    | _ => exact ih m

/-- Binding functions does not fail, opens no scope, and binds no name but theirs, in one scope. -/
theorem exists_hoist (scope : ScopeId) (items : List Stmt) (m : Machine) :
    ∃ m', hoist scope items m = .ok () m' ∧ m'.scopes.next = m.scopes.next ∧
      ∀ s name, s ≠ scope ∨ (∀ d, .fnDecl d ∈ items → d.name ≠ name) →
        m'.scopes.local? s name = m.scopes.local? s name := by
  induction items generalizing m with
  | nil => exact ⟨m, rfl, rfl, fun _ _ _ => rfl⟩
  | cons st rest ih =>
    cases st with
    | fnDecl d =>
      obtain ⟨m', hrest, hnext, hlocal⟩ :=
        ih { m with scopes := m.scopes.define scope d.name (.fn ⟨d, scope⟩) }
      refine ⟨m', hrest, by rw [hnext, next_define], fun s name hname => ?_⟩
      rw [hlocal s name (hname.imp_right fun h e he => h e (List.mem_cons_of_mem _ he)),
        local?_define, if_neg]
      rintro ⟨hs, hd, -⟩
      rcases hname with hne | hnot
      · exact hne hs
      · exact hnot d List.mem_cons_self hd
    | _ =>
      obtain ⟨m', hrest, hnext, hlocal⟩ := ih m
      exact ⟨m', hrest, hnext, fun s name hname =>
        hlocal s name (hname.imp_right fun h e he => h e (List.mem_cons_of_mem _ he))⟩

/-- A name that several functions have means the last of them. -/
theorem local?_hoist (before : List Stmt) {after : List Stmt} {d : FnDecl} {m : Machine}
    (hscope : scope < m.scopes.next) (hafter : ∀ e, .fnDecl e ∈ after → e.name ≠ d.name) :
    ∃ m', hoist scope (before ++ .fnDecl d :: after) m = .ok () m' ∧
      m'.scopes.next = m.scopes.next ∧
      m'.scopes.local? scope d.name = some ⟨.fn ⟨d, scope⟩, false⟩ ∧
      ∀ s name, s ≠ scope → m'.scopes.local? s name = m.scopes.local? s name := by
  obtain ⟨m₁, hbefore, hnext₁, hlocal₁⟩ := exists_hoist scope before m
  obtain ⟨m₂, hrest, hnext₂, hlocal₂⟩ := exists_hoist scope after
    { m₁ with scopes := m₁.scopes.define scope d.name (.fn ⟨d, scope⟩) }
  refine ⟨m₂, ?_, by rw [hnext₂, next_define, hnext₁], ?_, fun s name hs => ?_⟩
  · rw [hoist_append, bind_of_ok hbefore]
    exact hrest
  · rw [hlocal₂ scope d.name (.inr hafter), local?_define, if_pos ⟨rfl, rfl, hnext₁ ▸ hscope⟩]
  · rw [hlocal₂ s name (.inl hs), local?_define, if_neg fun h => hs h.1, hlocal₁ s name (.inl hs)]

end Hoisting

section Calls

variable {t : Setting} {frames : Nat} {m : Machine} {scope : ScopeId} {d : FnDecl}

/-- A function without parameters is entered alike wherever it is called. -/
theorem eval_enter_free (hparams : d.params = []) (pos pos' : Pos) :
    eval t frames (.enter (.free d scope) [] pos) m =
      eval t frames (.enter (.free d scope) [] pos') m := by
  cases frames with
  | zero => rfl
  | succ frames =>
    have hlength : ([] : List Value).length = (Entry.free d scope).decl.params.length := by
      change 0 = d.params.length
      rw [hparams]
      rfl
    change enterRule t (eval t frames) (.free d scope) [] pos m =
      enterRule t (eval t frames) (.free d scope) [] pos' m
    unfold enterRule
    rw [if_pos hlength, if_pos hlength]
    rfl

/-- A call without arguments by the name of a function enters it. -/
theorem eval_call_name {s : ScopeId} {name : String} {f : Closure}
    (hname : m.scopes.find? s name = some ⟨.fn f, false⟩) (pos pos' : Pos) :
    eval t (frames + 2) (.expr (.call pos (.name pos' name) []) s) m =
      eval t frames (.enter (.free f.decl f.scope) [] pos) m := by
  have hcallee : eval t (frames + 1) (.expr (.name pos' name) s) m = .ok (.fn f) m :=
    Session.eval_name_of_not_moved t frames pos' hname rfl
  have hargs : eval t (frames + 1) (.args [] s) m = .ok [] m := rfl
  change callRule (eval t (frames + 1)) pos (.name pos' name) [] s m = _
  refine (bind_of_ok hcallee).trans ?_
  exact bind_of_ok hargs

end Calls

end Evaluation

namespace Session

open Evaluation Machine

variable {before after : List Stmt} {d : FnDecl}

/-- What a script starts with is the first function named `main` that has no parameters. -/
theorem main?_eq_some (hname : d.name = "main") (hparams : d.params = [])
    (hbefore : ∀ e, .fnDecl e ∈ before → e.name = "main" → e.params ≠ []) :
    main? (before ++ .fnDecl d :: after) = some d := by
  induction before with
  | nil =>
    rw [List.nil_append, main?, if_pos]
    exact ⟨hname, by rw [hparams]; rfl⟩
  | cons st rest ih =>
    have hrest := ih fun e he => hbefore e (List.mem_cons_of_mem _ he)
    cases st with
    | fnDecl e =>
      rw [List.cons_append, main?, if_neg, hrest]
      rintro ⟨he, hempty⟩
      exact hbefore e List.mem_cons_self he (List.isEmpty_iff.1 hempty)
    | _ => exact hrest

theorem scopes_prepare (s : Session) (items : List Stmt) :
    (s.prepare items).1.machine.scopes = s.machine.scopes := by
  obtain ⟨r, entries, e, h⟩ := exists_prepare s.registry items
  rw [h s rfl]
  rfl

/-- The state in which the items of a script are run. -/
theorem scopes_readied (before : List Stmt) {s : Session}
    (hs : ScopeTree.global < s.machine.scopes.next)
    (hafter : ∀ e, .fnDecl e ∈ after → e.name ≠ d.name) :
    (s.readied (before ++ .fnDecl d :: after)).machine.scopes.next = s.machine.scopes.next ∧
      (s.readied (before ++ .fnDecl d :: after)).machine.scopes.local? global d.name =
        some ⟨.fn ⟨d, global⟩, false⟩ ∧
      ∀ u name, u ≠ global →
        (s.readied (before ++ .fnDecl d :: after)).machine.scopes.local? u name =
          s.machine.scopes.local? u name := by
  have hscopes := s.scopes_prepare (before ++ .fnDecl d :: after)
  unfold readied
  generalize (s.prepare (before ++ .fnDecl d :: after)).1 = s' at hscopes
  have hroot : global < s'.ordered.machine.scopes.next := by
    rw [show s'.ordered.machine.scopes = s.machine.scopes from hscopes]
    exact hs
  obtain ⟨m, hm, hnext, hlocal, hothers⟩ := local?_hoist before hroot hafter
  unfold Session.hoist
  rw [hm]
  refine ⟨?_, hlocal, fun u name hu => ?_⟩
  · rw [hnext]
    exact congrArg _ hscopes
  · rw [hothers u name hu]
    exact congrArg (local? · u name) hscopes

theorem Reached.scopes_of_sparing {s : Session} (hs : s.Reached) {items : List Stmt} {name : String}
    {m : Machine} (h : Sparing name (s.readied items).machine m) :
    m.scopes.Rising ∧ m.scopes.Rooted := by
  have htrace : Trace .start m :=
    (hs.trace.trans (hs.orderly.trace_readied items)).trans (trace_of_sparing h)
  exact ⟨trace_rising htrace rising_root, trace_rooted htrace rooted_root⟩

/-- If the first function named `main` that has no parameters is also the last function of that
name, the script ends with a call of the function that the name means after the functions have been
bound. As long as the name is then neither bound nor assigned to, a call by this name in any scope
where it means that of the outermost scope does what the call at the end of the script does; in a
session that has not run anything before, this is every scope. -/
theorem main_entered {s : Session} (hs : s.Reached) (before after : List Stmt) {d : FnDecl}
    (hname : d.name = "main") (hparams : d.params = [])
    (hbefore : ∀ e, .fnDecl e ∈ before → e.name = "main" → e.params ≠ [])
    (hafter : ∀ e, .fnDecl e ∈ after → e.name ≠ "main") :
    let items := before ++ .fnDecl d :: after
    main? items = some d ∧
      (s.readied items).global? "main" = some ⟨.fn ⟨d, ScopeTree.global⟩, false⟩ ∧
      jobs items = items.map (fun item => (item.pos, .stmt item ScopeTree.global)) ++
        [(d.pos, .enter (.free d ScopeTree.global) [] d.pos)] ∧
      ∀ m, Sparing "main" (s.readied items).machine m →
        (∀ scope, m.scopes.owner? scope "main" = some ScopeTree.global →
          ∀ (t : Setting) (frames : Nat) (pos pos' : Pos),
            eval t (frames + 2) (.expr (.call pos (.name pos' "main") []) scope) m =
              eval t frames (.enter (.free d ScopeTree.global) [] d.pos) m) ∧
        (s.machine.scopes.next = 1 → ∀ scope < m.scopes.next,
          m.scopes.owner? scope "main" = some ScopeTree.global) := by
  intro items
  have hmain : main? items = some d := main?_eq_some hname hparams hbefore
  obtain ⟨hnext, hlocal, hothers⟩ :=
    scopes_readied before hs.orderly.fair.root (hname ▸ hafter)
  rw [hname] at hlocal
  have hstill : ∀ m, Sparing "main" (s.readied items).machine m →
      m.scopes.local? ScopeTree.global "main" = some ⟨.fn ⟨d, ScopeTree.global⟩, false⟩ := by
    intro m hm
    rw [sparing_local? hm, hlocal]
    rintro b id hb hid
    obtain rfl := Option.some.inj (hlocal.symm.trans hb)
    cases hid
  refine ⟨hmain, find?_of_local? hlocal, ?_, fun m hm => ⟨?_, ?_⟩⟩
  · rw [jobs, hmain]
    rfl
  · intro scope howner t frames pos pos'
    have hfind : m.scopes.find? scope "main" = some ⟨.fn ⟨d, ScopeTree.global⟩, false⟩ := by
      rw [find?, howner]
      exact hstill m hm
    rw [eval_call_name hfind]
    exact eval_enter_free hparams pos d.pos
  · intro hfresh scope hscope
    obtain ⟨hrising, hrooted⟩ := hs.scopes_of_sparing hm
    -- Nothing but the outermost scope was there when the functions were bound.
    have hnone : ∀ u, u ≠ ScopeTree.global →
        (s.readied items).machine.scopes.local? u "main" = none := by
      intro u hu
      rw [hothers u "main" hu]
      exact local?_of_le (hfresh ▸ Nat.one_le_iff_ne_zero.2 hu) "main"
    refine hrooted.owner?_eq hrising (b := ⟨.fn ⟨d, ScopeTree.global⟩, false⟩) ?_ ?_ hscope
    · exact hstill m hm
    · intro u hu
      rw [sparing_local? hm, hnone u hu]
      intro b id hb
      rw [hnone u hu] at hb
      cases hb

/-- The name is bound to the second of two functions, since the first has a parameter, and a block
may call it, too. -/
theorem main_entered_overloaded :
    let first : FnDecl := ⟨.start, "main", none, [⟨.start, "x", .unit⟩], .unit, []⟩
    let second : FnDecl :=
      ⟨⟨2, 1⟩, "main", none, [], .unit, [.expr .start (.bool .start true) false]⟩
    let items : List Stmt := [.fnDecl first, .fnDecl second, .block .start []]
    let s := start true true .default
    let m := (s.readied items).machine
    let inner : Machine := { m with scopes := m.scopes.openIn ScopeTree.global }
    let call : Expr := .call .start (.name .start "main") []
    main? items = some second ∧
      (s.readied items).global? "main" = some ⟨.fn ⟨second, ScopeTree.global⟩, false⟩ ∧
      Sparing "main" m inner ∧ inner.scopes.owner? 1 "main" = some ScopeTree.global ∧
      eval (s.readied items).setting 9 (.expr call 1) inner =
        eval (s.readied items).setting 7 (.enter (.free second ScopeTree.global) [] second.pos)
          inner := by
  intro first second items s m inner call
  have hs : s.Reached := .start ..
  obtain ⟨hmain, hglobal, -, hcalls⟩ :=
    main_entered hs [.fnDecl first] [.block .start []] (d := second) rfl rfl (by simp [first])
      (by simp)
  have hinner : Sparing "main" m inner := by
    refine .single ⟨⟨.empty, .opened (by decide)⟩, ?_⟩
    rintro ⟨u, v, h | h⟩
    · have hnext := congrArg (·.scopes.next) h
      simp [inner] at hnext
    · have hnext := congrArg (·.scopes.next) h
      simp [inner, assign] at hnext
  obtain ⟨heval, howner⟩ := hcalls inner hinner
  have hmeans := howner rfl 1 (by decide)
  exact ⟨hmain, hglobal, hinner, hmeans, heval 1 hmeans _ 7 .start .start⟩

/-- Where the function is declared that a name means in the outermost scope. -/
def declaredAt? (s : Session) (name : String) : Option Pos :=
  match s.global? name with
  | some ⟨.fn f, _⟩ => some f.decl.pos
  | _ => none

/-- A function that comes later takes the name, with or without parameters, and the script still
starts with the first that has none. -/
theorem main_named_apart :
    let seen (source : String) : Option (Option Pos × Option Pos × Option (String × Nat)) :=
      (Program.ofSource source .default).toOption.map fun p =>
        let s := start p.strictMoves true .default
        ((main? p.items).map (·.pos), (s.readied p.items).declaredAt? "main",
          (s.run p.items).2.toOption.map fun r => (r.output, r.errors.length))
    seen "fn main() \x7b print!(\"1\"); \x7d fn main() \x7b print!(\"2\"); \x7d main();" =
        some (some ⟨1, 1⟩, some ⟨1, 28⟩, some ("21", 0)) ∧
      seen "fn main() \x7b print!(\"1\"); \x7d fn main(x: f64) \x7b print!(\"2\"); \x7d main();" =
        some (some ⟨1, 1⟩, some ⟨1, 28⟩, some ("1", 1)) := by
  decide +kernel

end Session

end Rustlet
