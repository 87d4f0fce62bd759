import Mathlib.Data.List.Nodup
import Rustlet.Proofs.Balance
import Rustlet.Proofs.Layout
import Rustlet.Proofs.Places
import Rustlet.Proofs.Registration

/-! Where the errors of a script are blamed. -/
namespace Rustlet

/-- The place of what is declared. -/
def Declaration.pos : Declaration → Option Pos
  | .struct d => d.pos
  | .method m => m.pos

mutual

theorem Stmt.placed_declarations : ∀ (s : Stmt) (d : Declaration), d ∈ s.declarations →
    d.pos.isSome = true
  | .structDecl _, d, h => by
    rw [Stmt.declarations, List.mem_singleton] at h
    subst h
    rfl
  | .implBlock ⟨_, type, methods⟩, d, h => placed_methodDeclarations type methods d h
  | .fnDecl decl, d, h => decl.placed_declarations d h
  | .conditional ⟨_, _, thenBody, none⟩, d, h => placed_bodyDeclarations thenBody d h
  | .conditional ⟨_, _, thenBody, some elseBody⟩, d, h => by
    rcases List.mem_append.1 h with h | h
    · exact placed_bodyDeclarations thenBody d h
    · exact placed_bodyDeclarations elseBody d h
  | .whileLoop _ _ body, d, h => placed_bodyDeclarations body d h
  | .block _ body, d, h => placed_bodyDeclarations body d h
  | .letIn .., _, h | .assign .., _, h | .expr .., _, h | .ret .., _, h => by cases h

theorem placed_bodyDeclarations : ∀ (body : List Stmt) (d : Declaration),
    d ∈ bodyDeclarations body → d.pos.isSome = true
  | [], _, h => by cases h
  | s :: rest, d, h => by
    rcases List.mem_append.1 h with h | h
    · exact s.placed_declarations d h
    · exact placed_bodyDeclarations rest d h

theorem FnDecl.placed_declarations : ∀ (decl : FnDecl) (d : Declaration),
    d ∈ decl.declarations → d.pos.isSome = true
  | ⟨_, _, _, _, _, body⟩, d, h => placed_bodyDeclarations body d h

theorem placed_methodDeclarations : ∀ (owner : String) (methods : List FnDecl) (d : Declaration),
    d ∈ methodDeclarations owner methods → d.pos.isSome = true
  | _, [], _, h => by cases h
  | owner, m :: rest, d, h => by
    rcases List.mem_cons.1 h with rfl | h
    · rfl
    · rcases List.mem_append.1 h with h | h
      · exact m.placed_declarations d h
      · exact placed_methodDeclarations owner rest d h

end

namespace Registry

variable {r : Registry} {e : RuntimeError}

/-- A declaration that an open registry refuses is blamed itself. -/
theorem pos_of_add_error (hopen : r.frozen = false) {d : Declaration} (h : r.add d = .error e) :
    e.pos = d.pos := by
  cases d with
  | struct d =>
    simp only [add, addStruct, hopen, Bool.false_eq_true, ↓reduceIte] at h
    split at h <;> cases h
    rfl
  | method m =>
    simp only [add, addMethod, hopen, Bool.false_eq_true, ↓reduceIte] at h
    split at h <;> cases h
    rfl

/-- Methods without their struct are blamed on the first of them. -/
theorem Lists.placed_of_freeze_error {ds : List Declaration} (hr : r.Lists ds)
    (hds : ∀ d ∈ ds, d.pos.isSome = true) (h : r.freeze = .error e) : e.Placed := by
  unfold freeze at h
  split at h
  · rename_i owner methods horphan
    obtain ⟨p, hp, hm⟩ := hr.first _ (List.mem_of_find?_eq_some horphan)
    have hpos : p.2.pos.isSome = true := hds _ hm
    cases h
    dsimp only at hp
    simpa [RuntimeError.Placed, hp] using hpos
  · cases h

end Registry

namespace Session

open Evaluation

variable {s : Session} {items : List Stmt} {e : RuntimeError}

theorem placed_of_declare_error {ds₀ ds : List Declaration} (h : s.registry.Lists ds₀)
    (hds : ∀ d ∈ ds, d.pos.isSome = true) (he : (s.declare ds).2 = some e) : e.Placed := by
  induction ds generalizing s ds₀ with
  | nil => cases he
  | cons d rest ih =>
    unfold declare at he
    split at he
    · rename_i e' hadd
      cases he
      rw [RuntimeError.Placed, Registry.pos_of_add_error h.isOpen hadd]
      exact hds d List.mem_cons_self
    · rename_i r hr
      have hnext : ({ s with registry := r }.note (entered d)).registry.Lists (ds₀ ++ [d]) :=
        h.add hr
      exact ih hnext (fun d hd => hds d (List.mem_cons_of_mem _ hd)) he

/-- A declaration that is refused is blamed on a place. -/
theorem placed_of_prepare_error (h : s.registry.Lists []) (he : (s.prepare items).2 = some e) :
    e.Placed := by
  have hds := placed_bodyDeclarations items
  unfold prepare at he
  generalize hd : s.declare (bodyDeclarations items) = q at he
  obtain ⟨s₁, _ | e'⟩ := q
  · obtain ⟨r, log, hlists, rfl⟩ := declare_lists h hd
    simp only [freeze] at he
    split at he
    · rename_i hfreeze
      cases he
      exact hlists.placed_of_freeze_error hds hfreeze
    · cases he
  · cases he
    exact placed_of_declare_error h hds (congrArg Prod.snd hd)

/-- The error of an item that stops soundly is blamed on a place. -/
theorem placed_of_itemError? {stop : Stop} {calls : List (Option String)} {m : Machine}
    (h : stop.Sound calls m) {pos : Pos} (he : itemError? pos stop = some e) : e.Placed := by
  cases stop with
  | fault e' =>
    cases he
    exact h.1
  | returned v =>
    cases he
    rfl
  | overflow =>
    cases he
    rfl
  | unfinished => cases he

theorem Orderly.sound_of_perform_error (h : s.Orderly) {job : Job Value}
    (hjob : job.Known s.machine) {stop : Stop} (hstop : (s.perform job).2 = .error stop) :
    ∃ m, stop.Sound s.machine.calls m := by
  have hmay : job.Allowed fun _ _ => True := job.allowed_of_all fun _ _ => trivial
  have hfollows := follows_eval (s := s.setting) h.named s.limits.frames job hjob hmay
  obtain ⟨m, hm⟩ := eval_of_perform_error hstop
  exact ⟨m, hfollows.sound h.fair hm⟩

/-- The jobs of a script, some of which may fail: all errors are blamed on places. -/
theorem Orderly.placed_of_performAll (h : s.Orderly) {js : List (Pos × Job Value)}
    (hjs : js ⊆ jobs items) (errors : List RuntimeError) (herrors : ∀ e ∈ errors, e.Placed) :
    ∀ e ∈ reported (s.performAll errors js).2, e.Placed := by
  induction js generalizing s errors with
  | nil => exact herrors
  | cons j rest ih =>
    obtain ⟨pos, job⟩ := j
    obtain ⟨hjob, hrest⟩ := List.cons_subset.1 hjs
    have hknown := known_of_mem_jobs hjob h.fair.root
    have horderly := h.perform hknown
    have hsound : ∀ {stop}, (s.perform job).2 = .error stop → ∃ m, stop.Sound s.machine.calls m :=
      fun hstop => h.sound_of_perform_error hknown hstop
    rw [performAll_cons]
    generalize s.perform job = res at horderly hsound
    obtain ⟨s', stop | v⟩ := res
    · obtain ⟨m, hm⟩ := hsound rfl
      dsimp only
      split
      · exact nofun
      · rename_i e he
        have hplaced := placed_of_itemError? hm he
        split
        · have hnote : (s'.note (.itemAborted e)).Orderly := horderly.of_path (.single (.noted _))
          refine ih hnote hrest _ fun e' he' => ?_
          rcases List.mem_append.1 he' with he' | he'
          · exact herrors e' he'
          · exact List.mem_singleton.1 he' ▸ hplaced
        · simpa [reported] using hplaced
    · exact ih horderly hrest errors herrors

/-- All errors of a run in a fresh session are blamed on places. -/
theorem Orderly.placed_of_run (h : s.Orderly) (hs : s.registry.Lists []) (items : List Stmt) :
    ∀ e ∈ reported ((s.run items).2.map (·.errors)), e.Placed := by
  cases hprepare : (s.prepare items).2 with
  | none =>
    rw [run_errors_of_accepted hprepare]
    exact (h.readied items).placed_of_performAll (List.Subset.refl (jobs items)) [] nofun
  | some e =>
    rw [run_of_refused hprepare]
    simpa [reported, Except.map] using placed_of_prepare_error hs hprepare

theorem reported_outcome (ρ : Recasting) (r : Except Halt RunResult) :
    reported ((ρ.outcome r).map (·.errors)) = (reported (r.map (·.errors))).map ρ.error := by
  rcases r with (e | _) | result <;> rfl

/-- A change of places that leaves the items alone leaves the errors of a run alone. -/
theorem error_run_placing (strictMoves continueOnError : Bool) (limits : Limits) {f : Pos → Pos}
    (h : items.map ((Relabelling.placing f).stmt none) = items) :
    ∀ e ∈ reported (((start strictMoves continueOnError limits).run items).2.map (·.errors)),
      (Recasting.placing f).error e = e := by
  have hitems : items.map ((Recasting.placing f).stmt none) = items := h
  have hrun := run_recast (.placing f) (s := start strictMoves continueOnError limits) rfl items
  rw [Recasting.session_start, hitems] at hrun
  have houtcome : (Recasting.placing f).outcome _ = _ := (congrArg Prod.snd hrun).symm
  have hreported := reported_outcome (.placing f) ((start strictMoves continueOnError limits).run
    items).2
  rw [houtcome] at hreported
  exact List.map_inj_left.1 (hreported.symm.trans (List.map_id _).symm)

end Session

/-- The places that a result of running a script blames. An error without a place counts as well. -/
def blamed : Except ScriptError RunResult → List (Option Pos)
  | .ok result => result.errors.map (·.pos)
  | .error (.source (.lexical e)) => [some e.pos]
  | .error (.source (.grammar e)) => [some e.pos]
  | .error (.halt (.error e)) => [e.pos]
  | .error (.halt .unfinished) => []

theorem Program.ofSource_of_fault {source : String} {e : LexError}
    (h : (Scan.ofSource source).error? = some e) (limits : Limits) :
    Program.ofSource source limits = .error (.lexical e) := by
  have hstart : Cursor.ofSource source = .error (.lexical e) := by
    simp only [Cursor.ofSource, h]
  unfold Program.ofSource Grammar.Goal.ofSource
  rw [hstart]
  rfl

namespace Scan

/-- A place of the scan stays, and any other is moved to the end. -/
def settle (s : Scan) (p : Pos) : Pos := if p ∈ s.places then p else s.stop

variable (s : Scan) (p : Pos)

theorem stop_mem_places : s.stop ∈ s.places := List.mem_append_right _ (List.mem_singleton.2 rfl)

theorem settle_eq_self_iff : s.settle p = p ↔ p ∈ s.places := by
  unfold settle
  split
  · rename_i hp
    exact iff_of_true rfl hp
  · rename_i hp
    refine iff_of_false ?_ hp
    rintro rfl
    exact hp s.stop_mem_places

/-- The tokens of a scan stand where they stand. -/
theorem fixed_settle : Cursor.Fixed s.settle ⟨s.tokens, s.stop⟩ where
  tokens t ht := (s.settle_eq_self_iff t.pos).2 (List.mem_append_left _ (List.mem_map_of_mem ht))
  stop := (s.settle_eq_self_iff s.stop).2 s.stop_mem_places

theorem count_places (source : String) {p : Pos} (h : p ∈ (ofSource source).places) :
    (ofSource source).places.count p = 1 := by
  have hnodup : (ofSource source).places.Nodup := (places_increasing source).imp fun hb => hb.ne
  exact List.count_eq_one_of_mem hnodup h

end Scan

/-- A run that only knows places of a scan blames only these. -/
theorem mem_places_of_blamed {scan : Scan} {items : List Stmt}
    (hitems : items.map ((Relabelling.placing scan.settle).stmt none) = items)
    (strictMoves continueOnError : Bool) (limits : Limits) {pos : Option Pos}
    (hpos : pos ∈ blamed
      (((Session.start strictMoves continueOnError limits).run items).2.mapError .halt)) :
    ∃ p, pos = some p ∧ p ∈ scan.places := by
  have horderly := Session.orderly_start strictMoves continueOnError limits
  have hplaced := horderly.placed_of_run .empty items
  have hstays := Session.error_run_placing strictMoves continueOnError limits hitems
  generalize ((Session.start strictMoves continueOnError limits).run items).2 = r
    at hpos hplaced hstays
  have hblamed : blamed (r.mapError .halt) =
      (Session.reported (r.map (·.errors))).map (·.pos) := by
    rcases r with (e | _) | result <;> rfl
  rw [hblamed] at hpos
  obtain ⟨e, he, rfl⟩ := List.mem_map.1 hpos
  obtain ⟨p, hp⟩ := Option.isSome_iff_exists.1 (hplaced e he)
  have hsettle := congrArg RuntimeError.pos (hstays e he)
  simp only [Recasting.error, hp, Option.map_some, Option.some.injEq] at hsettle
  exact ⟨p, hp, (scan.settle_eq_self_iff p).1 hsettle⟩

/-- The tokens of a text stand one after the other. Whatever is wrong with the text as a script,
each error it is refused for, its run stops at or its run records has a place, and this is the place
of exactly one token, that of the end included. Only a loop that takes more rounds than it may
blames no place. -/
theorem runScript_blames_tokens (source : String) (options : RunOptions) (limits : Limits) :
    let places := (Scan.ofSource source).places
    places.Pairwise Pos.Before ∧
      ∀ pos ∈ blamed (runScript source options limits).2,
        ∃ p, pos = some p ∧ places.count p = 1 := by
  intro places
  refine ⟨Scan.places_increasing source, fun pos hpos => ?_⟩
  suffices hmem : ∃ p, pos = some p ∧ p ∈ places by
    obtain ⟨p, hp, hmem⟩ := hmem
    exact ⟨p, hp, Scan.count_places source hmem⟩
  rw [runScript_eq] at hpos
  cases hscan : (Scan.ofSource source).error? with
  | some e =>
    rw [Program.ofSource_of_fault hscan] at hpos
    obtain ⟨fault, -, rfl⟩ := Option.map_eq_some_iff.1 hscan
    exact ⟨_, List.mem_singleton.1 hpos, Scan.stop_mem_places _⟩
  | none =>
    rw [Program.ofSource_of_scan hscan] at hpos
    have hreading := Grammar.parse_fixed (Scan.ofSource source).fixed_settle limits.depth .program
    generalize Grammar.parse limits.depth .program
      ⟨(Scan.ofSource source).tokens, (Scan.ofSource source).stop⟩ = r at hpos hreading
    cases r with
    | ok r => exact mem_places_of_blamed (hreading none) _ _ _ hpos
    | error e =>
      exact ⟨_, List.mem_singleton.1 hpos, (Scan.settle_eq_self_iff _ _).1 hreading⟩

end Rustlet
