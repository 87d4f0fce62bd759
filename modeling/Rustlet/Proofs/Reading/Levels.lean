import Mathlib.Order.Filter.AtTopBot.Basic
import Rustlet.Proofs.Reading

/-! What is read at one level is read at all looser ones, if what follows cannot continue it. -/
namespace Rustlet

open Filter Grammar Parse

/-- The level at which a mark continues an expression. -/
def Symbol.continues? : Symbol → Option Level
  | orOr => some .disjunction
  | andAnd => some .conjunction
  | eqEq | notEq | less | lessEq | greater | greaterEq => some .comparison
  | plus | minus => some .sum
  | star | slash | percent => some .product
  | dot | openParen => some .postfixed
  | _ => none

/-- Whether a lexeme ends an expression of some level. A brace does so only where struct literals
cannot stand. -/
def Lexeme.ends (level : Level) (literals : Bool) : Lexeme → Bool
  | .symbol .openBrace => !literals
  | .symbol .closeBrace | .symbol .closeParen | .symbol .comma | .symbol .semicolon
  | .symbol .assign => true
  | .symbol s => s.continues?.any (·.rank < level.rank)
  | _ => false

theorem Lexeme.ends_mono {l : Lexeme} {level tight : Level} {literals : Bool}
    (hle : level.rank ≤ tight.rank) (h : l.ends level literals = true) :
    l.ends tight literals = true := by
  cases l with
  | symbol s =>
    cases s <;> simp_all [Lexeme.ends, Symbol.continues?] <;> omega
  | _ => exact h

namespace Grammar

/-- Whether some lexemes cannot continue an expression of some level. -/
def Ends (level : Level) (literals : Bool) (rest : List Lexeme) : Prop :=
  ∀ l ∈ rest.head?, l.ends level literals = true

theorem Ends.tighten {level : Level} {literals : Bool} {rest : List Lexeme}
    (h : Ends level literals rest) : Ends level.next literals rest :=
  fun l hl => Lexeme.ends_mono level.rank_le_next (h l hl)

theorem Ends.head?_ne_openParen {level : Level} {literals : Bool} {rest : List Lexeme}
    (hlevel : level ≠ .primary) (h : Ends level literals rest) :
    rest.head? ≠ some (.symbol .openParen) := by
  intro hr
  have hp := h _ hr
  cases level <;> first | exact absurd rfl hlevel | exact Bool.noConfusion hp

variable {α : Type}

/-- The construct of a level. -/
def levelGoal (literals : Bool) : Level → Goal Expr
  | .disjunction => .disjunction literals
  | .conjunction => .conjunction literals
  | .comparison => .comparison literals
  | .sum => .sum literals
  | .product => .product literals
  | .unary => .unary literals
  | .postfixed => .postfixed literals
  | .primary => .primary literals

/-- A construct is read from some lexemes at every depth that is large enough, whatever follows. -/
def Reads (goal : Goal α) (follow : List Lexeme → Prop) (ls : List Lexeme) (a : α) : Prop :=
  ∀ᶠ depth in atTop, ∀ rest, follow rest →
    parse depth goal (.flat (ls ++ rest)) = .ok (a, .flat rest)

theorem Reads.of_rule {goal : Goal α} {follow : List Lexeme → Prop} {ls : List Lexeme} {a : α}
    (h : ∀ᶠ depth in atTop, ∀ rest, follow rest →
      goal.rule (parse depth) (.flat (ls ++ rest)) = .ok (a, .flat rest)) :
    Reads goal follow ls a := by
  unfold Reads
  rw [← map_add_atTop_eq_nat 1, eventually_map]
  exact h

/-- One operator and its right operand, added to a left operand. -/
def joinStep (operand : Parse Expr) (operator? : Lexeme → Option (Expr → Expr → Expr))
    (left : Expr) : Parse (Option Expr) := do
  match (← current).bind operator? with
  | none => pure none
  | some join =>
    advance
    let right ← operand
    pure (some (join left right))

/-- The operators that join the operands of a level from left to right, if there are any. -/
def joinOp? : Level → Option (Lexeme → Option (Expr → Expr → Expr))
  | .disjunction => some disjunctionOp?
  | .conjunction => some conjunctionOp?
  | .sum => some sumOp?
  | .product => some productOp?
  | _ => none

/-- What a level adds to an expression again and again, if it does so. -/
def levelStep? (read : Reader) (literals : Bool) : Level → Option (Expr → Parse (Option Expr))
  | .postfixed => some (suffix read)
  | level => (joinOp? level).map (joinStep (read (levelGoal literals level.next)))

theorem rule_levelGoal {read : Reader} {literals : Bool} {level : Level}
    {step : Expr → Parse (Option Expr)} (h : levelStep? read literals level = some step) :
    (levelGoal literals level).rule read =
      (read (levelGoal literals level.next) >>= extended step) := by
  cases level <;> cases h <;> rfl

theorem joinStep_none {operand : Parse Expr} {operator? : Lexeme → Option (Expr → Expr → Expr)}
    {rest : List Lexeme} (h : ∀ l ∈ rest.head?, operator? l = none) (e : Expr) :
    joinStep operand operator? e (.flat rest) = .ok (none, .flat rest) := by
  have hnone : rest.head?.bind operator? = none := by
    cases hr : rest.head? with
    | none => rfl
    | some l => exact h l hr
  simp [joinStep, hnone]

theorem step_ends {read : Reader} {literals : Bool} {level : Level}
    {step : Expr → Parse (Option Expr)} (h : levelStep? read literals level = some step)
    {rest : List Lexeme} (hrest : Ends level literals rest) (e : Expr) :
    step e (.flat rest) = .ok (none, .flat rest) := by
  cases level <;> cases h
  case postfixed =>
    cases rest with
    | nil => simp [suffix]
    | cons x rest =>
      have hx : x.ends .postfixed literals = true := hrest x rfl
      have hdot : x ≠ .symbol .dot := by
        rintro rfl
        exact Bool.noConfusion hx
      have hparen : x ≠ .symbol .openParen := by
        rintro rfl
        exact Bool.noConfusion hx
      simp [suffix, hdot, hparen]
  all_goals
    refine joinStep_none (fun l hl => ?_) e
    have hl := hrest l hl
    cases l with
    | symbol s => cases s <;> first | rfl | exact Bool.noConfusion hl
    | _ => rfl

theorem comparisonOp?_ends {literals : Bool} {rest : List Lexeme}
    (h : Ends .comparison literals rest) : rest.head?.bind comparisonOp? = none := by
  cases hl : rest.head? with
  | none => rfl
  | some l =>
    have hl := h l hl
    cases l with
    | symbol s => cases s <;> first | rfl | exact Bool.noConfusion hl
    | _ => rfl

/-- Whether an expression in postfix form can start with a lexeme. -/
def startsOperand : Lexeme → Bool
  | .number _ | .text _ | .ident _ | .symbol .openParen => true
  | .keyword .trueKw | .keyword .falseKw | .keyword .ifKw | .keyword .selfKw
  | .keyword .selfTypeKw => true
  | _ => false

/-- A reader gives up at once. -/
def Refuses (x : Parse α) (c : Cursor) : Prop := ∃ e, x c = .error e

theorem Refuses.bind {β : Type} {x : Parse α} {c : Cursor} (h : Refuses x c) (f : α → Parse β) :
    Refuses (x >>= f) c := by
  obtain ⟨e, he⟩ := h
  exact ⟨e, by simp [he, Except.bind]⟩

theorem refuses_tooDeep (goal : Goal α) (c : Cursor) : Refuses (parse 0 goal) c := ⟨_, rfl⟩

theorem refuses_primary {c : Cursor} (hc : (c.lexeme? 0).any startsOperand = false) (depth : Nat)
    (literals : Bool) : Refuses (parse depth (.primary literals)) c := by
  cases depth with
  | zero => exact refuses_tooDeep _ c
  | succ depth =>
    refine ⟨.unexpected .expression c.found c.pos, ?_⟩
    change primaryRule (parse depth) literals c = _
    simp only [primaryRule, bind_apply, here, current, bind_ok]
    cases hl : c.lexeme? 0 with
    | none => rfl
    | some l =>
      have hl : startsOperand l = false := by simpa [hl] using hc
      cases l with
      | symbol s => cases s <;> first | rfl | cases hl
      | keyword k => cases k <;> first | rfl | cases hl
      | _ => cases hl

theorem refuses_postfixed {c : Cursor} (hc : (c.lexeme? 0).any startsOperand = false) (depth : Nat)
    (literals : Bool) : Refuses (parse depth (.postfixed literals)) c := by
  cases depth with
  | zero => exact refuses_tooDeep _ c
  | succ depth => exact (refuses_primary hc depth literals).bind _

/-- No level reads an expression from a lexeme that neither is an operator in front of an operand
nor starts one. -/
theorem refuses_level {c : Cursor} (hc : (c.lexeme? 0).any startsOperand = false)
    (hop : (c.lexeme? 0).bind unaryOp? = none) (depth : Nat) (literals : Bool) (level : Level) :
    Refuses (parse depth (levelGoal literals level)) c := by
  induction depth generalizing level with
  | zero => exact refuses_tooDeep _ c
  | succ depth ih =>
    have hnext := fun f : Expr → Parse Expr => (ih level.next).bind f
    cases level with
    | primary => exact refuses_primary hc _ literals
    | postfixed => exact refuses_postfixed hc _ literals
    | unary =>
      obtain ⟨e, he⟩ := refuses_postfixed hc depth literals
      refine ⟨e, ?_⟩
      change unaryRule (parse depth) literals c = _
      simp [unaryRule, current, hop, he]
    | _ => exact hnext _

theorem refuses_expr {c : Cursor} (hc : (c.lexeme? 0).any startsOperand = false)
    (hop : (c.lexeme? 0).bind unaryOp? = none) (depth : Nat) (literals : Bool) :
    Refuses (parse depth (.expr literals)) c := by
  cases depth with
  | zero => exact refuses_tooDeep _ c
  | succ depth => exact refuses_level hc hop depth literals .disjunction

/-- Whether an expression can start with a lexeme. -/
def startsExpr (l : Lexeme) : Bool := startsOperand l || (unaryOp? l).isSome

/-- A reader that refuses what no expression starts with reads only what an expression starts
with. -/
theorem starts_of_refuses {x : Parse α} {ls : List Lexeme} {r : α × Cursor}
    (hrefuses : ∀ c : Cursor, (c.lexeme? 0).any startsOperand = false →
      (c.lexeme? 0).bind unaryOp? = none → Refuses x c)
    (h : x (.flat ls) = .ok r) : ∃ l tail, ls = l :: tail ∧ startsExpr l = true := by
  have hnot : ¬ Refuses x (.flat ls) := by
    rintro ⟨e, he⟩
    rw [h] at he
    cases he
  cases ls with
  | nil => exact absurd (hrefuses _ rfl rfl) hnot
  | cons l tail =>
    refine ⟨l, tail, rfl, ?_⟩
    by_contra hl
    simp only [startsExpr, Bool.or_eq_true, not_or, Bool.not_eq_true, Option.isSome_eq_false_iff,
      Option.isNone_iff_eq_none] at hl
    exact hnot (hrefuses _ (by simpa [Cursor.lexeme?_flat] using hl.1)
      (by simpa [Cursor.lexeme?_flat] using hl.2))

theorem expr_starts {depth : Nat} {literals : Bool} {ls : List Lexeme} {r : Expr × Cursor}
    (h : parse depth (.expr literals) (.flat ls) = .ok r) :
    ∃ l tail, ls = l :: tail ∧ startsExpr l = true :=
  starts_of_refuses (fun _ hc hop => refuses_expr hc hop depth literals) h

/-- An expression is read at some level, and then what the level adds to it. Arguments cannot follow
at once unless it is `callable`. -/
def Chains (literals callable : Bool) (level : Level) (ls : List Lexeme) (e : Expr) : Prop :=
  ∀ᶠ depth in atTop, ∀ step, levelStep? (parse depth) literals level = some step →
    ∀ rest, Ends level.next literals rest →
      callable = true ∨ rest.head? ≠ some (.symbol .openParen) →
      ∀ e' c', ExtendsTo step e (.flat rest) e' c' →
        (levelGoal literals level).rule (parse depth) (.flat (ls ++ rest)) = .ok (e', c')

/-- An expression is read at some level, as a whole and as the start of a longer one. -/
structure Opens (literals callable : Bool) (level : Level) (ls : List Lexeme) (e : Expr) :
    Prop where
  reads : Reads (levelGoal literals level) (Ends level literals) ls e
  chains : Chains literals callable level ls e

/-- The levels that add to an expression again and again. -/
def loops : Level → Bool
  | .comparison | .unary | .primary => false
  | _ => true

theorem exists_levelStep {level : Level} (h : loops level = true) (read : Reader)
    (literals : Bool) : ∃ step, levelStep? read literals level = some step := by
  cases level <;> first | exact ⟨_, rfl⟩ | cases h

theorem levelStep?_eq_none {level : Level} (h : loops level = false) (read : Reader)
    (literals : Bool) : levelStep? read literals level = none := by
  cases level <;> first | rfl | cases h

variable {literals callable : Bool} {level : Level} {ls : List Lexeme} {e : Expr}

theorem Chains.reads (hloops : loops level = true) (h : Chains literals callable level ls e) :
    Reads (levelGoal literals level) (Ends level literals) ls e := by
  refine .of_rule ?_
  filter_upwards [h] with depth h rest hrest
  obtain ⟨step, hstep⟩ := exists_levelStep hloops (parse depth) literals
  have hlevel : level ≠ .primary := by
    rintro rfl
    cases hloops
  exact h step hstep rest hrest.tighten (.inr (hrest.head?_ne_openParen hlevel)) e _
    (.done (step_ends hstep hrest e))

theorem Reads.chains (h : Reads (levelGoal literals level.next) (Ends level.next literals) ls e) :
    Chains literals callable level ls e := by
  filter_upwards [h] with depth h step hstep rest hrest _ e' c' hext
  rw [rule_levelGoal hstep]
  simp [h rest hrest, hext.extended]

theorem reads_comparison (h : Reads (.sum literals) (Ends .sum literals) ls e) :
    Reads (.comparison literals) (Ends .comparison literals) ls e := by
  refine .of_rule ?_
  filter_upwards [h] with depth h rest hrest
  change comparisonRule (parse depth) literals _ = _
  have hop : rest.head?.bind comparisonOp? = none := comparisonOp?_ends hrest
  simp [comparisonRule, h rest hrest.tighten, hop]

theorem reads_unary (h : Reads (.postfixed literals) (Ends .postfixed literals) ls e) :
    Reads (.unary literals) (Ends .unary literals) ls e := by
  refine .of_rule ?_
  filter_upwards [h] with depth h rest hrest
  have hread := h rest hrest.tighten
  have hop : (ls ++ rest).head?.bind unaryOp? = none := by
    cases hl : (ls ++ rest).head? with
    | none => rfl
    | some l =>
      cases hop : unaryOp? l with
      | none => exact hop
      | some op =>
        have hstarts : startsOperand l = false := by
          unfold unaryOp? at hop
          split at hop <;> first | rfl | cases hop
        have hc : ((Cursor.flat (ls ++ rest)).lexeme? 0).any startsOperand = false := by
          rw [Cursor.lexeme?_flat, hl]
          exact hstarts
        obtain ⟨err, herr⟩ := refuses_postfixed hc depth literals
        rw [hread] at herr
        cases herr
  change unaryRule (parse depth) literals _ = _
  simp only [unaryRule, bind_apply, current_flat, bind_ok, hop, hread]

/-- What is read at one level is read at the next looser one, as a whole and as the start of a
longer expression. -/
theorem Reads.opens (hlevel : level ≠ .primary)
    (h : Reads (levelGoal literals level.next) (Ends level.next literals) ls e) :
    Opens literals callable level ls e := by
  have hchains : Chains literals callable level ls e := h.chains
  refine ⟨?_, hchains⟩
  cases level with
  | comparison => exact reads_comparison h
  | unary => exact reads_unary h
  | primary => exact absurd rfl hlevel
  | _ => exact hchains.reads rfl

/-- What is read at one level is read at every looser one. -/
theorem Reads.loosen {tight : Level} (hle : level.rank ≤ tight.rank)
    (h : Reads (levelGoal literals tight) (Ends tight literals) ls e) :
    Reads (levelGoal literals level) (Ends level literals) ls e := by
  obtain ⟨n, hn⟩ := Nat.exists_eq_add_of_le hle
  induction n generalizing level with
  | zero =>
    obtain rfl := Level.rank_injective (hn : tight.rank = level.rank)
    exact h
  | succ n ih =>
    have hlevel : level ≠ .primary := by
      rintro rfl
      have hmax : tight.rank ≤ 7 := tight.rank_le
      have hn : tight.rank = 7 + (n + 1) := hn
      omega
    have hnext := level.rank_next hlevel
    have hopens : Opens literals true level ls e :=
      Reads.opens hlevel (ih (by omega) (by omega))
    exact hopens.reads

theorem Opens.loosen {tight : Level} (hle : level.rank ≤ tight.rank)
    (h : Opens literals callable tight ls e) : Opens literals callable level ls e := by
  by_cases heq : level = tight
  · rwa [heq]
  · have hlevel : level ≠ .primary := by
      rintro rfl
      exact heq (Level.rank_injective (Nat.le_antisymm hle tight.rank_le))
    have hlt : level.rank ≠ tight.rank := fun hr => heq (Level.rank_injective hr)
    have hnext := level.rank_next hlevel
    exact Reads.opens hlevel (h.reads.loosen (by omega))

theorem Reads.opens_of_not_loops (hloops : loops level = false)
    (h : Reads (levelGoal literals level) (Ends level literals) ls e) :
    Opens literals callable level ls e := by
  refine ⟨h, .of_forall fun depth step hstep => ?_⟩
  rw [levelStep?_eq_none hloops] at hstep
  cases hstep

theorem Chains.opens (hloops : loops level = true) (h : Chains literals callable level ls e) :
    Opens literals callable level ls e :=
  ⟨h.reads hloops, h⟩

theorem Reads.mono {goal : Goal α} {follow follow' : List Lexeme → Prop} {a : α}
    (hfollow : ∀ rest, follow' rest → follow rest) (h : Reads goal follow ls a) :
    Reads goal follow' ls a := by
  filter_upwards [h] with depth h rest hrest
  exact h rest (hfollow rest hrest)

/-- What is read at some level is read as an expression. -/
theorem Opens.expr (h : Opens literals callable level ls e) :
    Reads (.expr literals) (Ends .disjunction literals) ls e := by
  have hle : Level.disjunction.rank ≤ level.rank := Nat.zero_le _
  exact .of_rule (h.reads.loosen hle)

/-- An expression in parentheses is read at every level, whatever follows. -/
theorem Opens.parens {literals' callable' : Bool} (h : Opens true callable level ls e)
    (least : Level) :
    Opens literals' callable' least (.symbol .openParen :: (ls ++ [.symbol .closeParen])) e := by
  suffices hprimary : Opens literals' callable' .primary _ e from hprimary.loosen least.rank_le
  refine Reads.opens_of_not_loops rfl (.of_rule ?_)
  filter_upwards [h.expr] with depth h rest _
  change primaryRule (parse depth) literals' _ = _
  have hread := h (.symbol .closeParen :: rest) (by simp [Ends, Lexeme.ends])
  simp [primaryRule, hread]

section Enclosed

variable {original : Expr} {bare : Bool → Bool → List Lexeme}

/-- An expression that is read where it can stand bare is read at every place, with parentheses if
need be. -/
theorem opens_enclosed
    (h : ∀ literals leading, literals = true ∨ original.isStructLit = false →
      Opens literals callable original.level (bare literals leading) e)
    (least : Level) (literals leading : Bool) :
    Opens literals callable least (original.enclosed bare least literals leading) e := by
  unfold Expr.enclosed
  split
  · exact (h true false (.inl rfl)).parens least
  · rename_i hbare
    simp only [Expr.needsParens, Bool.or_eq_true, decide_eq_true_eq, Bool.and_eq_true,
      Bool.not_eq_true', not_or, not_and, Nat.not_lt, Bool.not_eq_true] at hbare
    obtain ⟨⟨hlevel, hliteral⟩, -⟩ := hbare
    have hstands : literals = true ∨ original.isStructLit = false := by
      cases literals with
      | true => exact .inl rfl
      | false => exact .inr (hliteral rfl)
    exact (h literals leading hstands).loosen hlevel

/-- Arguments can follow a callee, since an access to a field is put in parentheses. -/
theorem opens_callee
    (h : ∀ literals leading, literals = true ∨ original.isStructLit = false →
      Opens literals (!original.isField) original.level (bare literals leading) e)
    (literals leading : Bool) :
    Opens literals true .postfixed
      (original.enclosed bare original.calleeLevel literals leading) e := by
  cases hfield : original.isField with
  | true =>
    have hparens : original.needsParens original.calleeLevel literals leading = true := by
      cases original <;> first | rfl | cases hfield
    unfold Expr.enclosed
    rw [if_pos hparens]
    exact (h true false (.inl rfl)).parens .postfixed
  | false =>
    have hcallee : original.calleeLevel = .postfixed := by
      cases original <;> first | rfl | cases hfield
    rw [hfield] at h
    rw [hcallee]
    exact opens_enclosed h .postfixed literals leading

end Enclosed

end Grammar

end Rustlet
