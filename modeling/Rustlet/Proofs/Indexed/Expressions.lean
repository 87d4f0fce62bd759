import Rustlet.Proofs.Indexed.Parts
import Rustlet.Proofs.Numerals

/-! Types and expressions, read by index and from the front of what is left. -/
namespace Rustlet

namespace Indexed

open Grammar (Reader)

variable {ι : Type} {F : Prop} {s : State} {j k r : Nat} {run : ι → Runner} {read : ι → Reader}
  {n : ι → Nat}

theorem tracks_typeRule (hs : F → s.Plain) (h : Parts s j r run read) :
    Tracks F s j (Past j) (fun i => typeRule (run i)) fun i => Grammar.typeRule (read i) := by
  refine .bind (tracks_skip hs rfl) fun amp k hk => .ite (fun hamp => ?_) fun _ => ?_
  · refine .bind (tracks_skip hs rfl) fun isMut m hm => ?_
    have hlt : j < m := Nat.lt_of_lt_of_le (hk.2 hamp) hm.1
    refine .bind (h.part .type hs ⟨rfl, rfl⟩ (.inl hlt)) fun target m' hm' => ?_
    exact .pure (Nat.lt_trans hlt hm')
  refine .bind (tracks_skip hs rfl) fun paren m hm => .ite (fun hparen => ?_) fun _ => ?_
  · exact .bind (tracks_expect hs rfl) fun _ m' hm' => .pure (by omega)
  refine .bind (tracks_skip hs rfl) fun self m' hm' => .ite (fun hself => .pure ?_) fun _ => ?_
  · have hlt := hm'.2 hself
    omega
  · exact .bind tracks_ident fun name m'' hm'' => .pure (by omega)

/-- The operators that join operands from left to right. -/
theorem lists_joins : Lists disjunctionOps Grammar.disjunctionOp? ∧
    Lists conjunctionOps Grammar.conjunctionOp? ∧ Lists sumOps Grammar.sumOp? ∧
    Lists productOps Grammar.productOp? := by
  refine ⟨?_, ?_, ?_, ?_⟩
  all_goals
    intro l
    cases l with
    | symbol mark => cases mark <;> rfl
    | _ => rfl

theorem lists_comparisonOps : Lists comparisonOps Grammar.comparisonOp? := by
  intro l
  cases l with
  | symbol mark => cases mark <;> rfl
  | _ => rfl

theorem lists_unaryOps : Lists unaryOps Grammar.unaryOp? := by
  intro l
  cases l with
  | symbol mark => cases mark <;> rfl
  | _ => rfl

/-- Operands that each take a token. -/
theorem tracks_leftJoined (hs : F → s.Plain) (hn : ∀ i, s.tokens.length - j < n i)
    {operand : ι → Action Expr} {operand' : ι → Parse Expr}
    {operators : List (Symbol × (Expr → Expr → Expr))}
    {operator? : Lexeme → Option (Expr → Expr → Expr)} (hops : Lists operators operator?)
    (hoperand : ∀ k, j ≤ k → Tracks F s k (Past k) operand operand') :
    Tracks F s j (Past j) (fun i => leftJoined (n i) (operand i) operators)
      fun i => Grammar.leftJoined (operand' i) operator? := by
  refine .bind (hoperand j (Nat.le_refl j)) fun first k hk => ?_
  refine (tracks_extended (rounds_left hn (Nat.le_of_lt hk)) (fun left m hm => ?_) first).mono
    fun _ m hm => Nat.lt_of_lt_of_le hk hm
  refine .ask (firstSeen_seek operators) (.look ?_)
  have hlisted := fun hF => listed?_eq (j := m) (hs hF) hops
  generalize ((s.cursor m).lexeme? 0).bind operator? = v at hlisted
  revert v
  refine .subst ?_
  cases s.listed? m operators with
  | none => exact .pure (Nat.le_refl m)
  | some join =>
    refine .bind tracks_advance fun _ m₁ hm₁ => ?_
    refine .bind (hoperand m₁ ?_) fun right m₂ hm₂ => .pure ?_
    · omega
    · exact Nat.lt_of_le_of_lt hm₁.1 hm₂

theorem tracks_comparisonRule (hs : F → s.Plain)
    (h : Parts s j Construct.comparison.rank run read) :
    Tracks F s j (Past j) (fun i => comparisonRule (run i))
      fun i => Grammar.comparisonRule (read i) s.literals := by
  have hoperand : ∀ k, j ≤ k → Tracks F s k (Past k) (fun i => run i .sum)
      fun i => read i (.sum s.literals) :=
    fun k hk => h.part .sum hs ⟨rfl, rfl⟩ (.inr ⟨hk, by decide⟩)
  have hlisted : ∀ k, F → ((s.cursor k).lexeme? 0).bind Grammar.comparisonOp? =
      s.listed? k comparisonOps :=
    fun k hF => listed?_eq (hs hF) lists_comparisonOps
  refine .bind (hoperand j (Nat.le_refl j)) fun left k hk => ?_
  refine .ask (firstSeen_seek comparisonOps) (.look ?_)
  have hfirst := hlisted k
  generalize ((s.cursor k).lexeme? 0).bind Grammar.comparisonOp? = v at hfirst
  revert v
  refine .subst ?_
  cases s.listed? k comparisonOps with
  | none => exact .pure hk
  | some op =>
    refine .bind tracks_advance fun _ k₁ hk₁ => ?_
    refine .bind (hoperand k₁ ?_) fun right k₂ hk₂ => ?_
    · omega
    refine .ask (firstSeen_seek comparisonOps) (.look ?_)
    have hsecond := hlisted k₂
    generalize ((s.cursor k₂).lexeme? 0).bind Grammar.comparisonOp? = w at hsecond
    revert w
    refine .subst ?_
    exact .ite (fun _ => tracks_fail _ (by nofun)) fun _ => .pure (by omega)

theorem tracks_unaryRule (hs : F → s.Plain) (h : Parts s j Construct.unary.rank run read) :
    Tracks F s j (Past j) (fun i => unaryRule (run i))
      fun i => Grammar.unaryRule (read i) s.literals := by
  refine .ask (firstSeen_seek unaryOps) (.look ?_)
  have hlisted := fun hF => listed?_eq (j := j) (hs hF) lists_unaryOps
  generalize ((s.cursor j).lexeme? 0).bind Grammar.unaryOp? = v at hlisted
  revert v
  refine .subst ?_
  cases hop : s.listed? j unaryOps with
  | none => exact h.part .postfixed hs ⟨rfl, rfl⟩ (.inr ⟨Nat.le_refl j, by decide⟩)
  | some op =>
    refine .here (.bind tracks_advance fun _ k hk => ?_)
    have hlt : j < k := hk.2 (lt_of_listed? hop)
    refine .bind (h.part .unary hs ⟨rfl, rfl⟩ (.inl hlt)) fun operand m hm => .pure ?_
    exact Nat.lt_trans hlt hm

theorem tracks_suffix (hs : F → s.Plain) (h : Parts s j r run read) (hk : j < k) (e : Expr) :
    Tracks F s k (ExtendsFrom k) (fun i => suffix (run i) e)
      fun i => Grammar.suffix (read i) e := by
  have hargs : ∀ m, k ≤ m → Tracks F s m (Past m) (fun i => run i .args) fun i => read i .args :=
    fun m hm => h.part .args hs ⟨rfl, rfl⟩ (.inl (Nat.lt_of_lt_of_le hk hm))
  refine .bind (tracks_skip hs rfl) fun dot k₁ hk₁ => .ite (fun hdot => ?_) fun _ => ?_
  · refine .here (.bind tracks_ident fun name k₂ hk₂ => ?_)
    have hlt : k < k₂ := Nat.lt_of_le_of_lt hk₁.1 hk₂
    refine .sees hs rfl (.ite (fun _ => ?_) fun _ => .pure hlt)
    exact .bind (hargs k₂ (Nat.le_of_lt hlt)) fun args m hm => .pure (Nat.lt_trans hlt hm)
  · refine .sees hs rfl (.ite (fun _ => .here ?_) fun _ => .pure hk₁.1)
    exact .bind (hargs k₁ hk₁.1) fun args m hm => .pure (Nat.lt_of_le_of_lt hk₁.1 hm)

theorem tracks_postfixedRule (hs : F → s.Plain) (h : Parts s j Construct.postfixed.rank run read)
    (hn : ∀ i, s.tokens.length - j < n i) :
    Tracks F s j (Past j) (fun i => postfixedRule (n i) (run i))
      fun i => Grammar.postfixedRule (read i) s.literals := by
  refine .bind (h.part .primary hs ⟨rfl, rfl⟩ (.inr ⟨Nat.le_refl j, by decide⟩)) fun e k hk => ?_
  refine (tracks_extended (rounds_left hn (Nat.le_of_lt hk)) (fun e m hm => ?_) e).mono
    fun _ m hm => Nat.lt_of_lt_of_le hk hm
  exact tracks_suffix hs h (Nat.lt_of_lt_of_le hk hm) e

theorem tracks_argsRule (hs : F → s.Plain) (h : Parts s j r run read)
    (hn : ∀ i, s.tokens.length - j < n i) :
    Tracks F s j (Past j) (fun i => argsRule (n i) (run i)) fun i => Grammar.argsRule (read i) := by
  have hs' : F → (s.allow true).Plain := hs
  refine .bind (tracks_expect hs rfl) fun _ k hk => ?_
  refine .bind (tracks_allowing (tracks_listUntil hs' (rounds_left hn (Nat.le_of_lt hk)) _
    fun m hm => ?_)) fun args m hm => ?_
  · exact (h.allow true).part .expr hs' ⟨rfl, rfl⟩ (.inl (Nat.lt_of_lt_of_le hk hm))
  · refine .bind (tracks_expect hs rfl) fun _ m' hm' => .pure ?_
    omega

theorem tracks_fieldInit (hs : F → s.Plain ∧ s.literals = true) (h : Parts s j r run read)
    (hk : j < k) :
    Tracks F s k (Past k) (fun i => fieldInit (run i)) fun i => Grammar.fieldInit (read i) := by
  have hplain : F → s.Plain := fun hF => (hs hF).1
  refine .here (.bind tracks_ident fun name k₁ hk₁ => ?_)
  refine .bind (tracks_skip hplain rfl) fun colon k₂ hk₂ => .ite (fun _ => ?_) fun _ => ?_
  · refine .bind (h.inherited .expr hs rfl (.inl ?_)) fun value m hm => .pure ?_
    · omega
    · omega
  · refine .sees hplain rfl (.sees hplain rfl (.ite (fun _ => .pure ?_) fun _ => ?_))
    · omega
    · exact tracks_fail _ (by nofun)

theorem tracks_structLitRule (hs : F → s.Plain ∧ s.literals = true) (h : Parts s j r run read)
    (hn : ∀ i, s.tokens.length - j < n i) (type : TypePath) :
    Tracks F s j (Past j) (fun i => structLitRule (n i) (run i) type)
      fun i => Grammar.structLitRule (read i) type := by
  have hplain : F → s.Plain := fun hF => (hs hF).1
  refine .here (.bind tracks_advance fun _ k₁ hk₁ => ?_)
  refine .bind (tracks_expect hplain rfl) fun _ k₂ hk₂ => ?_
  have hlt : j < k₂ := Nat.lt_of_le_of_lt hk₁.1 hk₂
  refine .bind (tracks_listUntil hplain (rounds_left hn (Nat.le_of_lt hlt)) _ fun m hm => ?_)
    fun fields k₃ hk₃ => ?_
  · exact tracks_fieldInit hs h (Nat.lt_of_lt_of_le hlt hm)
  · refine .bind (tracks_expect hplain rfl) fun _ k₄ hk₄ => .pure ?_
    omega

theorem tracks_pathCall (hs : F → s.Plain) (h : Parts s j r run read) (type : TypePath) :
    Tracks F s j (Past j) (fun i => pathCall (run i) type)
      fun i => Grammar.pathCall (read i) type := by
  refine .here (.bind tracks_advance fun _ k₁ hk₁ => .bind tracks_advance fun _ k₂ hk₂ => ?_)
  refine .bind tracks_ident fun name k₃ hk₃ => ?_
  have hlt : j < k₃ := by omega
  refine .sees hs rfl (.ite (fun _ => ?_) fun _ => tracks_fail _ (by nofun))
  exact .bind (h.part .args hs ⟨rfl, rfl⟩ (.inl hlt)) fun args m hm => .pure (Nat.lt_trans hlt hm)

/-- Whether the brace after a token opens a struct literal. -/
def State.opens (s : State) (j : Nat) : Bool :=
  (s.cursor j).spells 1 "\x7b" &&
    s.tokens[j + 2]?.any fun t => t.shows (.symbol .closeBrace) || t.lexeme.isIdent

theorem spells_of_opens (h : s.opens j = true) : (s.cursor j).spells 1 "\x7b" = true := by
  rw [State.opens, Bool.and_eq_true] at h
  exact h.1

theorem opensFields_seek (_ : j ≤ s.tokens.length) :
    opensFields (s.seek j) = .ok (s.opens j, s.seek j) := by
  rw [State.opens, Cursor.spells, s.lexeme?_cursor, Option.any_map]
  rfl

theorem opensFields_cursor (hs : s.Plain) :
    Grammar.opensFields (s.cursor j) = .ok (s.opens j, s.cursor j) := by
  unfold Grammar.opensFields State.opens
  rw [s.lexeme?_cursor]
  cases ht : s.tokens[j + 2]? with
  | none => rfl
  | some t =>
    have hplain : t.lexeme.Plain := hs t (List.mem_of_getElem? ht)
    have hshows : t.shows (.symbol .closeBrace) = decide (t.lexeme = .symbol .closeBrace) := by
      rw [Bool.eq_iff_iff, Token.shows_iff rfl hplain, decide_eq_true_iff]
    rw [Option.any_some, Option.map_some, hshows]
    cases t.lexeme with
    | symbol mark => cases mark <;> rfl
    | _ => rfl

/-- The arguments of a macro, behind two tokens. -/
theorem Parts.macroCall (h : Parts s j r run read) (hs : F → s.Plain) (hj : j < s.tokens.length)
    (pos : Pos) (name : String) :
    Tracks F s j (Past j)
      (fun i => do
        advance
        advance
        let args ← run i .args
        pure (Expr.macroCall pos name args))
      (fun i => do
        Parse.advance
        Parse.advance
        let args ← read i .args
        pure (Expr.macroCall pos name args)) := by
  refine .bind tracks_advance fun _ k₁ hk₁ => .bind tracks_advance fun _ k₂ hk₂ => ?_
  have hlt : j < k₂ := Nat.lt_of_lt_of_le (hk₁.2 hj) hk₂.1
  exact .bind (h.part .args hs ⟨rfl, rfl⟩ (.inl hlt)) fun args m hm => .pure (Nat.lt_trans hlt hm)

/-- An expression that starts with `Self`, or with an identifier that is written so. -/
theorem tracks_named_self (hs : F → s.Plain) (h : Parts s j Construct.primary.rank run read)
    (hself : s.shows j (.keyword .selfTypeKw) = true) :
    Tracks F s j (Past j) (fun i => named (run i))
      fun i => Grammar.selfTyped (read i) s.literals := by
  have hj := State.lt_of_shows hself
  -- Under `F` the token is `Self`, and no identifier.
  have hident : F → ((s.cursor j).lexeme? 0).any (·.isIdent) = false := by
    intro hF
    rw [State.shows_eq (hs hF) rfl, decide_eq_true_iff] at hself
    rw [hself]
    rfl
  refine .ask here_seek (.ask value_seek (.ask sees_seek (.ask (fun _ => rfl) ?_)))
  rw [hself]
  refine .ask atIdent_seek (.ask spells_seek (.ask spells_seek ?_))
  refine .iteLeft (fun hcall => (h.macroCall hs hj _ _).congr fun hF => ?_) fun _ => ?_
  · rw [hident hF] at hcall
    cases hcall
  refine .spells (.ite (fun _ => tracks_pathCall hs h _) fun _ => ?_)
  refine .ask opensFields_seek (.spells ?_)
  have hopens : (s.opens j || true && (s.cursor j).spells 1 "\x7b") =
      (s.cursor j).spells 1 "\x7b" := by
    rw [Bool.true_and, Bool.or_eq_right_iff_imp]
    exact spells_of_opens
  rw [hopens]
  refine .ite (fun hlit => ?_) fun _ => tracks_fail _ (by nofun)
  have hliterals : s.literals = true := (Bool.and_eq_true _ _ ▸ hlit).1
  exact h.inherited (.structLit .selfType) (fun hF => ⟨hs hF, hliterals⟩) rfl
    (.inr ⟨Nat.le_refl j, Nat.one_lt_two⟩)

/-- An expression that starts with a name. -/
theorem tracks_named_ident (hs : F → s.Plain) (h : Parts s j Construct.primary.rank run read)
    (hself : s.shows j (.keyword .selfTypeKw) = false) {name : String}
    (hname : (s.cursor j).lexeme? 0 = some (.ident name)) :
    Tracks F s j (Past j) (fun i => named (run i))
      fun i => Grammar.named (read i) s.literals name := by
  have hj := lt_of_lexeme? hname
  refine .ask here_seek (.ask value_seek (.ask sees_seek (.ask (fun _ => rfl) ?_)))
  rw [hself, hname]
  refine .ask atIdent_seek ?_
  rw [hname]
  refine .spells (.spells (.ite (fun _ => ?_) fun _ => ?_))
  · exact .answer (fun _ => rfl) (h.macroCall hs hj _ _)
  refine .spells (.ite (fun _ => tracks_pathCall hs h _) fun _ => ?_)
  refine .query opensFields_seek (fun hF => opensFields_cursor (hs hF)) (.ask spells_seek ?_)
  rw [Bool.false_and, Bool.or_false]
  refine .ite (fun hlit => ?_) fun _ => ?_
  · have hliterals : s.literals = true := (Bool.and_eq_true _ _ ▸ hlit).1
    exact h.inherited (.structLit (.named name)) (fun hF => ⟨hs hF, hliterals⟩) rfl
      (.inr ⟨Nat.le_refl j, Nat.one_lt_two⟩)
  · exact .answer (fun _ => rfl) (.bind tracks_advance fun _ k hk => .pure (hk.2 hj))

/-- A primary expression that starts with anything but a numeral or a text. -/
theorem tracks_worded (hs : F → s.Plain) (h : Parts s j Construct.primary.rank run read)
    (hword : ∀ l ∈ (s.cursor j).lexeme? 0, l.isFixed = true ∨ l.isIdent = true) :
    Tracks F s j (Past j) (fun i => worded (run i) (s.cursor j).pos)
      fun i => Grammar.primaryRule (read i) s.literals := by
  have hpast : ∀ {l : Lexeme}, s.shows j l = true → ∀ {α : Type} (a : α) k,
      j ≤ k ∧ (j < s.tokens.length → j < k) → Past j a k :=
    fun hl _ _ _ hk => hk.2 (State.lt_of_shows hl)
  refine .answer (fun _ => rfl) ?_
  refine .ask sees_seek (.iteLeft (fun htrue => .seen hs rfl htrue ?_) fun htrue => ?_)
  · exact .bind tracks_advance fun _ k hk => .pure (hpast htrue _ k hk)
  refine .ask sees_seek (.iteLeft (fun hfalse => .seen hs rfl hfalse ?_) fun hfalse => ?_)
  · exact .bind tracks_advance fun _ k hk => .pure (hpast hfalse _ k hk)
  refine .ask sees_seek (.iteLeft (fun hif => .seen hs rfl hif ?_) fun hif => ?_)
  · exact .bind (h.part .conditional hs ⟨rfl, rfl⟩ (.inr ⟨Nat.le_refl j, by decide⟩))
      fun c k hk => .pure hk
  refine .ask sees_seek (.iteLeft (fun hself => .seen hs rfl hself ?_) fun hself => ?_)
  · exact .bind tracks_advance fun _ k hk => .pure (hpast hself _ k hk)
  refine .ask atIdent_seek (.ask sees_seek (.iteLeft (fun hnamed => ?_) fun hnamed => ?_))
  · by_cases hself : s.shows j (.keyword .selfTypeKw) = true
    · exact .seen hs rfl hself (tracks_named_self hs h hself)
    · rw [Bool.or_eq_true, or_iff_left hself, Option.any_eq_true] at hnamed
      obtain ⟨l, hl, hident⟩ := hnamed
      cases l with
      | ident name =>
        refine .look ?_
        rw [hl]
        exact tracks_named_ident hs h (eq_false_of_ne_true hself) hl
      | _ => cases hident
  refine .ask sees_seek (.iteLeft (fun hparen => .seen hs rfl hparen ?_) fun hparen => ?_)
  · refine .bind tracks_advance fun _ k hk => ?_
    have hlt : j < k := hk.2 (State.lt_of_shows hparen)
    refine .bind (tracks_allowing ((h.allow true).part .expr hs ⟨rfl, rfl⟩ (.inl hlt)))
      fun e k₁ hk₁ => ?_
    exact .bind (tracks_expect hs rfl) fun _ k₂ hk₂ => .pure (by omega)
  refine .look ((tracks_fail .expression nofun).congr fun hF => ⟨hF, fun i => ?_⟩)
  have hne : ∀ {l : Lexeme}, l.isFixed = true → ¬ s.shows j l = true →
      (s.cursor j).lexeme? 0 ≠ some l :=
    State.lexeme?_ne (hs hF)
  rw [Bool.or_eq_true, not_or] at hnamed
  obtain ⟨hident, hselfType⟩ := hnamed
  cases hl : (s.cursor j).lexeme? 0 with
  | none => rfl
  | some l =>
    cases l with
    | keyword word => cases word <;> first | rfl | exact absurd hl (hne rfl (by assumption))
    | symbol mark => cases mark <;> first | rfl | exact absurd hl (hne rfl (by assumption))
    | ident name =>
      rw [hl] at hident
      exact absurd rfl hident
    | number numeral => rcases hword _ hl with hl | hl <;> cases hl
    | text content => rcases hword _ hl with hl | hl <;> cases hl

/-- The numbers among the tokens are numerals. -/
def State.Numerals (s : State) : Prop :=
  ∀ t ∈ s.tokens, ∀ numeral, t.lexeme = .number numeral → Number.IsNumeral numeral.toList

theorem tracks_primaryRule (hnumerals : s.Numerals) (hs : F → s.Plain)
    (h : Parts s j Construct.primary.rank run read) :
    Tracks F s j (Past j) (fun i => primaryRule (run i))
      fun i => Grammar.primaryRule (read i) s.literals := by
  refine .ask here_seek (.ask current_seek ?_)
  cases hl : (s.cursor j).lexeme? 0 with
  | none => exact tracks_worded hs h fun l hl' => by cases hl.symm.trans hl'
  | some l =>
    have hj := lt_of_lexeme? hl
    cases l with
    | number numeral =>
      have hnumeral : Scan.splitNumeral numeral.toList = some (numeral.toList, []) := by
        rw [s.lexeme?_cursor, Option.map_eq_some_iff] at hl
        obtain ⟨t, ht, hlexeme⟩ := hl
        have hnil : Number.EndsNumeral [] := by
          intro c hc
          cases hc
        have happend := Number.splitNumeral_append
          (hnumerals t (List.mem_of_getElem? ht) numeral hlexeme) hnil
        rw [List.append_nil] at happend
        exact happend
      refine .answer (fun _ => rfl) (.look ?_)
      rw [hl]
      refine .bind tracks_advance fun _ k hk => ?_
      exact .iteLeft (fun _ => .pure (hk.2 hj)) fun hnot => absurd hnumeral hnot
    | text content =>
      refine .answer (fun _ => rfl) (.look ?_)
      rw [hl]
      exact .bind tracks_advance fun _ k hk => .pure (hk.2 hj)
    | _ =>
      refine tracks_worded hs h fun l hl' => ?_
      cases hl.symm.trans hl'
      first | exact .inl rfl | exact .inr rfl

end Indexed

end Rustlet
